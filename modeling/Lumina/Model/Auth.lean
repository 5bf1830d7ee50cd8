import Lumina.Model.Api

/-!
# The admin key

The handlers that write ask `guard` first.  With an admin key configured, it lets through only a
request whose `X-Admin-Key` header is that key.

## Main definitions

* `HeaderMap` : the headers of a request, with `HeaderMap.get`.
* `constantTimeEq`, `guard` : `auth.rs`.
-/

namespace Lumina

/-- A header: its name as the client wrote it, and the bytes of its value. -/
structure Header where
  name : String
  value : List UInt8
  deriving DecidableEq

/-- The headers of a request in their order; a name may occur more than once. -/
abbrev HeaderMap := List Header

/-- `to_ascii_lowercase`. -/
def toAsciiLowercase (s : String) : String := String.ofList (s.toList.map Char.toLower)

/-- `HeaderMap::get`, the first value of a header. -/
def HeaderMap.get (headers : HeaderMap) (name : String) : Option (List UInt8) :=
  (headers.find? fun h => toAsciiLowercase h.name = name).map (·.value)

def isVisibleAscii (b : UInt8) : Bool := (32 ≤ b && b < 127) || b = 9

/-- `HeaderValue::to_str`: the bytes of the text, where all of them are visible ASCII. -/
def headerToStr (value : List UInt8) : Option (List UInt8) :=
  if value.all isVisibleAscii then some value else none

/-- `str::as_bytes`. -/
def asBytes (s : String) : List UInt8 := s.toByteArray.data.toList

/-- What the handlers know of the configuration. -/
structure AppState where
  adminApiKey : Option String

def adminHeaderName : String := "x-admin-key"

/-- Compares all bytes, wherever the first difference is. -/
def constantTimeEq (a b : List UInt8) : Bool :=
  if a.length ≠ b.length then false
  else (a.zip b).foldl (fun acc xy => acc ||| (xy.1 ^^^ xy.2)) 0 = 0

def unauthorized : Response := ⟨401, .error "missing or invalid X-Admin-Key header"⟩

/-- The answer to a request that may not write, if it may not. -/
def guard (state : AppState) (headers : HeaderMap) : Option Response :=
  match state.adminApiKey with
  | none => none
  | some expected =>
    let provided := (headers.get adminHeaderName).bind headerToStr
    if provided.any fun p => constantTimeEq p (asBytes expected) then none
    else some unauthorized

theorem guard_cases (state : AppState) (headers : HeaderMap) :
    guard state headers = none ∨ guard state headers = some unauthorized := by
  unfold guard
  split
  · exact .inl rfl
  · dsimp only
    split_ifs
    · exact .inl rfl
    · exact .inr rfl

/-- A handler behind the guard. -/
def guarded (state : AppState) (headers : HeaderMap) (handler : Proc Store Error Response) :
    Proc Store Error Response :=
  match guard state headers with
  | some resp => pure resp
  | none => handler

variable {state : AppState} {headers : HeaderMap} {handler : Proc Store Error Response}

theorem guarded_of_none (h : guard state headers = none) :
    guarded state headers handler = handler := by
  rw [guarded, h]

theorem guarded_of_unauthorized (h : guard state headers = some unauthorized) :
    guarded state headers handler = pure unauthorized := by
  rw [guarded, h]

/-- An answer other than that of the guard comes from the handler. -/
theorem guarded_ret {s s' : Store} {resp : Response}
    (h : guarded state headers handler s = (.ret resp, s')) (hresp : resp ≠ unauthorized) :
    handler s = (.ret resp, s') := by
  rcases guard_cases state headers with hg | hg
  · rwa [guarded_of_none hg] at h
  · rw [guarded_of_unauthorized hg, Proc.pure_apply] at h
    simp only [Prod.mk.injEq, Outcome.ret.injEq] at h
    exact absurd h.1.symm hresp

end Lumina
