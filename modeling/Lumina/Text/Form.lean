import Lumina.Text.Cut
import Lumina.Text.Percent

/-!
# Form fields

The fields of a query are written one after the other with `&` between them, each as `key=value`
with its escapes.  Reading them gives the fields back (`pairs_fields`), where the values may be any
texts: a separator in a value is escaped.

## Main definitions

* `fields` : the text of some fields, `pairs` : the fields of a text.
-/

namespace Lumina

namespace Form

open Percent Text

/-- The text that stands for a part of a field; a blank may be written as `+`. -/
def readPart (text : List UInt8 → String) (s : List Char) : String :=
  text (decode (s.map fun c => if c = '+' then ' ' else c))

/-- One field; without `=` it has no value. -/
def readPair (text : List UInt8 → String) (s : List Char) : String × String :=
  match cut '=' s with
  | some (key, value) => (readPart text key, readPart text value)
  | none => (readPart text s, readPart text [])

/-- The fields of a text; `text` reads bytes. -/
def pairs (text : List UInt8 → String) (s : List Char) : List (String × String) :=
  ((s.splitOn '&').filter fun field => field ≠ []).map (readPair text)

/-- The text of some fields. -/
def fields (l : List (List Char × List Char)) : List Char :=
  List.intercalate ['&'] (l.map fun p => p.1 ++ '=' :: p.2)

/-- What may be kept in a field. -/
structure Keeps (keep : Char → Bool) : Prop extends Percent.Keeps keep where
  plus : keep '+' = false
  and : keep '&' = false
  equals : keep '=' = false

variable {keep : Char → Bool} {text : List UInt8 → String} {s : List Char}
  {l : List (List Char × List Char)}

/-- A text is read back. -/
theorem readPart_encode (hkeep : Keeps keep) (htext : ∀ s, text (utf8 s) = s) (s : String) :
    readPart text (encode keep (utf8 s)) = s := by
  have hplus : ∀ c ∈ encode keep (utf8 s), (if c = '+' then ' ' else c) = c := by
    intro c hc
    refine if_neg ?_
    rintro rfl
    exact not_mem_encode hkeep.plus (by decide) (by decide) _ hc
  rw [readPart, List.map_congr_left hplus, List.map_id', decode_encode hkeep.toKeeps, htext]

/-- A field is cut where its key ends. -/
theorem readPair_append (h : '=' ∉ s) (v : List Char) :
    readPair text (s ++ '=' :: v) = (readPart text s, readPart text v) := by
  rw [readPair, cut_append h]

/-- **The fields are read back.** -/
theorem pairs_fields (h : ∀ p ∈ l, '=' ∉ p.1 ∧ '&' ∉ p.1 ∧ '&' ∉ p.2) :
    pairs text (fields l) = l.map fun p => (readPart text p.1, readPart text p.2) := by
  have hsplit : ((fields l).splitOn '&').filter (fun field => field ≠ []) =
      l.map fun p => p.1 ++ '=' :: p.2 := by
    rcases eq_or_ne l [] with rfl | hne
    · decide
    · rw [fields, List.splitOn_intercalate '&' ?_ (by simpa using hne)]
      · rw [List.filter_eq_self]
        intro field hfield
        obtain ⟨p, -, rfl⟩ := List.mem_map.1 hfield
        simp
      · intro field hfield
        obtain ⟨p, hp, rfl⟩ := List.mem_map.1 hfield
        obtain ⟨-, hkey, hvalue⟩ := h p hp
        simp [hkey, hvalue]
  rw [pairs, hsplit, List.map_map]
  exact List.map_congr_left fun p hp => readPair_append (h p hp).1 _

/-! ### Escaping one more character -/

variable {b : UInt8}

theorem escapeAlso_append (s s' : List Char) :
    escapeAlso b (s ++ s') = escapeAlso b s ++ escapeAlso b s' := List.flatMap_append

theorem escapeAlso_cons {c : Char} (hc : c ≠ Char.ofUInt8 b) (s : List Char) :
    escapeAlso b (c :: s) = c :: escapeAlso b s := by
  rw [escapeAlso, List.flatMap_cons, if_neg hc]
  rfl

/-- Fields whose separators are not escaped are escaped one by one. -/
theorem escapeAlso_fields (hand : '&' ≠ Char.ofUInt8 b) (hequals : '=' ≠ Char.ofUInt8 b)
    (l : List (List Char × List Char)) :
    escapeAlso b (fields l) = fields (l.map fun p => (escapeAlso b p.1, escapeAlso b p.2)) := by
  have hfield : ∀ p : List Char × List Char, escapeAlso b (p.1 ++ '=' :: p.2) =
      escapeAlso b p.1 ++ '=' :: escapeAlso b p.2 := by
    intro p
    rw [escapeAlso_append, escapeAlso_cons hequals]
  unfold fields
  induction l with
  | nil => rfl
  | cons p l ih =>
    cases l with
    | nil => simpa using hfield p
    | cons p' l =>
      simp only [List.map_cons, List.intercalate_cons_cons] at ih ⊢
      rw [escapeAlso_append, escapeAlso_append, escapeAlso_cons hand, hfield, ih]
      rfl

end Form

end Lumina
