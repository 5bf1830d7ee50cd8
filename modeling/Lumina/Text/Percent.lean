import Mathlib.Data.List.Basic
import Mathlib.Data.Nat.Notation
import Mathlib.Tactic.IntervalCases

/-!
# Percent-encoding

A text is written in the characters that an address may have: a byte of it that is not such a
character is written as `%` and two digits.  Reading the escapes gives the bytes back, whatever the
text and whatever characters are kept (`decode_encode`), and a separator that is not kept does not
occur in what is written (`not_mem_encode`).

## Main definitions

* `encode`, `decode` : writing and reading bytes.
* `escapeAlso` : a second writer that escapes one more character.
* `utf8`, `ofUtf8?` : the bytes of a text, and the text of some bytes.
-/

namespace Lumina

namespace Percent

/-! ### Digits -/

/-- The digit of a number below 16. -/
def hexDigit (n : ℕ) : Char :=
  if n < 10 then Char.ofNat ('0'.toNat + n) else Char.ofNat ('A'.toNat + (n - 10))

/-- The number that a digit stands for. -/
def hexValue (c : Char) : Option ℕ :=
  if '0' ≤ c ∧ c ≤ '9' then some (c.toNat - '0'.toNat)
  else if 'A' ≤ c ∧ c ≤ 'F' then some (c.toNat - 'A'.toNat + 10)
  else if 'a' ≤ c ∧ c ≤ 'f' then some (c.toNat - 'a'.toNat + 10)
  else none

theorem hexValue_hexDigit {n : ℕ} (h : n < 16) : hexValue (hexDigit n) = some n := by
  interval_cases n <;> decide

/-! ### Writing and reading -/

/-- The escape of a byte. -/
def escape (b : UInt8) : List Char := ['%', hexDigit (b.toNat / 16), hexDigit (b.toNat % 16)]

/-- A byte is written as the character that it is, where this one is kept, or escaped. -/
def encodeByte (keep : Char → Bool) (b : UInt8) : List Char :=
  if keep (Char.ofUInt8 b) then [Char.ofUInt8 b] else escape b

def encode (keep : Char → Bool) (bytes : List UInt8) : List Char := bytes.flatMap (encodeByte keep)

/-- The byte that two digits stand for. -/
def hexByte (h l : Char) : Option UInt8 := do
  let a ← hexValue h
  let b ← hexValue l
  return UInt8.ofNat (16 * a + b)

/-- The bytes of a text with its escapes; a `%` that begins none stands for itself. -/
def decode : List Char → List UInt8
  | [] => []
  | c :: s =>
    if c = '%' then
      match s with
      | h :: l :: rest =>
        match hexByte h l with
        | some b => b :: decode rest
        | none => String.utf8EncodeChar c ++ decode (h :: l :: rest)
      | [h] => String.utf8EncodeChar c ++ decode [h]
      | [] => String.utf8EncodeChar c
    else String.utf8EncodeChar c ++ decode s

/-- Characters that may be kept: they are bytes by themselves, and begin no escape. -/
structure Keeps (keep : Char → Bool) : Prop where
  ascii : ∀ c, keep c = true → c.toNat < 128
  percent : keep '%' = false

variable {keep : Char → Bool} {bytes : List UInt8} {b : UInt8} {c : Char} {s : List Char}

theorem decode_escape (b : UInt8) (s : List Char) : decode (escape b ++ s) = b :: decode s := by
  have hb := b.toNat_lt
  have hbyte : hexByte (hexDigit (b.toNat / 16)) (hexDigit (b.toNat % 16)) = some b := by
    unfold hexByte
    rw [hexValue_hexDigit (by omega), hexValue_hexDigit (by omega)]
    show some (UInt8.ofNat (16 * (b.toNat / 16) + b.toNat % 16)) = some b
    rw [Nat.div_add_mod, UInt8.ofNat_toNat]
  show decode ('%' :: _ :: _ :: s) = _
  rw [decode, if_pos rfl, hbyte]

theorem utf8EncodeChar_of_lt (hc : c.toNat < 128) :
    String.utf8EncodeChar c = [UInt8.ofNat c.toNat] := by
  have hle : c.val.toNat ≤ 127 := Nat.le_of_lt_succ hc
  unfold String.utf8EncodeChar
  rw [if_pos hle]
  rfl

theorem decode_cons_of_ne (hc : c.toNat < 128) (hpercent : c ≠ '%') (s : List Char) :
    decode (c :: s) = UInt8.ofNat c.toNat :: decode s := by
  rw [decode.eq_def]
  show (if c = '%' then _ else String.utf8EncodeChar c ++ decode s) = _
  rw [if_neg hpercent, utf8EncodeChar_of_lt hc]
  rfl

theorem toNat_ofUInt8 (b : UInt8) : (Char.ofUInt8 b).toNat = b.toNat := rfl

/-- **One byte is read back**, whatever comes after it. -/
theorem decode_encodeByte (hkeep : Keeps keep) (b : UInt8) (s : List Char) :
    decode (encodeByte keep b ++ s) = b :: decode s := by
  unfold encodeByte
  split_ifs with hb
  · have hne : Char.ofUInt8 b ≠ '%' := by
      intro heq
      rw [heq, hkeep.percent] at hb
      exact Bool.false_ne_true hb
    rw [List.singleton_append, decode_cons_of_ne (hkeep.ascii _ hb) hne, toNat_ofUInt8,
      UInt8.ofNat_toNat]
  · exact decode_escape b s

/-- **What was written is read back**, whatever the bytes are and whatever comes after them. -/
theorem decode_encode_append (hkeep : Keeps keep) (bytes : List UInt8) (s : List Char) :
    decode (encode keep bytes ++ s) = bytes ++ decode s := by
  induction bytes with
  | nil => rfl
  | cons b bytes ih =>
    rw [encode, List.flatMap_cons, List.append_assoc, decode_encodeByte hkeep]
    exact congrArg _ ih

theorem decode_encode (hkeep : Keeps keep) (bytes : List UInt8) :
    decode (encode keep bytes) = bytes := by
  have h := decode_encode_append hkeep bytes []
  rwa [List.append_nil, show decode [] = [] from rfl, List.append_nil] at h

/-! ### What is written -/

theorem mem_escape (h : c ∈ escape b) : c = '%' ∨ (hexValue c).isSome := by
  have hb := b.toNat_lt
  unfold escape at h
  rcases List.mem_cons.1 h with rfl | h
  · exact .inl rfl
  · refine .inr ?_
    rcases List.mem_pair.1 h with rfl | rfl
    · rw [hexValue_hexDigit (by omega)]
      rfl
    · rw [hexValue_hexDigit (by omega)]
      rfl

/-- A character that is not kept, and that escapes do not need, is not written. -/
theorem not_mem_encode (hc : keep c = false) (hpercent : c ≠ '%') (hhex : hexValue c = none)
    (bytes : List UInt8) : c ∉ encode keep bytes := by
  intro h
  obtain ⟨b, -, hmem⟩ := List.mem_flatMap.1 h
  unfold encodeByte at hmem
  split_ifs at hmem with hb
  · rw [← List.mem_singleton.1 hmem, hc] at hb
    exact Bool.false_ne_true hb
  · rcases mem_escape hmem with heq | hsome
    · exact hpercent heq
    · rw [hhex] at hsome
      exact Bool.false_ne_true hsome

/-- A second writer, which escapes one more character. -/
def escapeAlso (b : UInt8) (s : List Char) : List Char :=
  s.flatMap fun c => if c = Char.ofUInt8 b then escape b else [c]

/-- The second writer writes what the first would have written without that character. -/
theorem escapeAlso_encode (hpercent : Char.ofUInt8 b ≠ '%')
    (hhex : hexValue (Char.ofUInt8 b) = none) (bytes : List UInt8) :
    escapeAlso b (encode keep bytes) =
      encode (fun c => keep c && c ≠ Char.ofUInt8 b) bytes := by
  have hescape : ∀ a : UInt8, escapeAlso b (escape a) = escape a := by
    intro a
    have hid : ∀ c ∈ escape a, (if c = Char.ofUInt8 b then escape b else [c]) = [c] := by
      intro c hc
      refine if_neg fun heq => ?_
      subst heq
      rcases mem_escape hc with heq | hsome
      · exact hpercent heq
      · rw [hhex] at hsome
        exact Bool.false_ne_true hsome
    rw [escapeAlso, List.flatMap_congr hid]
    exact List.flatMap_singleton' _
  unfold encode
  rw [escapeAlso, List.flatMap_assoc]
  refine List.flatMap_congr fun a _ => ?_
  unfold encodeByte
  by_cases hkept : keep (Char.ofUInt8 a) = true
  · rw [if_pos hkept]
    by_cases heq : Char.ofUInt8 a = Char.ofUInt8 b
    · obtain rfl : a = b := UInt8.toNat_inj.1 (congrArg Char.toNat heq)
      simp
    · simp [hkept, heq]
  · rw [if_neg hkept, if_neg (by simp [hkept])]
    exact hescape a

/-! ### Texts -/

/-- The bytes of a text. -/
def utf8 (s : String) : List UInt8 := s.toByteArray.data.toList

/-- The text of some bytes, if they are one. -/
def ofUtf8? (bytes : List UInt8) : Option String := String.fromUTF8? ⟨bytes.toArray⟩

theorem utf8_ofList (s : List Char) :
    utf8 (String.ofList s) = s.flatMap String.utf8EncodeChar := by
  show (s.flatMap String.utf8EncodeChar).toByteArray.data.toList = _
  rw [List.data_toByteArray, List.toList_toArray]

theorem ofUInt8_ofNat (hc : c.toNat < 128) : Char.ofUInt8 (UInt8.ofNat c.toNat) = c := by
  refine Char.toNat_inj.1 ?_
  rw [toNat_ofUInt8, UInt8.toNat_ofNat', Nat.mod_eq_of_lt (by omega)]

/-- A text of characters that are kept is written as it is. -/
theorem encode_of_kept (hkeep : Keeps keep) (h : ∀ c ∈ s, keep c = true) :
    encode keep (utf8 (String.ofList s)) = s := by
  rw [utf8_ofList]
  induction s with
  | nil => rfl
  | cons c s ih =>
    obtain ⟨hc, hs⟩ := List.forall_mem_cons.1 h
    have hlt := hkeep.ascii c hc
    have hhead : encodeByte keep (UInt8.ofNat c.toNat) = [c] := by
      rw [encodeByte, ofUInt8_ofNat hlt, if_pos hc]
    have htail : encode keep (s.flatMap String.utf8EncodeChar) = s := ih hs
    rw [List.flatMap_cons, utf8EncodeChar_of_lt hlt, encode, List.flatMap_append, ← encode,
      ← encode, htail]
    show encodeByte keep _ ++ [] ++ s = _
    rw [hhead]
    rfl

theorem ofUtf8?_utf8 (s : String) : ofUtf8? (utf8 s) = some s := by
  unfold ofUtf8? utf8 String.fromUTF8?
  rw [Array.toArray_toList, dif_pos s.isValidUTF8]
  rfl

end Percent

end Lumina
