import Mathlib.Data.List.Forall2
import Mathlib.Data.List.Infix

/-!
# The patterns of `LIKE`

A pattern is a text in which one character stands for any text, one for any character, and one
takes the character after it literally.  A pattern that ends in the escape character is no pattern
(`parse` has no tokens for it).  A text in which every special character is escaped is a pattern of
literal characters (`parse_escape_append`), and between two wildcards for any text it matches the
texts in which it occurs (`matches_contains_iff`).  How a literal character is compared is a
parameter, since some comparisons fold case.

## Main definitions

* `Wildcards α` : the three special characters.
* `parse` : the tokens of a pattern.
* `Matches` : whether a text matches.
* `escape` : a text with its special characters escaped.
* `like` : whether a text matches a pattern, with a folding of both.
-/

namespace Lumina

namespace Like

variable {α β : Type*}

/-- The special characters of a pattern. -/
structure Wildcards (α : Type*) where
  /-- Stands for any text. -/
  any : α
  /-- Stands for any character. -/
  one : α
  escape : α
  any_ne_escape : any ≠ escape
  one_ne_escape : one ≠ escape

/-- A token of a pattern. -/
inductive Token (α : Type*) where
  | any
  | one
  | lit (c : α)
  deriving DecidableEq

section Parse

variable [DecidableEq α] (S : Wildcards α)

/-- The tokens of what follows an escape character, or of a pattern; none where it ends in the
escape character. -/
def parseFrom : Bool → List α → Option (List (Token α))
  | true, [] => none
  | true, c :: p => (parseFrom false p).map (.lit c :: ·)
  | false, [] => some []
  | false, c :: p =>
    if c = S.escape then parseFrom true p
    else (parseFrom false p).map
      ((if c = S.any then .any else if c = S.one then .one else .lit c) :: ·)

/-- The tokens of a pattern. -/
def parse (p : List α) : Option (List (Token α)) := parseFrom S false p

/-- A text with its special characters escaped. -/
def escape (s : List α) : List α :=
  s.flatMap fun c => if c = S.escape ∨ c = S.any ∨ c = S.one then [S.escape, c] else [c]

@[simp] theorem parse_any (p : List α) : parse S (S.any :: p) = (parse S p).map (.any :: ·) := by
  simp [parse, parseFrom, S.any_ne_escape]

/-- An escaped text is read as its characters. -/
theorem parse_escape_append (s p : List α) :
    parse S (escape S s ++ p) = (parse S p).map (s.map .lit ++ ·) := by
  induction s with
  | nil => simp [escape]
  | cons c s ih =>
    have hcons : escape S (c :: s) ++ p =
        (if c = S.escape ∨ c = S.any ∨ c = S.one then [S.escape, c] else [c]) ++
          (escape S s ++ p) := by
      simp [escape]
    rw [hcons]
    split_ifs with hspecial
    · rw [List.cons_append, List.cons_append, List.nil_append, parse, parseFrom, if_pos rfl,
        parseFrom, ← parse, ih, Option.map_map]
      rfl
    · obtain ⟨hescape, hany, hone⟩ : c ≠ S.escape ∧ c ≠ S.any ∧ c ≠ S.one := by
        simpa only [not_or] using hspecial
      rw [List.cons_append, List.nil_append, parse, parseFrom, if_neg hescape, if_neg hany,
        if_neg hone, ← parse, ih, Option.map_map]
      rfl

end Parse

section Matches

variable {r : α → β → Bool}

/-- Whether a text matches the tokens, where `r` compares a literal character with one of the
text. -/
def Matches (r : α → β → Bool) : List (Token α) → List β → Bool
  | [], s => s.isEmpty
  | .any :: p, s => s.tails.any (Matches r p)
  | .one :: _, [] => false
  | .one :: p, _ :: s => Matches r p s
  | .lit _ :: _, [] => false
  | .lit c :: p, d :: s => r c d && Matches r p s

theorem matches_any_iff {p : List (Token α)} {s : List β} :
    Matches r (.any :: p) s = true ↔ ∃ before after, s = before ++ after ∧ Matches r p after := by
  simp only [Matches, List.any_eq_true, List.mem_tails]
  constructor
  · rintro ⟨after, ⟨before, rfl⟩, h⟩
    exact ⟨before, after, rfl, h⟩
  · rintro ⟨before, after, rfl, h⟩
    exact ⟨after, ⟨before, rfl⟩, h⟩

/-- Literal characters match a text that begins with them. -/
theorem matches_lits_iff {l : List α} {p : List (Token α)} {s : List β} :
    Matches r (l.map .lit ++ p) s = true ↔
      ∃ same after, s = same ++ after ∧ List.Forall₂ (fun c d => r c d = true) l same ∧
        Matches r p after := by
  induction l generalizing s with
  | nil => simp
  | cons c l ih =>
    cases s with
    | nil => simp [Matches]
    | cons d s =>
      rw [List.map_cons, List.cons_append, Matches, Bool.and_eq_true, ih]
      constructor
      · rintro ⟨hd, same, after, rfl, hsame, hp⟩
        exact ⟨d :: same, after, rfl, .cons hd hsame, hp⟩
      · rintro ⟨same, after, hs, hsame, hp⟩
        obtain ⟨e, tail, hd, htail, rfl⟩ := List.forall₂_cons_left_iff.1 hsame
        obtain ⟨rfl, rfl⟩ := List.cons.inj hs
        exact ⟨hd, tail, after, rfl, htail, hp⟩

/-- Literal characters between two wildcards for any text match a text in which they occur. -/
theorem matches_contains_iff {l : List α} {s : List β} :
    Matches r (.any :: (l.map .lit ++ [.any])) s = true ↔
      ∃ before same after, s = before ++ same ++ after ∧
        List.Forall₂ (fun c d => r c d = true) l same := by
  have hany : ∀ t : List β, Matches r [.any] t = true := fun t =>
    matches_any_iff.2 ⟨t, [], by simp, rfl⟩
  rw [matches_any_iff]
  constructor
  · rintro ⟨before, rest, rfl, h⟩
    obtain ⟨same, after, rfl, hsame, -⟩ := matches_lits_iff.1 h
    exact ⟨before, same, after, by simp, hsame⟩
  · rintro ⟨before, same, after, rfl, hsame⟩
    exact ⟨before, same ++ after, by simp, matches_lits_iff.2 ⟨same, after, rfl, hsame, hany _⟩⟩

end Matches

/-- Whether a text matches a pattern, with the same folding of both; none where it is no
pattern. -/
def like [DecidableEq α] [DecidableEq β] (S : Wildcards α) (fold : α → β) (text pattern : List α) :
    Option Bool :=
  (parse S pattern).map fun tokens => Matches (fun c d => fold c = fold d) tokens text

/-- **A search for an escaped text finds the texts in which it occurs**, up to the folding. -/
theorem like_contains [DecidableEq α] [DecidableEq β] (S : Wildcards α) (fold : α → β)
    (l text : List α) :
    ∃ found, like S fold text ([S.any] ++ escape S l ++ [S.any]) = some found ∧
      (found = true ↔ l.map fold <:+: text.map fold) := by
  have hparse : parse S ([S.any] ++ escape S l ++ [S.any]) =
      some (.any :: (l.map .lit ++ [.any])) := by
    rw [List.append_assoc, List.cons_append, List.nil_append, parse_any, parse_escape_append,
      parse_any]
    simp [parse, parseFrom]
  refine ⟨_, by rw [like, hparse, Option.map_some], ?_⟩
  rw [matches_contains_iff]
  constructor
  · rintro ⟨before, same, after, rfl, hsame⟩
    have heq : l.map fold = same.map fold := by
      rw [← List.forall₂_eq_eq_eq]
      rw [List.forall₂_map_left_iff, List.forall₂_map_right_iff]
      exact hsame.imp fun c d h => of_decide_eq_true h
    exact ⟨before.map fold, after.map fold, by rw [heq, List.map_append, List.map_append]⟩
  · rintro ⟨before, after, h⟩
    obtain ⟨rest, last, rfl, h', hlast⟩ := List.map_eq_append_iff.1 h.symm
    obtain ⟨first, same, rfl, hfirst, hsame⟩ := List.map_eq_append_iff.1 h'
    refine ⟨first, same, last, rfl, ?_⟩
    have heq : List.Forall₂ (· = ·) (l.map fold) (same.map fold) := by
      rw [List.forall₂_eq_eq_eq, hsame]
    rw [List.forall₂_map_left_iff, List.forall₂_map_right_iff] at heq
    exact heq.imp fun c d h => decide_eq_true h

end Like

end Lumina
