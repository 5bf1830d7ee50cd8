import Lumina.Model.Queries
import Lumina.Sql.Like

/-!
# Search terms are literal

The pattern of a search is its term between two wildcards, after three replacements that put an
escape character before the special ones.  The escape character is replaced first, so that the
replacements together escape every special character once (`replace_special_eq`), and the pattern
matches the texts in which the term occurs (`search_literal`).
-/

namespace Lumina

/-- The wildcards of `LIKE … ESCAPE '\'`. -/
def sqlWildcards : Like.Wildcards Char where
  any := '%'
  one := '_'
  escape := '\\'
  any_ne_escape := by decide
  one_ne_escape := by decide

/-- **The three replacements are one escape of every character.** -/
theorem replace_special_eq (s : List Char) :
    replaceChar '_' ['\\', '_']
        (replaceChar '%' ['\\', '%'] (replaceChar '\\' ['\\', '\\'] s)) =
      Like.escape sqlWildcards s := by
  unfold replaceChar Like.escape
  rw [List.flatMap_assoc, List.flatMap_assoc]
  congr 1
  funext c
  -- the character that a replacement puts in is not replaced again
  by_cases hescape : c = '\\'
  · subst hescape
    decide
  · by_cases hany : c = '%'
    · subst hany
      decide
    · by_cases hone : c = '_'
      · subst hone
        decide
      · simp [sqlWildcards, hescape, hany, hone]

/-- **A search term is matched literally**: its pattern is one, and it matches exactly the texts in
which the trimmed term occurs, up to the folding of case. -/
theorem search_literal {β : Type} [DecidableEq β] (fold : Char → β) {raw p : String}
    (h : searchLikePattern raw = some p) (s : String) :
    ∃ found, Like.like sqlWildcards fold s.toList p.toList = some found ∧
      (found = true ↔ (trim raw.toList).map fold <:+: s.toList.map fold) := by
  unfold searchLikePattern at h
  dsimp only at h
  split_ifs at h with hshort
  rw [replace_special_eq] at h
  rw [← Option.some.inj h, String.toList_ofList]
  exact Like.like_contains sqlWildcards fold (trim raw.toList) s.toList

/-- The term ` 50%_off`, with both wildcards, finds a text with that term, and it does not find one
with other characters in their place. -/
theorem search_fifty_percent_off :
    ∃ p, searchLikePattern " 50%_off" = some p ∧ p = "%50\\%\\_off%" ∧
      Like.like sqlWildcards Char.toLower "Save 50%_OFF now".toList p.toList = some true ∧
      Like.like sqlWildcards Char.toLower "Save 50 % off now".toList p.toList = some false := by
  have hpattern : searchLikePattern " 50%_off" = some "%50\\%\\_off%" := by decide +kernel
  obtain ⟨found, hfound, hiff⟩ := search_literal Char.toLower hpattern "Save 50%_OFF now"
  obtain ⟨found', hfound', hiff'⟩ := search_literal Char.toLower hpattern "Save 50 % off now"
  refine ⟨_, hpattern, rfl, ?_, ?_⟩
  · rw [hfound, hiff.2 (by decide +kernel)]
  · rw [hfound', Option.some_inj, ← Bool.not_eq_true, hiff']
    decide +kernel

end Lumina
