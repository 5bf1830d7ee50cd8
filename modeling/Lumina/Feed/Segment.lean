import Mathlib.Data.List.TakeDrop

/-!
# Segments of a log

A log is a list that only grows at its end, and a reader's position in it is the number of
entries it has passed.  A reader that goes on from one position to the next has read the
segment between them.

## Main definitions

* `segment log a b` : the entries from position `a` up to position `b`.
-/

namespace Lumina

variable {α : Type*} {log : List α} {a b c : ℕ}

/-- The entries of a log from position `a` up to position `b`. -/
def segment (log : List α) (a b : ℕ) : List α := (log.take b).drop a

@[simp] theorem segment_self : segment log a a = [] := by simp [segment]

/-- Reading on: two segments in a row are one. -/
theorem segment_append (hab : a ≤ b) (hbc : b ≤ c) :
    segment log a b ++ segment log b c = segment log a c := by
  have htake : (log.take c).take b = log.take b := by rw [List.take_take, Nat.min_eq_left hbc]
  have hdrop : (log.take b).drop a ++ (log.take c).drop b = (log.take c).drop a := by
    calc (log.take b).drop a ++ (log.take c).drop b
        = ((log.take c).drop a).take (b - a) ++ ((log.take c).drop a).drop (b - a) := by
          rw [← htake, List.drop_take, List.drop_drop, Nat.add_sub_cancel' hab]
      _ = (log.take c).drop a := List.take_append_drop _ _
  exact hdrop

/-- What a page of `n` entries after position `a` holds. -/
theorem take_drop_eq_segment (n : ℕ) : (log.drop a).take n = segment log a (a + n) := by
  rw [segment, List.drop_take, Nat.add_sub_cancel_left]

/-- The first part of a longer segment. -/
theorem segment_take (hbc : b ≤ c) :
    (segment log a c).take (b - a) = segment log a b := by
  rw [segment, segment, ← List.drop_take, List.take_take, Nat.min_eq_left]
  omega

end Lumina
