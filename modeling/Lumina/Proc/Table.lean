import Lumina.Proc.Batch
import Mathlib.Data.List.Forall2

/-!
# What a batch adds to a table

Each record of a batch adds rows to a table of the store.  The transaction of the batch then adds
the rows of all of its records, in their order, or it leaves the store as it was: what the
statements and the process do, it does not add the rows of some (`transaction_collectAll`).

## Main definitions

* `Tx.Adds` : a record that goes on adds these rows.
-/

namespace Lumina

namespace Tx

variable {σ ε α β : Type} {table : σ → List β} {l : List (Proc (Tx σ) ε (Option α))}
  {rows : List (List β)} {found found' : List α} {s : σ} {t : Tx σ}

/-- By itself the record adds these rows, unless a statement of it fails or the process ends. -/
def Adds (table : σ → List β) (m : Proc (Tx σ) ε (Option α)) (rows : List β) : Prop :=
  ¬ Breaks m → ∀ r : σ × List α, ¬ m.CutOff ⟨r.1, false⟩ →
    table (isolated r m).1 = table r.1 ++ rows

/-- A batch that goes through and breaks nothing adds the rows of its records. -/
theorem collectAll_adds (hl : ∀ m ∈ l, Record m) (hb : ∀ m ∈ l, ¬ Breaks m)
    (hadds : List.Forall₂ (Adds table) l rows)
    (h : collectAll l found ⟨s, false⟩ = (.ret found', t)) :
    table t.view = table s ++ rows.flatten := by
  induction hadds generalizing s found with
  | nil =>
    obtain ⟨rfl, rfl⟩ : found = found' ∧ (⟨s, false⟩ : Tx σ) = t := by simpa [collectAll] using h
    exact (List.append_nil _).symm
  | @cons m out l rows hm _ ih =>
    obtain ⟨hrecord, hrecords⟩ := List.forall_mem_cons.1 hl
    obtain ⟨hbreak, hbreaks⟩ := List.forall_mem_cons.1 hb
    have hcut : ¬ m.CutOff ⟨s, false⟩ := @not_cutOff_of_collectAll _ _ _ _ [] l s _ _ _ hl hb h
    obtain ⟨hbreak', -⟩ | ⟨-, s₁, found₁, hiso, hrest⟩ := collectAll_round hrecord hrecords h
    · exact absurd hbreak' hbreak
    · have hhead := hm hbreak (s, found) hcut
      rw [hiso] at hhead
      have htail := ih hrecords hbreaks hrest
      dsimp only at hhead
      rw [htail, hhead, List.flatten_cons, List.append_assoc]

/-- **A batch in a transaction is all or nothing.**  It leaves the store as it was, or it adds the
rows of all of its records, to every table. -/
theorem transaction_collectAll (start commit : Fault) (e : ε) (hl : ∀ m ∈ l, Record m) (s : σ) :
    (transaction start commit e (collectAll l []) s).2 = s ∨
      ∀ {β : Type} (table : σ → List β) (rows : List (List β)), List.Forall₂ (Adds table) l rows →
        table (transaction start commit e (collectAll l []) s).2 = table s ++ rows.flatten := by
  rcases transaction_cases start commit e (collectAll l []) s with
    ⟨found, t, -, -, hbody, ht⟩ | ⟨-, hs⟩
  · rcases collectAll_ret hl hbody with ⟨-, ha⟩ | ⟨hb, htx, -⟩
    · -- a statement failed, so the commit rolls back
      rw [ht, if_pos ha]
      exact .inl rfl
    · refine .inr fun table rows hadds => ?_
      have hrows := collectAll_adds hl hb hadds hbody
      rw [ht, if_neg (by rw [htx]; exact Bool.false_ne_true)]
      exact hrows
  · exact .inl hs

end Tx

end Lumina
