import Lumina.Proc.Basic

/-!
# Transactions

A transaction runs its statements on a private view of the store and publishes the view when it
commits.  A statement that fails *aborts* its transaction: every later statement of it fails
too, and committing it rolls it back while the commit itself reports success.  A transaction
whose body returns an error, stops or panics is dropped, which rolls it back as well.

## Main definitions

* `Tx σ` : the state of an open transaction, `Tx.statement` : one statement of it.
* `transaction` : begin, run a body, commit.
-/

namespace Lumina

/-- An open transaction: what its own statements see, and whether one of them has failed. -/
structure Tx (σ : Type) where
  /-- The store as the transaction sees it. -/
  view : σ
  /-- A statement has failed. -/
  aborted : Bool

variable {σ ε α β : Type}

/-- One statement with effect `act`. -/
def Tx.statement (f : Fault) (e : ε) (act : σ → α × σ) : Proc (Tx σ) ε α := fun t =>
  match f with
  | .ok =>
    -- after a failed statement every later one fails
    if t.aborted then (.err e, t)
    else (.ret (act t.view).1, { t with view := (act t.view).2 })
  | .fail => (.err e, { t with aborted := true })
  | .stop => (.stop, t)

/-- Begin a transaction, run `body` in it and commit. -/
def transaction (start commit : Fault) (e : ε) (body : Proc (Tx σ) ε α) : Proc σ ε α := fun s =>
  match start with
  | .fail => (.err e, s)
  | .stop => (.stop, s)
  | .ok =>
    match body ⟨s, false⟩ with
    | (.ret a, t) =>
      match commit with
      -- the commit of an aborted transaction rolls back and reports success
      | .ok => (.ret a, if t.aborted then s else t.view)
      | .fail => (.err e, s)
      | .stop => (.stop, s)
    -- the transaction is dropped
    | (.err e', _) => (.err e', s)
    | (.stop, _) => (.stop, s)
    | (.panic, _) => (.panic, s)

namespace Tx

@[simp] theorem statement_ok (e : ε) (act : σ → α × σ) (s : σ) :
    statement .ok e act ⟨s, false⟩ = (.ret (act s).1, ⟨(act s).2, false⟩) := rfl

@[simp] theorem statement_ok_aborted (e : ε) (act : σ → α × σ) (s : σ) :
    statement .ok e act ⟨s, true⟩ = (.err e, ⟨s, true⟩) := rfl

@[simp] theorem statement_fail (e : ε) (act : σ → α × σ) (t : Tx σ) :
    statement .fail e act t = (.err e, ⟨t.view, true⟩) := rfl

@[simp] theorem statement_stop (e : ε) (act : σ → α × σ) (t : Tx σ) :
    statement .stop e act t = (.stop, t) := rfl

end Tx

/-- **Atomicity.**  A transaction that returns was committed, and its store is the view of its
body unless a statement failed; one that does not return leaves the store as it was. -/
theorem transaction_cases (start commit : Fault) (e : ε) (body : Proc (Tx σ) ε α) (s : σ) :
    (∃ a t, start = .ok ∧ commit = .ok ∧ body ⟨s, false⟩ = (.ret a, t) ∧
      transaction start commit e body s = (.ret a, if t.aborted then s else t.view)) ∨
    ((∀ a, (transaction start commit e body s).1 ≠ .ret a) ∧
      (transaction start commit e body s).2 = s) := by
  cases start with
  | fail => exact .inr ⟨fun a => nofun, rfl⟩
  | stop => exact .inr ⟨fun a => nofun, rfl⟩
  | ok =>
    rcases hb : body ⟨s, false⟩ with ⟨o, t⟩
    cases o with
    | ret a =>
      cases commit with
      | ok => exact .inl ⟨a, t, rfl, rfl, rfl, by simp [transaction, hb]⟩
      | fail => exact .inr (by simp [transaction, hb])
      | stop => exact .inr (by simp [transaction, hb])
    | err e' => exact .inr (by simp [transaction, hb])
    | stop => exact .inr (by simp [transaction, hb])
    | panic => exact .inr (by simp [transaction, hb])

/-! ### Moving the store along a relation -/

/-- The views of an open transaction are related. -/
def Tx.Via (R : σ → σ → Prop) (t t' : Tx σ) : Prop := R t.view t'.view

section Within

variable {R : σ → σ → Prop} [IsPreorder σ R]

instance : IsPreorder (Tx σ) (Tx.Via R) where
  refl t := refl t.view
  trans t t' t'' h h' := IsTrans.trans (r := R) t.view t'.view t''.view h h'

theorem Tx.within_statement {f : Fault} {e : ε} {act : σ → α × σ} (h : ∀ s, R s (act s).2) :
    Proc.Within (Tx.Via R) (Tx.statement f e act) := by
  rintro ⟨s, aborted⟩
  cases f with
  | ok =>
    cases aborted with
    | false => exact h s
    | true => exact refl s
  | fail => exact refl s
  | stop => exact refl s

/-- A transaction moves the store as its body moves the view. -/
theorem within_transaction {start commit : Fault} {e : ε} {body : Proc (Tx σ) ε α}
    (h : Proc.Within (Tx.Via R) body) : Proc.Within R (transaction start commit e body) := by
  intro s
  rcases transaction_cases start commit e body s with ⟨a, t, -, -, hb, ht⟩ | ⟨-, hs⟩
  · have hview := h ⟨s, false⟩
    rw [hb] at hview
    rw [ht]
    by_cases ha : t.aborted
    · rw [if_pos ha]
      exact refl s
    · rw [if_neg ha]
      exact hview
  · rw [hs]
    exact refl s

end Within

end Lumina
