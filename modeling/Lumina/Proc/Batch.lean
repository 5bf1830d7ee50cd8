import Lumina.Proc.Transaction
import Mathlib.Data.Nat.Notation

/-!
# Batches in one transaction

A batch processes its records one after the other in a single transaction, and skips a record
that returns an error.  Skipping affects only that record where its error came before any
statement: then the batch does what it would do with each record in a transaction of its own
(`collectAll_ret`).  After a failed statement the transaction is aborted, and everything goes.

## Main definitions

* `Tx.collect` : one round of a batch.
* `Tx.Record` : what a record may do, `Tx.Breaks` : one of its statements fails.
* `Tx.isolated` : one record in a transaction of its own.
-/

namespace Lumina

namespace Tx

variable {σ ε α : Type}

/-- Adds what one record finds; an error of the record is skipped. -/
def collect (found : List α) (m : Proc (Tx σ) ε (Option α)) : Proc (Tx σ) ε (List α) := do
  match ← m.attempt with
  | .ok (some a) => return found ++ [a]
  | .ok none => return found
  | .error _ => return found

/-- The batch. -/
def collectAll (l : List (Proc (Tx σ) ε (Option α))) (found : List α) :
    Proc (Tx σ) ε (List α) :=
  l.foldlM collect found

/-- A record fails before its first statement, or by one of its statements, or not at all. -/
structure Record (m : Proc (Tx σ) ε (Option α)) : Prop where
  /-- In an aborted transaction it does not go through and changes nothing. -/
  aborted : ∀ s, (m ⟨s, true⟩).2 = ⟨s, true⟩ ∧ ∀ a, (m ⟨s, true⟩).1 ≠ .ret a
  /-- Where it goes through, no statement has failed. -/
  returned : ∀ s a, (m ⟨s, false⟩).1 = .ret a → (m ⟨s, false⟩).2.aborted = false
  /-- Where it fails and no statement has failed, it has changed nothing. -/
  failed : ∀ s e, (m ⟨s, false⟩).1 = .err e → (m ⟨s, false⟩).2.aborted = false →
    (m ⟨s, false⟩).2 = ⟨s, false⟩
  /-- Whether a statement fails does not depend on the store. -/
  uniform : ∀ s s', (m ⟨s, false⟩).2.aborted = (m ⟨s', false⟩).2.aborted

/-- A statement of the record fails. -/
def Breaks (m : Proc (Tx σ) ε (Option α)) : Prop := ∀ s, (m ⟨s, false⟩).2.aborted = true

/-- By itself, the record goes through on the store `s`. -/
def Through (m : Proc (Tx σ) ε (Option α)) (s : σ) : Prop := ∃ a, (m ⟨s, false⟩).1 = .ret a

/-- One record in a transaction of its own, which is dropped where the record fails. -/
def isolated (r : σ × List α) (m : Proc (Tx σ) ε (Option α)) : σ × List α :=
  match m ⟨r.1, false⟩ with
  | (.ret a, t) => (t.view, r.2 ++ a.toList)
  | (.err _, _) => r
  | (.stop, _) => r
  | (.panic, _) => r

/-- All records, each in a transaction of its own. -/
def isolatedAll (l : List (Proc (Tx σ) ε (Option α))) (r : σ × List α) : σ × List α :=
  l.foldl isolated r

/-- A sequence of statements that read nothing: from every store it ends with the same outcome
`o`, and it is aborted exactly if it returns an error. -/
def Writes {β : Type} (m : Proc (Tx σ) ε β) : Prop :=
  ∃ o aborted, (∀ b, o = .ret b → aborted = false) ∧ (∀ e, o = .err e → aborted = true) ∧
    ∀ s, ∃ s', m ⟨s, false⟩ = (o, ⟨s', aborted⟩)

variable {m : Proc (Tx σ) ε (Option α)} {l l' : List (Proc (Tx σ) ε (Option α))} {s : σ}
  {found found' : List α} {t t' : Tx σ}

theorem collect_apply (found : List α) (m : Proc (Tx σ) ε (Option α)) (t : Tx σ) :
    collect found m t = match m t with
      | (.ret a, t') => (.ret (found ++ a.toList), t')
      | (.err _, t') => (.ret found, t')
      | (.stop, t') => (.stop, t')
      | (.panic, t') => (.panic, t') := by
  unfold collect
  rw [Proc.bind_apply, Proc.attempt_apply]
  generalize m t = r
  obtain ⟨o, t'⟩ := r
  cases o with
  | ret a => cases a <;> simp
  | err e => rfl
  | stop => rfl
  | panic => rfl

theorem collectAll_append (l l' : List (Proc (Tx σ) ε (Option α))) (found : List α) :
    collectAll (l ++ l') found = collectAll l found >>= fun found' => collectAll l' found' := by
  rw [collectAll, List.foldlM_append]
  rfl

/-- A batch that goes through has finished its first round. -/
theorem collectAll_cons (h : collectAll (m :: l) found t = (.ret found', t')) :
    (∃ t₁ a, m t = (.ret a, t₁) ∧ collectAll l (found ++ a.toList) t₁ = (.ret found', t')) ∨
      ∃ t₁ e, m t = (.err e, t₁) ∧ collectAll l found t₁ = (.ret found', t') := by
  rw [collectAll, List.foldlM_cons, Proc.bind_apply, collect_apply] at h
  generalize m t = r at h
  obtain ⟨o, t₁⟩ := r
  cases o with
  | ret a => exact .inl ⟨t₁, a, rfl, h⟩
  | err e => exact .inr ⟨t₁, e, rfl, h⟩
  | stop => simp at h
  | panic => simp at h

theorem Record.breaks (hm : Record m) (h : (m ⟨s, false⟩).2.aborted = true) : Breaks m :=
  fun s' => (hm.uniform s' s).trans h

/-- An aborted batch finds nothing more. -/
theorem collectAll_aborted (hl : ∀ m ∈ l, Record m)
    (h : collectAll l found ⟨s, true⟩ = (.ret found', t)) : found' = found ∧ t = ⟨s, true⟩ := by
  induction l with
  | nil =>
    obtain ⟨rfl, rfl⟩ : found = found' ∧ (⟨s, true⟩ : Tx σ) = t := by simpa [collectAll] using h
    exact ⟨rfl, rfl⟩
  | cons m l ih =>
    obtain ⟨hsame, hret⟩ := (hl m (by simp)).aborted s
    obtain ⟨_, a, ha, -⟩ | ⟨t₁, e, he, hrest⟩ := collectAll_cons h
    · rw [ha] at hret
      exact absurd rfl (hret a)
    · rw [he] at hsame
      obtain rfl : t₁ = ⟨s, true⟩ := hsame
      exact ih (fun m hm => hl m (List.mem_cons_of_mem _ hm)) hrest

theorem isolated_of_ret {a : Option α} (h : m ⟨s, false⟩ = (.ret a, t)) :
    isolated (s, found) m = (t.view, found ++ a.toList) := by
  rw [isolated, h]

/-- A record that does not go through by itself is left out. -/
theorem isolated_of_not_through (h : ¬ Through m s) : isolated (s, found) m = (s, found) := by
  unfold Through at h
  unfold isolated
  generalize m ⟨s, false⟩ = r at h
  obtain ⟨o, t⟩ := r
  cases o with
  | ret a => exact absurd ⟨a, rfl⟩ h
  | err e => rfl
  | stop => rfl
  | panic => rfl

/-- What a record does by itself does not depend on what was found before. -/
theorem isolated_eq (found : List α) (m : Proc (Tx σ) ε (Option α)) (s : σ) :
    isolated (s, found) m = ((isolated (s, []) m).1, found ++ (isolated (s, []) m).2) := by
  unfold isolated
  generalize m ⟨s, false⟩ = r
  obtain ⟨o, t⟩ := r
  cases o with
  | ret a => rfl
  | err e => rw [List.append_nil]
  | stop => rw [List.append_nil]
  | panic => rw [List.append_nil]

/-- A record by itself: it goes through and leaves its view, or it is left out. -/
theorem isolated_cases (m : Proc (Tx σ) ε (Option α)) (r : σ × List α) :
    (∃ a t, m ⟨r.1, false⟩ = (.ret a, t) ∧ isolated r m = (t.view, r.2 ++ a.toList)) ∨
      isolated r m = r := by
  by_cases hm : Through m r.1
  · obtain ⟨a, ha⟩ := hm
    have hret : m ⟨r.1, false⟩ = (.ret a, (m ⟨r.1, false⟩).2) := Prod.ext ha rfl
    exact .inl ⟨a, _, hret, isolated_of_ret hret⟩
  · exact .inr (isolated_of_not_through hm)

/-- **One round of a batch that goes through.**  The record breaks and nothing more is found, or
it does what it would do by itself. -/
theorem collectAll_round (hm : Record m) (hl : ∀ m ∈ l, Record m)
    (h : collectAll (m :: l) found ⟨s, false⟩ = (.ret found', t)) :
    Breaks m ∧ found' = found ∧ t.aborted = true ∨
      ¬ Breaks m ∧ ∃ s₁ found₁, isolated (s, found) m = (s₁, found₁) ∧
        collectAll l found₁ ⟨s₁, false⟩ = (.ret found', t) := by
  have hb : Breaks m ↔ (m ⟨s, false⟩).2.aborted = true := ⟨fun hb => hb s, hm.breaks⟩
  rw [hb, Bool.not_eq_true]
  obtain ⟨t₁, a, ha, hrest⟩ | ⟨t₁, e, he, hrest⟩ := collectAll_cons h
  · have hgood : (m ⟨s, false⟩).2.aborted = false := hm.returned s a (by rw [ha])
    refine .inr ⟨hgood, t₁.view, found ++ a.toList, isolated_of_ret ha, ?_⟩
    rw [ha] at hgood
    obtain ⟨s₁, aborted⟩ := t₁
    obtain rfl : aborted = false := hgood
    exact hrest
  · have hleft : isolated (s, found) m = (s, found) :=
      isolated_of_not_through fun ⟨a, ha⟩ => by simp [he] at ha
    have hsame := hm.failed s e (by rw [he])
    rw [he] at hsame ⊢
    obtain ⟨s₁, aborted⟩ := t₁
    cases aborted with
    | true =>
      -- a statement failed, and nothing goes through after it
      obtain ⟨rfl, rfl⟩ := collectAll_aborted hl hrest
      exact .inl ⟨rfl, rfl, rfl⟩
    | false =>
      -- it failed before its first statement
      obtain rfl : s₁ = s := congrArg Tx.view (hsame rfl)
      exact .inr ⟨rfl, s₁, found, hleft, hrest⟩

/-- **A batch that goes through.**  Some record breaks and the transaction is aborted, or each
record did what it would have done by itself. -/
theorem collectAll_ret (hl : ∀ m ∈ l, Record m)
    (h : collectAll l found ⟨s, false⟩ = (.ret found', t)) :
    (∃ m ∈ l, Breaks m) ∧ t.aborted = true ∨
      (∀ m ∈ l, ¬ Breaks m) ∧ t = ⟨(isolatedAll l (s, found)).1, false⟩ ∧
        found' = (isolatedAll l (s, found)).2 := by
  induction l generalizing s found with
  | nil =>
    obtain ⟨rfl, rfl⟩ : found = found' ∧ (⟨s, false⟩ : Tx σ) = t := by simpa [collectAll] using h
    exact .inr ⟨by simp, rfl, rfl⟩
  | cons m l ih =>
    obtain ⟨hm, hl⟩ := List.forall_mem_cons.1 hl
    rcases collectAll_round hm hl h with ⟨hb, -, ha⟩ | ⟨hb, s₁, found₁, hiso, hrest⟩
    · exact .inl ⟨⟨m, by simp, hb⟩, ha⟩
    · rw [isolatedAll, List.foldl_cons, hiso]
      rcases ih hl hrest with ⟨⟨m', hm', hb'⟩, ha⟩ | ⟨hb', ht, hf⟩
      · exact .inl ⟨⟨m', List.mem_cons_of_mem _ hm', hb'⟩, ha⟩
      · exact .inr ⟨List.forall_mem_cons.2 ⟨hb, hb'⟩, ht, hf⟩

/-- What is found stays found. -/
theorem prefix_isolatedAll (l : List (Proc (Tx σ) ε (Option α))) (r : σ × List α) :
    r.2 <+: (isolatedAll l r).2 := by
  induction l generalizing r with
  | nil => exact List.prefix_refl _
  | cons m l ih =>
    refine List.IsPrefix.trans ?_ (ih (isolated r m))
    obtain ⟨a, t, -, hiso⟩ | hiso := isolated_cases m r
    · rw [hiso]
      exact List.prefix_append _ _
    · simp only [hiso, List.prefix_refl]

/-- A batch that goes through and breaks nothing ends at none of its records. -/
theorem not_cutOff_of_collectAll (hl : ∀ q ∈ l ++ m :: l', Record q)
    (hb : ∀ q ∈ l ++ m :: l', ¬ Breaks q)
    (h : collectAll (l ++ m :: l') found ⟨s, false⟩ = (.ret found', t)) :
    ¬ m.CutOff ⟨(isolatedAll l (s, found)).1, false⟩ := by
  rw [collectAll_append, Proc.bind_apply] at h
  rcases hfirst : collectAll l found ⟨s, false⟩ with ⟨o, t₁⟩
  rw [hfirst] at h
  cases o with
  | ret found₁ =>
    rcases collectAll_ret (fun m hm => hl m (List.mem_append_left _ hm)) hfirst with
      ⟨⟨m', hm', hbreaks⟩, -⟩ | ⟨-, rfl, -⟩
    · exact absurd hbreaks (hb m' (List.mem_append_left _ hm'))
    · unfold Proc.CutOff
      obtain ⟨_, a, ha, -⟩ | ⟨_, e, he, -⟩ := collectAll_cons h
      · simp [ha]
      · simp [he]
  | err e => simp at h
  | stop => simp at h
  | panic => simp at h

/-- A batch moves the store as each of its records does. -/
theorem within_collectAll {R : σ → σ → Prop} [IsPreorder σ R]
    (hl : ∀ m ∈ l, Proc.Within (Tx.Via R) m) (found : List α) :
    Proc.Within (Tx.Via R) (collectAll l found) := by
  induction l generalizing found with
  | nil => exact Proc.within_pure found
  | cons m l ih =>
    have hcollect : Proc.Within (Tx.Via R) (collect found m) := by
      refine (hl m (by simp)).attempt.bind ?_
      intro r
      cases r with
      | error e => exact Proc.within_pure _
      | ok a => cases a <;> exact Proc.within_pure _
    exact hcollect.bind fun found' => ih (fun m hm => hl m (List.mem_cons_of_mem _ hm)) found'

/-- A batch finds at most what its records find by themselves. -/
theorem collectAll_prefix (hl : ∀ m ∈ l, Record m)
    (h : collectAll l found ⟨s, false⟩ = (.ret found', t)) :
    found' <+: (isolatedAll l (s, found)).2 := by
  induction l generalizing s found with
  | nil =>
    obtain ⟨rfl, -⟩ : found = found' ∧ (⟨s, false⟩ : Tx σ) = t := by simpa [collectAll] using h
    exact List.prefix_refl _
  | cons m l ih =>
    obtain ⟨hm, hl⟩ := List.forall_mem_cons.1 hl
    rcases collectAll_round hm hl h with ⟨-, rfl, -⟩ | ⟨-, s₁, found₁, hiso, hrest⟩
    · exact prefix_isolatedAll (m :: l) (s, found')
    · rw [isolatedAll, List.foldl_cons, hiso]
      exact ih hl hrest

/-- What the records find by themselves comes from a record. -/
theorem found_of_mem_isolatedAll {r : σ × List α} {a : α} (h : a ∈ (isolatedAll l r).2) :
    a ∈ r.2 ∨ ∃ m ∈ l, ∃ s, (m ⟨s, false⟩).1 = .ret (some a) := by
  induction l generalizing r with
  | nil => exact .inl h
  | cons m l ih =>
    rcases ih h with h | ⟨m', hm', h⟩
    · obtain ⟨b, t, hret, hiso⟩ | hiso := isolated_cases m r
      · rw [hiso, List.mem_append] at h
        rcases h with h | h
        · exact .inl h
        · obtain rfl : b = some a := by simpa using h
          exact .inr ⟨m, by simp, r.1, by rw [hret]⟩
      · rw [hiso] at h
        exact .inl h
    · exact .inr ⟨m', List.mem_cons_of_mem _ hm', h⟩

/-- The records by themselves move the store as each of them does. -/
theorem isolatedAll_via {R : σ → σ → Prop} [IsPreorder σ R]
    (hl : ∀ m ∈ l, Proc.Within (Tx.Via R) m) (r : σ × List α) : R r.1 (isolatedAll l r).1 := by
  induction l generalizing r with
  | nil => exact refl r.1
  | cons m l ih =>
    refine IsTrans.trans _ _ _ ?_ (ih (fun m hm => hl m (List.mem_cons_of_mem _ hm)) (isolated r m))
    obtain ⟨a, t, hret, hiso⟩ | hiso := isolated_cases m r
    · have hview := hl m (by simp) ⟨r.1, false⟩
      rw [hret] at hview
      rw [hiso]
      exact hview
    · rw [hiso]
      exact refl r.1

/-! ### Sequences of statements -/

section Writes

variable {β γ : Type}

theorem writes_pure (b : β) : Writes (pure b : Proc (Tx σ) ε β) :=
  ⟨.ret b, false, fun _ _ => rfl, fun _ h => by simp at h, fun s => ⟨s, rfl⟩⟩

theorem writes_orPanic (o : Option β) : Writes (Proc.lift (.orPanic o) : Proc (Tx σ) ε β) :=
  ⟨.orPanic o, false, fun _ _ => rfl, fun _ h => by cases o <;> simp at h, fun s => ⟨s, rfl⟩⟩

theorem writes_statement (f : Fault) (e : ε) (act : σ → σ) :
    Writes (statement f e fun s => ((), act s)) := by
  cases f with
  | ok => exact ⟨.ret (), false, fun _ _ => rfl, fun _ h => by simp at h, fun s => ⟨act s, rfl⟩⟩
  | fail => exact ⟨.err e, true, fun _ h => by simp at h, fun _ _ => rfl, fun s => ⟨s, rfl⟩⟩
  | stop => exact ⟨.stop, false, fun _ _ => rfl, fun _ h => by simp at h, fun s => ⟨s, rfl⟩⟩

theorem Writes.bind {m : Proc (Tx σ) ε β} {f : β → Proc (Tx σ) ε γ} (hm : Writes m)
    (hf : ∀ b, Writes (f b)) : Writes (m >>= f) := by
  obtain ⟨o, aborted, hret, herr, hm⟩ := hm
  cases o with
  | ret b =>
    obtain ⟨o', aborted', hret', herr', hf⟩ := hf b
    obtain rfl : aborted = false := hret b rfl
    refine ⟨o', aborted', hret', herr', ?_⟩
    intro s
    obtain ⟨s₁, h₁⟩ := hm s
    obtain ⟨s₂, h₂⟩ := hf s₁
    exact ⟨s₂, by rw [Proc.bind_apply, h₁]; exact h₂⟩
  | err e =>
    refine ⟨.err e, aborted, fun _ h => by simp at h, fun _ _ => herr e rfl, ?_⟩
    intro s
    obtain ⟨s₁, h₁⟩ := hm s
    exact ⟨s₁, by rw [Proc.bind_apply, h₁]⟩
  | stop =>
    refine ⟨.stop, aborted, fun _ h => by simp at h, fun _ h => by simp at h, ?_⟩
    intro s
    obtain ⟨s₁, h₁⟩ := hm s
    exact ⟨s₁, by rw [Proc.bind_apply, h₁]⟩
  | panic =>
    refine ⟨.panic, aborted, fun _ h => by simp at h, fun _ h => by simp at h, ?_⟩
    intro s
    obtain ⟨s₁, h₁⟩ := hm s
    exact ⟨s₁, by rw [Proc.bind_apply, h₁]⟩

theorem writes_foldlM {f : β → γ → Proc (Tx σ) ε β} (hf : ∀ b c, Writes (f b c)) (l : List γ)
    (b : β) : Writes (l.foldlM f b) := by
  induction l generalizing b with
  | nil => exact writes_pure b
  | cons c l ih => exact (hf b c).bind fun b' => ih b'

end Writes

end Tx

end Lumina
