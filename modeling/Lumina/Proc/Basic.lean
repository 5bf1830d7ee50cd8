import Mathlib.Order.Defs.Unbundled

/-!
# Processes whose calls may fail or be cut off

A program that talks to a store through awaited calls is a *process*: a function from the store
to an outcome and the store it leaves behind.  The environment decides, call by call, whether
the call is carried out, returns an error, or is never reached because the process stops
(`Fault`).  What the program did before it stopped stays in the store.

## Main definitions

* `Fault`, `Outcome` : what happens at one call, and how a process ends.
* `Proc σ ε α` : processes over the store `σ` with errors in `ε`, a monad.
* `Proc.await` : one call, `Proc.attempt` : a call whose error is looked at and not passed on.
* `Proc.Within R m` : whatever happens, `m` moves the store along `R`.
-/

namespace Lumina

/-- What the environment does at one awaited call. -/
inductive Fault where
  /-- The call is carried out. -/
  | ok
  /-- The call returns an error and has no effect. -/
  | fail
  /-- The process stops before the call. -/
  | stop
  deriving DecidableEq, Repr

/-- How a process ends. -/
inductive Outcome (ε α : Type) where
  /-- It returns a value. -/
  | ret (a : α)
  /-- It returns an error. -/
  | err (e : ε)
  /-- It is stopped between two calls. -/
  | stop
  /-- It panics, which also ends the process. -/
  | panic
  deriving DecidableEq

namespace Outcome

variable {ε α β : Type}

/-- Sequencing: only a returned value is passed on. -/
protected def bind : Outcome ε α → (α → Outcome ε β) → Outcome ε β
  | ret a, f => f a
  | err e, _ => err e
  | stop, _ => stop
  | panic, _ => panic

instance : Monad (Outcome ε) where
  pure := ret
  bind := Outcome.bind

/-- The value of an option, or an error. -/
def ofOption (e : ε) : Option α → Outcome ε α
  | some a => ret a
  | none => err e

/-- The value of an operation that panics where it has none. -/
def orPanic : Option α → Outcome ε α
  | some a => ret a
  | none => panic

@[simp] theorem pure_eq (a : α) : (pure a : Outcome ε α) = ret a := rfl

@[simp] theorem ret_bind (a : α) (f : α → Outcome ε β) : (ret a >>= f) = f a := rfl

@[simp] theorem err_bind (e : ε) (f : α → Outcome ε β) : (err e >>= f) = err e := rfl

@[simp] theorem stop_bind (f : α → Outcome ε β) : (stop >>= f) = stop := rfl

@[simp] theorem panic_bind (f : α → Outcome ε β) : (panic >>= f) = panic := rfl

theorem bind_eq_ret {o : Outcome ε α} {f : α → Outcome ε β} {b : β} :
    (o >>= f) = ret b ↔ ∃ a, o = ret a ∧ f a = ret b := by
  cases o with
  | ret a => simp
  | err e => simp
  | stop => simp
  | panic => simp

@[simp] theorem ofOption_some (e : ε) (a : α) : ofOption e (some a) = ret a := rfl

@[simp] theorem ofOption_none (e : ε) : ofOption e (none : Option α) = err e := rfl

@[simp] theorem orPanic_some (a : α) : (orPanic (some a) : Outcome ε α) = ret a := rfl

@[simp] theorem orPanic_none : (orPanic none : Outcome ε α) = panic := rfl

end Outcome

/-- A process over the store `σ` that returns an `α` or an error `ε`. -/
def Proc (σ ε α : Type) : Type := σ → Outcome ε α × σ

namespace Proc

variable {σ ε α β : Type}

/-- Sequencing: the store is passed on, and kept where the process ends early. -/
protected def bind (m : Proc σ ε α) (f : α → Proc σ ε β) : Proc σ ε β := fun s =>
  match m s with
  -- a process that ends early keeps the effects of the calls it made
  | (.ret a, s') => f a s'
  | (.err e, s') => (.err e, s')
  | (.stop, s') => (.stop, s')
  | (.panic, s') => (.panic, s')

instance : Monad (Proc σ ε) where
  pure a := fun s => (.ret a, s)
  bind := Proc.bind

/-- A computation without calls. -/
def lift (o : Outcome ε α) : Proc σ ε α := fun s => (o, s)

/-- One awaited call with effect `act`, which returns the error `e` where it fails. -/
def await (f : Fault) (e : ε) (act : σ → α × σ) : Proc σ ε α := fun s =>
  match f with
  | .ok => (.ret (act s).1, (act s).2)
  | .fail => (.err e, s)
  | .stop => (.stop, s)

/-- Run `m` and hand its error, if any, to the caller as a value. -/
def attempt (m : Proc σ ε α) : Proc σ ε (Except ε α) := fun s =>
  match m s with
  | (.ret a, s') => (.ret (.ok a), s')
  | (.err e, s') => (.ret (.error e), s')
  | (.stop, s') => (.stop, s')
  | (.panic, s') => (.panic, s')

@[simp] theorem pure_apply (a : α) (s : σ) : (pure a : Proc σ ε α) s = (.ret a, s) := rfl

theorem bind_apply (m : Proc σ ε α) (f : α → Proc σ ε β) (s : σ) :
    (m >>= f) s = match m s with
      | (.ret a, s') => f a s'
      | (.err e, s') => (.err e, s')
      | (.stop, s') => (.stop, s')
      | (.panic, s') => (.panic, s') := rfl

/-- A value that a sequence returns comes from a value that its first part returns. -/
theorem bind_fst_eq_ret {m : Proc σ ε α} {f : α → Proc σ ε β} {s : σ} {b : β} :
    ((m >>= f) s).1 = .ret b ↔ ∃ a, (m s).1 = .ret a ∧ (f a (m s).2).1 = .ret b := by
  rw [bind_apply]
  generalize m s = r
  obtain ⟨o, s'⟩ := r
  cases o <;> simp

theorem id_map_eq (m : Proc σ ε α) : id <$> m = m := by
  funext s
  change Proc.bind m _ s = m s
  unfold Proc.bind
  generalize m s = r
  obtain ⟨o, s'⟩ := r
  cases o <;> rfl

theorem bind_bind {γ : Type} (m : Proc σ ε α) (f : α → Proc σ ε β) (g : β → Proc σ ε γ) :
    m >>= f >>= g = m >>= fun a => f a >>= g := by
  funext s
  simp only [bind_apply]
  generalize m s = r
  obtain ⟨o, s'⟩ := r
  cases o <;> rfl

instance : LawfulMonad (Proc σ ε) :=
  LawfulMonad.mk' _ id_map_eq (fun _ _ => rfl) bind_bind

@[simp] theorem lift_apply (o : Outcome ε α) (s : σ) : (lift o : Proc σ ε α) s = (o, s) := rfl

@[simp] theorem await_ok (e : ε) (act : σ → α × σ) (s : σ) :
    await .ok e act s = (.ret (act s).1, (act s).2) := rfl

@[simp] theorem await_fail (e : ε) (act : σ → α × σ) (s : σ) :
    await .fail e act s = (.err e, s) := rfl

@[simp] theorem await_stop (e : ε) (act : σ → α × σ) (s : σ) :
    await .stop e act s = (.stop, s) := rfl

theorem attempt_apply (m : Proc σ ε α) (s : σ) :
    attempt m s = match m s with
      | (.ret a, s') => (.ret (.ok a), s')
      | (.err e, s') => (.ret (.error e), s')
      | (.stop, s') => (.stop, s')
      | (.panic, s') => (.panic, s') := rfl

/-- A caller that looks at the error and goes on leaves the store of `m`. -/
theorem attempt_bind_pure_snd (m : Proc σ ε α) (b : β) (s : σ) :
    ((attempt m >>= fun _ => pure b) s).2 = (m s).2 := by
  rw [bind_apply, attempt_apply]
  generalize m s = r
  obtain ⟨o, s'⟩ := r
  cases o <;> rfl

/-- The process ends in the middle of `m`. -/
def CutOff (m : Proc σ ε α) (s : σ) : Prop := (m s).1 = .stop ∨ (m s).1 = .panic

instance (m : Proc σ ε α) (s : σ) [DecidableEq α] [DecidableEq ε] : Decidable (CutOff m s) :=
  inferInstanceAs (Decidable (_ ∨ _))

/-! ### Moving the store along a relation -/

/-- Whatever the outcome, `m` takes a store to one related to it by `R`. -/
def Within (R : σ → σ → Prop) (m : Proc σ ε α) : Prop := ∀ s, R s (m s).2

section Within

variable {R : σ → σ → Prop} [IsPreorder σ R]

theorem within_pure (a : α) : Within R (pure a : Proc σ ε α) := fun s => refl s

theorem within_lift (o : Outcome ε α) : Within R (lift o : Proc σ ε α) := fun s => refl s

theorem within_await {f : Fault} {e : ε} {act : σ → α × σ} (h : ∀ s, R s (act s).2) :
    Within R (await f e act) := by
  intro s
  cases f with
  | ok => exact h s
  | fail => exact refl s
  | stop => exact refl s

/-- What follows a process moves the store on, if the process returns. -/
theorem related_bind {m : Proc σ ε α} {f : α → Proc σ ε β} {s₀ s : σ} (hm : R s₀ (m s).2)
    (hf : ∀ a, (m s).1 = .ret a → R (m s).2 (f a (m s).2).2) : R s₀ ((m >>= f) s).2 := by
  rw [bind_apply]
  generalize m s = r at hm hf
  obtain ⟨o, s'⟩ := r
  cases o with
  | ret a => exact IsTrans.trans _ _ _ hm (hf a rfl)
  | err e => exact hm
  | stop => exact hm
  | panic => exact hm

theorem Within.bind {m : Proc σ ε α} {f : α → Proc σ ε β} (hm : Within R m)
    (hf : ∀ a, Within R (f a)) : Within R (m >>= f) := fun s =>
  related_bind (hm s) fun a _ => hf a (m s).2

omit [IsPreorder σ R] in
theorem Within.attempt {m : Proc σ ε α} (hm : Within R m) : Within R (attempt m) := by
  intro s
  have h := hm s
  rw [attempt_apply]
  generalize m s = r at h
  obtain ⟨o, s'⟩ := r
  cases o <;> exact h

/-- A loop moves the store along `R` when each of its rounds does. -/
theorem within_foldlM_of_mem {γ : Type} {f : β → γ → Proc σ ε β} :
    ∀ {l : List γ}, (∀ c ∈ l, ∀ b, Within R (f b c)) → ∀ b : β, Within R (l.foldlM f b)
  | [], _, b => within_pure b
  | c :: _, hf, b => (hf c List.mem_cons_self b).bind fun b' =>
    within_foldlM_of_mem (fun c hc => hf c (List.mem_cons_of_mem _ hc)) b'

theorem within_foldlM {γ : Type} {f : β → γ → Proc σ ε β} (hf : ∀ b c, Within R (f b c))
    (l : List γ) (b : β) : Within R (l.foldlM f b) :=
  within_foldlM_of_mem (fun c _ b => hf b c) b

end Within

/-! ### Processes that always return -/

/-- From every store, `m` returns a value. -/
def Returns (m : Proc σ ε α) : Prop := ∀ s, ∃ a, (m s).1 = .ret a

theorem returns_pure (a : α) : Returns (pure a : Proc σ ε α) := fun _ => ⟨a, rfl⟩

theorem returns_await (e : ε) (act : σ → α × σ) : Returns (await .ok e act) := fun s =>
  ⟨(act s).1, rfl⟩

theorem Returns.bind {m : Proc σ ε α} {f : α → Proc σ ε β} (hm : Returns m)
    (hf : ∀ a, Returns (f a)) : Returns (m >>= f) := by
  intro s
  obtain ⟨a, ha⟩ := hm s
  obtain ⟨b, hb⟩ := hf a (m s).2
  exact ⟨b, bind_fst_eq_ret.2 ⟨a, ha, hb⟩⟩

theorem Returns.attempt {m : Proc σ ε α} (hm : Returns m) : Returns (attempt m) := by
  intro s
  obtain ⟨a, ha⟩ := hm s
  refine ⟨.ok a, ?_⟩
  rw [attempt_apply]
  generalize m s = r at ha
  obtain ⟨o, s'⟩ := r
  obtain rfl : o = .ret a := ha
  rfl

theorem returns_foldlM {γ : Type} {f : β → γ → Proc σ ε β} (hf : ∀ b c, Returns (f b c)) :
    ∀ (l : List γ) (b : β), Returns (l.foldlM f b)
  | [], b => returns_pure b
  | c :: l, b => (hf b c).bind fun b' => returns_foldlM hf l b'

theorem Returns.not_cutOff {m : Proc σ ε α} (hm : Returns m) (s : σ) : ¬ CutOff m s := by
  obtain ⟨a, ha⟩ := hm s
  unfold CutOff
  simp [ha]

/-! ### Processes that never panic -/

/-- From no store does `m` panic. -/
def PanicFree (m : Proc σ ε α) : Prop := ∀ s, (m s).1 ≠ .panic

theorem panicFree_pure (a : α) : PanicFree (pure a : Proc σ ε α) := fun _ => nofun

theorem panicFree_await (f : Fault) (e : ε) (act : σ → α × σ) : PanicFree (await f e act) := by
  intro s
  cases f <;> exact nofun

/-- A sequence does not panic where its two parts do not. -/
theorem bind_fst_ne_panic {m : Proc σ ε α} {f : α → Proc σ ε β} {s : σ} (hm : (m s).1 ≠ .panic)
    (hf : ∀ a, (m s).1 = .ret a → (f a (m s).2).1 ≠ .panic) : ((m >>= f) s).1 ≠ .panic := by
  rw [bind_apply]
  generalize m s = r at hm hf
  obtain ⟨o, s'⟩ := r
  cases o with
  | ret a => exact hf a rfl
  | err e => simp
  | stop => simp
  | panic => exact absurd rfl hm

theorem PanicFree.bind {m : Proc σ ε α} {f : α → Proc σ ε β} (hm : PanicFree m)
    (hf : ∀ a, PanicFree (f a)) : PanicFree (m >>= f) := fun s =>
  bind_fst_ne_panic (hm s) fun a _ => hf a (m s).2

theorem PanicFree.attempt {m : Proc σ ε α} (hm : PanicFree m) : PanicFree (attempt m) := by
  intro s
  have h := hm s
  rw [attempt_apply]
  generalize m s = r at h
  obtain ⟨o, s'⟩ := r
  cases o with
  | ret a => exact nofun
  | err e => exact nofun
  | stop => exact nofun
  | panic => exact absurd rfl h

theorem panicFree_foldlM {γ : Type} {f : β → γ → Proc σ ε β} (hf : ∀ b c, PanicFree (f b c)) :
    ∀ (l : List γ) (b : β), PanicFree (l.foldlM f b)
  | [], b => panicFree_pure b
  | c :: l, b => (hf b c).bind fun b' => panicFree_foldlM hf l b'

end Proc

end Lumina
