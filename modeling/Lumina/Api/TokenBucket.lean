import Lumina.Model.RateLimit
import Lumina.Trace.Basic
import Mathlib.Tactic.Linarith
import Mathlib.Tactic.Ring

/-!
# The token bucket

Over any run of calls with a clock that does not go back, the tokens of a client stay between
zero and the burst, and in a window of time a client passes at most as often as the burst and the
refill of the window allow.  A client that leaves `1 / rps` seconds between its calls always
passes, and no client notices the others (`tokenBucket_fair`).

## Main definitions

* `RateLimiter.decision` : whether a call passes after some others.
* `RateLimiter.granted` : the calls of a run that pass.
* `RateLimiter.level` : the tokens of a client at a time.
-/

namespace Lumina

open Lumina.Trace

namespace RateLimiter

variable {ι : Type} [DecidableEq ι]

/-- The buckets after a call. -/
def step (limiter : RateLimiter) (buckets : Buckets ι) (call : Call ι) : Buckets ι :=
  (limiter.allow call buckets).2

/-- Whether a call passes after the calls of a history. -/
def decision (limiter : RateLimiter) (history : List (Call ι)) (call : Call ι) : Bool :=
  (limiter.allow call (run limiter.step [] history)).1

/-- The calls that pass. -/
def granted (limiter : RateLimiter) : Buckets ι → List (Call ι) → List (Call ι)
  | _, [] => []
  | buckets, call :: calls =>
    if (limiter.allow call buckets).1 then call :: granted limiter (limiter.step buckets call) calls
    else granted limiter (limiter.step buckets call) calls

/-- The tokens of a client at a time; a client without a bucket would get a full one. -/
def level (limiter : RateLimiter) (ip : ι) (now : ℚ) (buckets : Buckets ι) : ℚ :=
  limiter.refill now (limiter.entry ⟨ip, now⟩ buckets)

variable {limiter : RateLimiter} {buckets : Buckets ι} {calls history : List (Call ι)}
  {call : Call ι} {ip : ι} {now now' t : ℚ}

theorem mem_of_mem_granted (h : call ∈ limiter.granted buckets calls) : call ∈ calls := by
  induction calls generalizing buckets with
  | nil => exact h
  | cons c calls ih =>
    unfold granted at h
    split_ifs at h
    · rcases List.mem_cons.1 h with rfl | h
      · exact List.mem_cons_self
      · exact List.mem_cons_of_mem _ (ih h)
    · exact List.mem_cons_of_mem _ (ih h)

/-! ### One call -/

/-- What a call does. -/
theorem allow_cases (limiter : RateLimiter) (call : Call ι) (buckets : Buckets ι) :
    (1 ≤ limiter.level call.ip call.now buckets ∧ limiter.allow call buckets =
        (true, buckets.set call.ip ⟨limiter.level call.ip call.now buckets - 1, call.now⟩)) ∨
      (limiter.level call.ip call.now buckets < 1 ∧ limiter.allow call buckets =
        (false, buckets.set call.ip ⟨limiter.level call.ip call.now buckets, call.now⟩)) := by
  by_cases h : 1 ≤ limiter.level call.ip call.now buckets
  · exact .inl ⟨h, if_pos h⟩
  · exact .inr ⟨not_le.1 h, if_neg h⟩

theorem allow_iff :
    (limiter.allow call buckets).1 = true ↔ 1 ≤ limiter.level call.ip call.now buckets := by
  rcases limiter.allow_cases call buckets with ⟨h, heq⟩ | ⟨h, heq⟩
  · simp [heq, h]
  · simp [heq, h]

/-- Another client's bucket is left alone. -/
theorem get_step_of_ne (h : ip ≠ call.ip) :
    (limiter.step buckets call).get ip = buckets.get ip := by
  rcases limiter.allow_cases call buckets with ⟨-, heq⟩ | ⟨-, heq⟩
  · rw [step, heq, Buckets.get_set_of_ne h]
  · rw [step, heq, Buckets.get_set_of_ne h]

/-- The bucket of the client is refilled to the time of the call. -/
theorem get_step_self : ∃ tokens, (limiter.step buckets call).get call.ip =
    some ⟨tokens, call.now⟩ ∧
      ((1 ≤ limiter.level call.ip call.now buckets ∧
        tokens = limiter.level call.ip call.now buckets - 1) ∨
      (limiter.level call.ip call.now buckets < 1 ∧
        tokens = limiter.level call.ip call.now buckets)) := by
  rcases limiter.allow_cases call buckets with ⟨h, heq⟩ | ⟨h, heq⟩
  · exact ⟨_, by rw [step, heq, Buckets.get_set_self], .inl ⟨h, rfl⟩⟩
  · exact ⟨_, by rw [step, heq, Buckets.get_set_self], .inr ⟨h, rfl⟩⟩

/-! ### The invariant -/

/-- A limiter that refills and has a token. -/
structure Sound (limiter : RateLimiter) : Prop where
  rps : 0 ≤ limiter.rps
  burst : 1 ≤ limiter.burst

/-- The tokens of every bucket are in bounds, and it was last touched before now. -/
def Filled (limiter : RateLimiter) (now : ℚ) (buckets : Buckets ι) : Prop :=
  ∀ ip b, buckets.get ip = some b →
    0 ≤ b.tokens ∧ b.tokens ≤ limiter.burst ∧ b.lastRefill ≤ now

theorem filled_nil : limiter.Filled now ([] : Buckets ι) := by
  intro ip b h
  simp [Buckets.get] at h

theorem level_le_burst : limiter.level ip now buckets ≤ limiter.burst := min_le_right _ _

theorem level_of_get {b : Bucket} (h : buckets.get ip = some b) (hb : b.lastRefill ≤ now) :
    limiter.level ip now buckets =
      min (b.tokens + (now - b.lastRefill) * limiter.rps) limiter.burst := by
  rw [level, entry, h, Option.getD_some, refill, max_eq_right (sub_nonneg.2 hb)]

theorem level_of_none (h : buckets.get ip = none) :
    limiter.level ip now buckets = limiter.burst := by
  rw [level, entry, h, Option.getD_none, refill, sub_self, max_self, zero_mul, add_zero, min_self]

theorem level_nonneg (hs : limiter.Sound) (h : limiter.Filled now buckets) :
    0 ≤ limiter.level ip now buckets := by
  have hburst : 0 ≤ limiter.burst := zero_le_one.trans hs.burst
  cases hb : buckets.get ip with
  | none =>
    rw [level_of_none hb]
    exact hburst
  | some b =>
    obtain ⟨htokens, -, hlast⟩ := h ip b hb
    rw [level_of_get hb hlast]
    exact le_min (add_nonneg htokens (mul_nonneg (sub_nonneg.2 hlast) hs.rps)) hburst

/-- A client gains no more than the refill of the time that passes. -/
theorem level_le_add (hs : limiter.Sound) (h : limiter.Filled now buckets) (hle : now ≤ now') :
    limiter.level ip now' buckets ≤
      limiter.level ip now buckets + limiter.rps * (now' - now) := by
  have hgain : 0 ≤ limiter.rps * (now' - now) := mul_nonneg hs.rps (sub_nonneg.2 hle)
  cases hb : buckets.get ip with
  | none =>
    rw [level_of_none hb, level_of_none hb]
    exact le_add_of_nonneg_right hgain
  | some b =>
    obtain ⟨-, -, hlast⟩ := h ip b hb
    rw [level_of_get hb hlast, level_of_get hb (hlast.trans hle)]
    have hsplit : b.tokens + (now' - b.lastRefill) * limiter.rps =
        b.tokens + (now - b.lastRefill) * limiter.rps + limiter.rps * (now' - now) := by
      ring
    rw [hsplit]
    -- the cap takes no more from the larger amount
    rcases min_cases (b.tokens + (now - b.lastRefill) * limiter.rps) limiter.burst with
      ⟨heq, -⟩ | ⟨heq, -⟩
    · rw [heq]
      exact min_le_left _ _
    · rw [heq]
      exact (min_le_right _ _).trans (le_add_of_nonneg_right hgain)

/-- **One call** keeps the tokens in bounds. -/
theorem Filled.step (hs : limiter.Sound) (h : limiter.Filled now buckets) (hle : now ≤ call.now) :
    limiter.Filled call.now (limiter.step buckets call) := by
  have hfilled : limiter.Filled call.now buckets := by
    intro ip b hb
    obtain ⟨h₀, h₁, hlast⟩ := h ip b hb
    exact ⟨h₀, h₁, hlast.trans hle⟩
  intro ip b hb
  by_cases hip : ip = call.ip
  · subst hip
    obtain ⟨tokens, hget, htokens⟩ := @get_step_self ι _ limiter buckets call
    rw [hget] at hb
    obtain rfl := Option.some.inj hb
    have h₀ : 0 ≤ limiter.level call.ip call.now buckets := level_nonneg hs hfilled
    have h₁ : limiter.level call.ip call.now buckets ≤ limiter.burst := level_le_burst
    rcases htokens with ⟨hone, rfl⟩ | ⟨-, rfl⟩
    · exact ⟨sub_nonneg.2 hone, (sub_le_self _ zero_le_one).trans h₁, le_rfl⟩
    · exact ⟨h₀, h₁, le_rfl⟩
  · rw [get_step_of_ne hip] at hb
    exact hfilled ip b hb

theorem Filled.mono (h : limiter.Filled now buckets) (hle : now ≤ now') :
    limiter.Filled now' buckets := by
  intro ip b hb
  obtain ⟨h₀, h₁, hlast⟩ := h ip b hb
  exact ⟨h₀, h₁, hlast.trans hle⟩

/-- The tokens of the client that calls. -/
theorem level_step_self (hs : limiter.Sound) (h : limiter.Filled call.now buckets) :
    limiter.level call.ip call.now (limiter.step buckets call) =
      limiter.level call.ip call.now buckets -
        if (limiter.allow call buckets).1 then 1 else 0 := by
  obtain ⟨tokens, hget, -⟩ := @get_step_self ι _ limiter buckets call
  obtain ⟨-, hburst, -⟩ := h.step hs le_rfl call.ip _ hget
  rw [level_of_get hget le_rfl, sub_self, zero_mul, add_zero, min_eq_left hburst]
  rcases limiter.allow_cases call buckets with ⟨-, heq⟩ | ⟨-, heq⟩
  · rw [step, heq, Buckets.get_set_self] at hget
    rw [heq, if_pos rfl, ← Option.some.inj hget]
  · rw [step, heq, Buckets.get_set_self] at hget
    rw [heq, if_neg Bool.false_ne_true, sub_zero, ← Option.some.inj hget]

/-- The tokens of the others. -/
theorem level_step_of_ne (h : ip ≠ call.ip) :
    limiter.level ip now (limiter.step buckets call) = limiter.level ip now buckets := by
  rw [level, entry, get_step_of_ne h]
  rfl

/-! ### Windows -/

/-- A call of the client up to a time. -/
def upto (ip : ι) (t : ℚ) (call : Call ι) : Bool := call.ip = ip ∧ call.now ≤ t

theorem upto_iff : upto ip t call = true ↔ call.ip = ip ∧ call.now ≤ t := decide_eq_true_iff

/-- A call of the client in a window of time. -/
def within (ip : ι) (s t : ℚ) (call : Call ι) : Bool := call.ip = ip ∧ s ≤ call.now ∧ call.now ≤ t

theorem within_iff {s : ℚ} :
    within ip s t call = true ↔ call.ip = ip ∧ s ≤ call.now ∧ call.now ≤ t := decide_eq_true_iff

theorem countP_granted_eq_zero (h : ∀ c ∈ calls, t < c.now) :
    (limiter.granted buckets calls).countP (upto ip t) = 0 := by
  rw [List.countP_eq_zero]
  intro c hc hupto
  exact absurd (upto_iff.1 hupto).2 (not_le.2 (h c (mem_of_mem_granted hc)))

/-- **What a client gets from now on** is paid from its tokens and the refill. -/
theorem countP_granted_le (hs : limiter.Sound) (hsorted : calls.Pairwise fun c d => c.now ≤ d.now)
    (h : limiter.Filled now buckets) (hnow : ∀ c ∈ calls, now ≤ c.now) (hle : now ≤ t) :
    ((limiter.granted buckets calls).countP (upto ip t) : ℚ) ≤
      limiter.level ip now buckets + limiter.rps * (t - now) := by
  induction calls generalizing buckets now with
  | nil =>
    rw [granted, List.countP_nil, Nat.cast_zero]
    exact add_nonneg (level_nonneg hs h) (mul_nonneg hs.rps (sub_nonneg.2 hle))
  | cons c calls ih =>
    rw [List.pairwise_cons] at hsorted
    have hc : now ≤ c.now := hnow c List.mem_cons_self
    by_cases hct : c.now ≤ t
    · have hrest := ih hsorted.2 (h.step hs hc) hsorted.1 hct
      have hgain : limiter.level ip c.now buckets ≤
          limiter.level ip now buckets + limiter.rps * (c.now - now) := level_le_add hs h hc
      have hsplit : limiter.rps * (t - now) =
          limiter.rps * (c.now - now) + limiter.rps * (t - c.now) := by
        ring
      by_cases hip : ip = c.ip
      · subst hip
        rw [level_step_self hs (h.mono hc)] at hrest
        unfold granted
        -- a call that passes takes a token
        split_ifs with hpass
        · rw [if_pos hpass] at hrest
          rw [List.countP_cons_of_pos (upto_iff.2 ⟨rfl, hct⟩), Nat.cast_add, Nat.cast_one]
          linarith
        · rw [if_neg hpass] at hrest
          linarith
      · rw [level_step_of_ne hip] at hrest
        unfold granted
        have hskip : ¬ upto ip t c = true := fun hupto => hip (upto_iff.1 hupto).1.symm
        split_ifs with hpass
        · rw [List.countP_cons_of_neg hskip]
          linarith
        · linarith
    · rw [not_le] at hct
      rw [countP_granted_eq_zero, Nat.cast_zero]
      · exact add_nonneg (level_nonneg hs h) (mul_nonneg hs.rps (sub_nonneg.2 hle))
      · intro d hd
        rcases List.mem_cons.1 hd with rfl | hd
        · exact hct
        · exact hct.trans_le (hsorted.1 d hd)

/-- **A window of time.**  What the client did before it does not matter. -/
theorem countP_window_le {s : ℚ} (hs : limiter.Sound)
    (hsorted : calls.Pairwise fun c d => c.now ≤ d.now) (h : limiter.Filled now buckets)
    (hnow : ∀ c ∈ calls, now ≤ c.now) (hle : now ≤ s) (hst : s ≤ t) :
    ((limiter.granted buckets calls).countP (within ip s t) : ℚ) ≤
      limiter.burst + limiter.rps * (t - s) := by
  induction calls generalizing buckets now with
  | nil =>
    rw [granted, List.countP_nil, Nat.cast_zero]
    exact add_nonneg (zero_le_one.trans hs.burst) (mul_nonneg hs.rps (sub_nonneg.2 hst))
  | cons c calls ih =>
    have hc : now ≤ c.now := hnow c List.mem_cons_self
    by_cases hcs : c.now < s
    · rw [List.pairwise_cons] at hsorted
      have hrest := ih hsorted.2 (h.step hs hc) hsorted.1 hcs.le
      have hskip : ¬ within ip s t c = true := fun hin =>
        absurd (within_iff.1 hin).2.1 (not_le.2 hcs)
      unfold granted
      split_ifs
      · rw [List.countP_cons_of_neg hskip]
        exact hrest
      · exact hrest
    · -- the window has begun
      rw [not_lt] at hcs
      have hfrom : ∀ d ∈ c :: calls, s ≤ d.now := by
        intro d hd
        rcases List.mem_cons.1 hd with rfl | hd
        · exact hcs
        · exact hcs.trans ((List.pairwise_cons.1 hsorted).1 d hd)
      have hcount : (limiter.granted buckets (c :: calls)).countP (within ip s t) =
          (limiter.granted buckets (c :: calls)).countP (upto ip t) := by
        refine List.countP_congr fun d hd => ?_
        rw [within_iff, upto_iff]
        exact and_congr_right fun _ => and_iff_right (hfrom d (mem_of_mem_granted hd))
      rw [hcount]
      exact (countP_granted_le hs hsorted (h.mono hle) hfrom hst).trans
        (add_le_add_left level_le_burst _)

/-! ### Spacing -/

/-- The buckets after a run are in bounds. -/
theorem filled_run (hs : limiter.Sound) (hsorted : calls.Pairwise fun c d => c.now ≤ d.now)
    (h : limiter.Filled now buckets) (hnow : ∀ c ∈ calls, now ≤ c.now)
    (hlast : ∀ c ∈ calls, c.now ≤ now') (hle : now ≤ now') :
    limiter.Filled now' (run limiter.step buckets calls) := by
  induction calls generalizing buckets now with
  | nil => exact h.mono hle
  | cons c calls ih =>
    rw [List.pairwise_cons] at hsorted
    exact ih hsorted.2 (h.step hs (hnow c List.mem_cons_self)) hsorted.1
      (fun d hd => hlast d (List.mem_cons_of_mem _ hd)) (hlast c List.mem_cons_self)

/-- The others' calls leave a bucket alone. -/
theorem get_run_of_ne (h : ∀ c ∈ calls, c.ip ≠ ip) :
    (run limiter.step buckets calls).get ip = buckets.get ip := by
  induction calls generalizing buckets with
  | nil => rfl
  | cons c calls ih =>
    rw [run_cons, ih fun d hd => h d (List.mem_cons_of_mem _ hd),
      get_step_of_ne (h c List.mem_cons_self).symm]

/-- **A client that waits for a token gets it.** -/
theorem allow_of_spaced {c : Call ι} {b : Bucket} (hs : limiter.Sound) (hrps : 0 < limiter.rps)
    (hb : buckets.get call.ip = some b) (htokens : 0 ≤ b.tokens) (hlast : b.lastRefill = c.now)
    (hwait : c.now + 1 / limiter.rps ≤ call.now) : (limiter.allow call buckets).1 = true := by
  have hpos : 0 < 1 / limiter.rps := one_div_pos.2 hrps
  have hle : b.lastRefill ≤ call.now := by
    rw [hlast]
    linarith
  have hrefill : 1 ≤ (call.now - b.lastRefill) * limiter.rps := by
    rw [← div_le_iff₀ hrps, hlast]
    linarith
  rw [allow_iff, level_of_get hb hle]
  exact le_min (by linarith) hs.burst

/-! ### Independence -/

/-- What a client may do, and what it leaves, depend on its own bucket. -/
theorem allow_congr {buckets' : Buckets ι} (h : buckets.get call.ip = buckets'.get call.ip) :
    (limiter.allow call buckets).1 = (limiter.allow call buckets').1 ∧
      (limiter.step buckets call).get call.ip = (limiter.step buckets' call).get call.ip := by
  have hlevel : limiter.level call.ip call.now buckets =
      limiter.level call.ip call.now buckets' := by
    rw [level, entry, h]
    rfl
  unfold step
  rcases limiter.allow_cases call buckets with ⟨hb, heq⟩ | ⟨hb, heq⟩ <;>
    rcases limiter.allow_cases call buckets' with ⟨hb', heq'⟩ | ⟨hb', heq'⟩
  · rw [heq, heq', Buckets.get_set_self, Buckets.get_set_self, hlevel]
    exact ⟨rfl, rfl⟩
  · exact absurd (hlevel ▸ hb) (not_le.2 hb')
  · exact absurd (hlevel ▸ hb') (not_le.2 hb)
  · rw [heq, heq', Buckets.get_set_self, Buckets.get_set_self, hlevel]
    exact ⟨rfl, rfl⟩

/-- The bucket of a client after its own calls alone. -/
theorem get_run_filter (ip : ι) (calls : List (Call ι)) (buckets : Buckets ι) :
    (run limiter.step buckets calls).get ip =
      (run limiter.step buckets (calls.filter fun c => c.ip = ip)).get ip := by
  refine @run_filter _ _ _ _ _ _ _ (fun buckets => Buckets.get buckets ip) _ ?_ ?_ rfl
  · intro buckets c _ hc
    exact get_step_of_ne fun h => of_decide_eq_false hc h.symm
  · intro buckets buckets' c _ hc h
    obtain rfl := of_decide_eq_true hc
    exact (allow_congr h).2

/-! ### The limiter of the settings -/

section New

variable {rps burst : ℕ}

theorem sound_new : (RateLimiter.new rps burst).Sound where
  rps := Nat.cast_nonneg rps
  burst := by
    change (1 : ℚ) ≤ (max burst 1 : ℕ)
    exact_mod_cast le_max_right burst 1

variable {h calls mid rest : List (Call ι)} {c₀ c : Call ι}

/-- Every bucket of a run is in bounds. -/
theorem filled_before (hsorted : calls.Pairwise fun c d => c.now ≤ d.now) (hpre : h <+: calls)
    (hlast : ∀ d ∈ h, d.now ≤ t) : (RateLimiter.new rps burst).Filled t
      (run (RateLimiter.new rps burst).step [] h) := by
  have hsorted : h.Pairwise fun c d => c.now ≤ d.now := hsorted.sublist hpre.sublist
  cases h with
  | nil => exact filled_nil
  | cons d ds =>
    refine filled_run sound_new hsorted (@filled_nil ι _ _ d.now) ?_ hlast
      (hlast d List.mem_cons_self)
    intro e he
    rcases List.mem_cons.1 he with rfl | he
    · exact le_rfl
    · exact (List.pairwise_cons.1 hsorted).1 e he

omit [DecidableEq ι] in
/-- The clock has a last reading. -/
theorem exists_now_le (calls : List (Call ι)) : ∃ t, ∀ c ∈ calls, c.now ≤ t := by
  induction calls with
  | nil => exact ⟨0, by simp⟩
  | cons c calls ih =>
    obtain ⟨t, ht⟩ := ih
    refine ⟨max c.now t, fun d hd => ?_⟩
    rcases List.mem_cons.1 hd with rfl | hd
    · exact le_max_left _ _
    · exact (ht d hd).trans (le_max_right _ _)

/-- **The token bucket is fair.**  In every run with a clock that does not go back the tokens of a
client stay between zero and the burst; in a window of time a client passes at most as often as
the burst and the refill allow; a client that has waited for a token since its last call passes;
and a client passes exactly if it does without the others. -/
theorem tokenBucket_fair (hrps : 0 < rps) (hsorted : calls.Pairwise fun c d => c.now ≤ d.now) :
    (∀ h, h <+: calls → ∀ ip b,
      (run (RateLimiter.new rps burst).step [] h).get ip = some b →
        0 ≤ b.tokens ∧ b.tokens ≤ (max burst 1 : ℕ)) ∧
    (∀ ip s t, s ≤ t →
      (((RateLimiter.new rps burst).granted [] calls).countP (within ip s t) : ℚ) ≤
        (max burst 1 : ℕ) + rps * (t - s)) ∧
    (∀ h c₀ mid c rest, calls = h ++ c₀ :: mid ++ c :: rest → c₀.ip = c.ip →
      (∀ d ∈ mid, d.ip ≠ c.ip) → c₀.now + 1 / (rps : ℚ) ≤ c.now →
        (RateLimiter.new rps burst).decision (h ++ c₀ :: mid) c = true) ∧
    ∀ h c rest, calls = h ++ c :: rest → (RateLimiter.new rps burst).decision h c =
      (RateLimiter.new rps burst).decision (h.filter fun d => d.ip = c.ip) c := by
  refine ⟨?_, ?_, ?_, ?_⟩
  · intro h hpre ip b hb
    obtain ⟨t, hlast⟩ := exists_now_le h
    obtain ⟨h₀, h₁, -⟩ := filled_before hsorted hpre hlast ip b hb
    exact ⟨h₀, h₁⟩
  · intro ip s t hst
    cases calls with
    | nil =>
      exact countP_window_le sound_new hsorted (@filled_nil ι _ _ s) (by simp) le_rfl hst
    | cons c calls =>
      refine countP_window_le sound_new hsorted (@filled_nil ι _ _ (min s c.now)) ?_
        (min_le_left _ _) hst
      intro d hd
      refine (min_le_right _ _).trans ?_
      rcases List.mem_cons.1 hd with rfl | hd
      · exact le_rfl
      · exact (List.pairwise_cons.1 hsorted).1 d hd
  · rintro h c₀ mid c rest rfl hip hmid hwait
    have hpre : h <+: h ++ c₀ :: mid ++ c :: rest := by
      rw [List.append_assoc]
      exact List.prefix_append _ _
    have hlast : ∀ d ∈ h, d.now ≤ c₀.now := by
      intro d hd
      rw [List.append_assoc, List.pairwise_append] at hsorted
      exact hsorted.2.2 d hd c₀ (by simp)
    have hfilled := (filled_before hsorted hpre hlast).step (@sound_new rps burst) (le_refl c₀.now)
    obtain ⟨tokens, hget, -⟩ := @get_step_self ι _ (RateLimiter.new rps burst)
      (run (RateLimiter.new rps burst).step [] h) c₀
    obtain ⟨htokens, -⟩ := hfilled c₀.ip _ hget
    unfold decision
    rw [run_append, run_cons]
    refine allow_of_spaced sound_new (Nat.cast_pos.2 hrps) ?_ htokens rfl hwait
    rw [get_run_of_ne hmid, ← hip]
    exact hget
  · rintro h c rest -
    exact (allow_congr (get_run_filter c.ip h [])).1

end New

end RateLimiter

namespace Sample

/-- Client `1` calls three times and client `2` once. -/
def bucketCalls : List (RateLimiter.Call ℕ) := [⟨1, 0⟩, ⟨2, 0⟩, ⟨1, 1 / 2⟩, ⟨1, 3 / 2⟩]

/-- The third call of client `1` waits for a token, and client `2` is not noticed. -/
theorem bucketCalls_fair :
    bucketCalls.Pairwise (fun c d => c.now ≤ d.now) ∧
    (((RateLimiter.new 1 1).granted [] bucketCalls).countP (RateLimiter.within 1 0 1) : ℚ) ≤ 2 ∧
    (RateLimiter.new 1 1).decision [⟨1, 0⟩, ⟨2, 0⟩, ⟨1, 1 / 2⟩] ⟨1, 3 / 2⟩ = true ∧
    (RateLimiter.new 1 1).decision [⟨1, 0⟩, ⟨2, 0⟩] ⟨1, 1 / 2⟩ =
      (RateLimiter.new 1 1).decision [⟨1, 0⟩] ⟨1, 1 / 2⟩ := by
  have hsorted : bucketCalls.Pairwise fun c d => c.now ≤ d.now := by decide +kernel
  obtain ⟨-, hwindow, hspaced, halone⟩ :=
    @RateLimiter.tokenBucket_fair ℕ _ 1 1 bucketCalls one_pos hsorted
  refine ⟨hsorted, ?_, ?_, ?_⟩
  · have h := hwindow 1 0 1 zero_le_one
    norm_num at h
    exact_mod_cast h
  · exact hspaced [⟨1, 0⟩, ⟨2, 0⟩] ⟨1, 1 / 2⟩ [] ⟨1, 3 / 2⟩ [] rfl rfl (by simp) (by norm_num)
  · exact halone [⟨1, 0⟩, ⟨2, 0⟩] ⟨1, 1 / 2⟩ [⟨1, 3 / 2⟩] rfl

end Sample

end Lumina
