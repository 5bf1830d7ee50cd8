import Mathlib.Algebra.Order.Ring.Rat
import Mathlib.Data.Rat.Cast.Order

/-!
# The rate limiter

One token bucket for each client: it fills with time up to the burst, and a request takes a token
out of it or is refused.  Tokens and times are exact numbers, in tokens and seconds.

## Main definitions

* `Bucket`, `Buckets` : the buckets by client, as the list of the entries of a `HashMap`.
* `RateLimiter.new`, `RateLimiter.allow`, `sweepIfLarge`, `RateLimiter.enforce` : `ratelimit.rs`.
-/

namespace Lumina

structure Bucket where
  tokens : ℚ
  lastRefill : ℚ
  deriving DecidableEq

/-- The buckets by client. -/
abbrev Buckets (ι : Type) := List (ι × Bucket)

namespace Buckets

variable {ι : Type} [DecidableEq ι]

/-- `get`. -/
def get (buckets : Buckets ι) (ip : ι) : Option Bucket :=
  (buckets.find? fun e => e.1 = ip).map (·.2)

/-- The clients that have a bucket. -/
def clients (buckets : Buckets ι) : List ι := buckets.map (·.1)

/-- The entry of a client, new or changed. -/
def set (ip : ι) (b : Bucket) : Buckets ι → Buckets ι
  | [] => [(ip, b)]
  | e :: rest => if e.1 = ip then (ip, b) :: rest else e :: set ip b rest

variable {buckets : Buckets ι} {ip ip' : ι} {b : Bucket}

@[simp] theorem get_set_self : (buckets.set ip b).get ip = some b := by
  induction buckets with
  | nil => simp [set, get]
  | cons e rest ih =>
    unfold set
    split_ifs with h
    · simp [get]
    · unfold get at ih ⊢
      rw [List.find?_cons_of_neg (by simpa using h)]
      exact ih

theorem get_set_of_ne (h : ip' ≠ ip) : (buckets.set ip b).get ip' = buckets.get ip' := by
  induction buckets with
  | nil => simp [set, get, h.symm]
  | cons e rest ih =>
    unfold set
    split_ifs with he
    · subst he
      simp [get, h.symm]
    · unfold get at ih ⊢
      by_cases he' : e.1 = ip'
      · simp [he']
      · rw [List.find?_cons_of_neg (by simpa using he'), ih,
          List.find?_cons_of_neg (by simpa using he')]

theorem mem_of_get (h : buckets.get ip = some b) : (ip, b) ∈ buckets := by
  unfold get at h
  obtain ⟨e, he, rfl⟩ := Option.map_eq_some_iff.1 h
  obtain rfl : e.1 = ip := by simpa using List.find?_some he
  exact List.mem_of_find?_eq_some he

theorem get_eq_none_iff : buckets.get ip = none ↔ ip ∉ buckets.clients := by
  unfold get clients
  rw [Option.map_eq_none_iff, List.find?_eq_none]
  constructor
  · intro h hip
    obtain ⟨e, he, rfl⟩ := List.mem_map.1 hip
    exact h e he (decide_eq_true rfl)
  · intro h e he heq
    exact h (List.mem_map.2 ⟨e, he, of_decide_eq_true heq⟩)

/-- A client has one bucket. -/
theorem get_of_mem (hnodup : buckets.clients.Nodup) (h : (ip, b) ∈ buckets) :
    buckets.get ip = some b := by
  induction buckets with
  | nil => cases h
  | cons e rest ih =>
    rw [clients, List.map_cons, List.nodup_cons] at hnodup
    rcases List.mem_cons.1 h with rfl | h
    · simp [get]
    · have hne : e.1 ≠ ip := fun he => hnodup.1 (he ▸ List.mem_map_of_mem h)
      unfold get at ih ⊢
      rw [List.find?_cons_of_neg (by simpa using hne)]
      exact ih hnodup.2 h

theorem clients_set : (buckets.set ip b).clients =
    if ip ∈ buckets.clients then buckets.clients else buckets.clients ++ [ip] := by
  induction buckets with
  | nil => simp [set, clients]
  | cons e rest ih =>
    unfold set
    by_cases he : e.1 = ip
    · simp [he, clients]
    · rw [if_neg he]
      unfold clients at ih ⊢
      rw [List.map_cons, List.map_cons, ih]
      by_cases h : ip ∈ rest.map (·.1)
      · rw [if_pos h, if_pos (List.mem_cons_of_mem _ h)]
      · rw [if_neg h, if_neg (by simpa [Ne.symm he] using h), List.cons_append]

theorem mem_clients_set : ip' ∈ (buckets.set ip b).clients ↔ ip' = ip ∨ ip' ∈ buckets.clients := by
  rw [clients_set]
  split_ifs with h
  · exact ⟨.inr, fun h' => h'.elim (fun heq => heq ▸ h) id⟩
  · rw [List.mem_append, List.mem_singleton, or_comm]

theorem nodup_set (h : buckets.clients.Nodup) : (buckets.set ip b).clients.Nodup := by
  rw [clients_set]
  split_ifs with hip
  · exact h
  · rw [List.nodup_append]
    refine ⟨h, by simp, fun c hc d hd heq => ?_⟩
    rw [List.mem_singleton.1 hd] at heq
    exact hip (heq ▸ hc)

theorem mem_set {e : ι × Bucket} (h : e ∈ buckets.set ip b) : e = (ip, b) ∨ e ∈ buckets := by
  induction buckets with
  | nil => exact .inl (List.mem_singleton.1 h)
  | cons e' rest ih =>
    unfold set at h
    split_ifs at h
    · exact (List.mem_cons.1 h).imp_right (List.mem_cons_of_mem _)
    · rcases List.mem_cons.1 h with rfl | h
      · exact .inr List.mem_cons_self
      · exact (ih h).imp_right (List.mem_cons_of_mem _)

end Buckets

/-- The settings of the limiter. -/
structure RateLimiter where
  rps : ℚ
  burst : ℚ

/-- `RateLimiter::new`. -/
def RateLimiter.new (rps burst : ℕ) : RateLimiter := ⟨rps, (max burst 1 : ℕ)⟩

/-- `RateLimiter::enabled`. -/
def RateLimiter.enabled (limiter : RateLimiter) : Bool := 0 < limiter.rps

/-- A request of a client, with the clock reading of the limiter. -/
structure RateLimiter.Call (ι : Type) where
  ip : ι
  now : ℚ
  deriving DecidableEq

namespace RateLimiter

variable {ι : Type} [DecidableEq ι] (limiter : RateLimiter)

/-- The bucket of a client before it is refilled; a new one is full. -/
def entry (call : Call ι) (buckets : Buckets ι) : Bucket :=
  (buckets.get call.ip).getD ⟨limiter.burst, call.now⟩

/-- The tokens of a bucket after some time.  `duration_since` is zero for a time in the future. -/
def refill (now : ℚ) (b : Bucket) : ℚ :=
  min (b.tokens + max 0 (now - b.lastRefill) * limiter.rps) limiter.burst

/-- `allow`: whether the request may pass, and the buckets after it. -/
def allow (call : Call ι) (buckets : Buckets ι) : Bool × Buckets ι :=
  let tokens := limiter.refill call.now (limiter.entry call buckets)
  if 1 ≤ tokens then (true, buckets.set call.ip ⟨tokens - 1, call.now⟩)
  else (false, buckets.set call.ip ⟨tokens, call.now⟩)

omit [DecidableEq ι] in
/-- `sweep_if_large`: from ten thousand buckets on, those untouched for an hour are dropped. -/
def sweepIfLarge (now : ℚ) (buckets : Buckets ι) : Buckets ι :=
  if buckets.length < 10000 then buckets
  else buckets.filter fun e => max 0 (now - e.2.lastRefill) < 3600

/-- A request, with the clock reading of the sweep before the reading of the limiter. -/
structure Request (ι : Type) where
  swept : ℚ
  call : Call ι
  deriving DecidableEq

/-- `enforce`: whether the request is answered or refused as one too many. -/
def enforce (request : Request ι) (buckets : Buckets ι) : Bool × Buckets ι :=
  if !limiter.enabled then (true, buckets)
  else limiter.allow request.call (sweepIfLarge request.swept buckets)

end RateLimiter

/-- `IpAddr`. -/
inductive IpAddr
  | v4 (bits : BitVec 32)
  | v6 (bits : BitVec 128)
  deriving DecidableEq

end Lumina
