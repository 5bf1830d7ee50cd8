import Lumina.Api.TokenBucket
import Mathlib.Data.List.Nodup

/-!
# Sweeping idle buckets

The sweep drops a bucket that nobody touched for an hour, and the client's next request gets a
full one.  As long as an hour refills a whole bucket, this is the bucket that the client would
have had, and no run can tell the sweeping limiter from one that never sweeps.  With a larger burst
a client that other clients' traffic has swept passes too often (`sweep_invisible_iff`).

## Main definitions

* `RateLimiter.InOrder` : requests with a clock that does not go back.
* `RateLimiter.answered` : whether a request is answered after some others.
* `RateLimiter.SameLevels` : two limiters that give every client the same tokens from now on.
-/

namespace Lumina

open Lumina.Trace

namespace RateLimiter

variable {ι : Type}

/-- The clock readings of some requests. -/
def readings (requests : List (Request ι)) : List ℚ :=
  requests.flatMap fun r => [r.swept, r.call.now]

/-- The clock does not go back. -/
def InOrder (requests : List (Request ι)) : Prop := (readings requests).Pairwise (· ≤ ·)

instance (requests : List (Request ι)) : Decidable (InOrder requests) :=
  inferInstanceAs (Decidable ((readings requests).Pairwise (· ≤ ·)))

theorem readings_append (requests requests' : List (Request ι)) :
    readings (requests ++ requests') = readings requests ++ readings requests' :=
  List.flatMap_append

theorem readings_sublist {requests requests' : List (Request ι)}
    (h : requests.Sublist requests') : (readings requests).Sublist (readings requests') := by
  induction h with
  | slnil => exact List.Sublist.refl _
  | cons r _ ih => exact ih.trans (List.sublist_append_right [r.swept, r.call.now] _)
  | cons_cons r _ ih => exact List.Sublist.append_left ih [r.swept, r.call.now]

/-- A clock that stands still does not go back. -/
theorem pairwise_of_eq {l : List ℚ} {t : ℚ} (h : ∀ s ∈ l, s = t) : l.Pairwise (· ≤ ·) := by
  rw [List.eq_replicate_of_mem h]
  exact List.pairwise_replicate.2 (.inr le_rfl)

/-- The first reading may be taken twice. -/
theorem pairwise_from_first {request : Request ι} {requests : List (Request ι)}
    (h : InOrder (request :: requests)) :
    (request.swept :: readings (request :: requests)).Pairwise (· ≤ ·) := by
  refine List.pairwise_cons.2 ⟨fun t ht => ?_, h⟩
  rcases List.mem_cons.1 ht with rfl | ht
  · exact le_rfl
  · exact (List.pairwise_cons.1 h).1 t ht

variable [DecidableEq ι]

/-- The buckets after a request. -/
def serve (limiter : RateLimiter) (buckets : Buckets ι) (request : Request ι) : Buckets ι :=
  (limiter.enforce request buckets).2

/-- Whether a request is answered after the requests of a history. -/
def answered (limiter : RateLimiter) (history : List (Request ι)) (request : Request ι) : Bool :=
  (limiter.enforce request (run limiter.serve [] history)).1

variable {limiter : RateLimiter} {buckets swept unswept : Buckets ι} {request : Request ι}
  {history : List (Request ι)} {call : Call ι} {ip : ι} {b : Bucket} {now now' : ℚ}

theorem enforce_eq (h : 0 < limiter.rps) :
    limiter.enforce request buckets =
      limiter.allow request.call (sweepIfLarge request.swept buckets) := by
  simp [enforce, enabled, h]

theorem serve_eq (h : 0 < limiter.rps) :
    limiter.serve buckets request =
      limiter.step (sweepIfLarge request.swept buckets) request.call := by
  rw [serve, enforce_eq h]
  rfl

/-! ### The entries -/

/-- A call sets the entry of its client. -/
theorem step_eq_set : ∃ b, limiter.step buckets call = buckets.set call.ip b ∧
    b.lastRefill = call.now := by
  rcases limiter.allow_cases call buckets with ⟨-, heq⟩ | ⟨-, heq⟩
  · exact ⟨_, by rw [step, heq], rfl⟩
  · exact ⟨_, by rw [step, heq], rfl⟩

theorem nodup_step (h : buckets.clients.Nodup) : (limiter.step buckets call).clients.Nodup := by
  obtain ⟨b, heq, -⟩ := @step_eq_set ι _ limiter buckets call
  rw [heq]
  exact Buckets.nodup_set h

theorem mem_clients_step :
    ip ∈ (limiter.step buckets call).clients ↔ ip = call.ip ∨ ip ∈ buckets.clients := by
  obtain ⟨b, heq, -⟩ := @step_eq_set ι _ limiter buckets call
  rw [heq, Buckets.mem_clients_set]

/-- Whoever called has a bucket. -/
theorem mem_clients_run {calls : List (Call ι)}
    (h : ip ∈ buckets.clients ∨ ∃ c ∈ calls, c.ip = ip) :
    ip ∈ (run limiter.step buckets calls).clients := by
  induction calls generalizing buckets with
  | nil => exact h.resolve_right (by simp)
  | cons c calls ih =>
    refine ih ?_
    rw [mem_clients_step]
    rcases h with h | ⟨d, hd, hip⟩
    · exact .inl (.inr h)
    · rcases List.mem_cons.1 hd with rfl | hd
      · exact .inl (.inl hip.symm)
      · exact .inr ⟨d, hd, hip⟩

omit [DecidableEq ι] in
theorem sweepIfLarge_sublist : (sweepIfLarge now buckets).Sublist buckets := by
  unfold sweepIfLarge
  split_ifs
  · exact List.Sublist.refl _
  · exact List.filter_sublist

omit [DecidableEq ι] in
theorem nodup_sweepIfLarge (h : buckets.clients.Nodup) :
    (sweepIfLarge now buckets).clients.Nodup :=
  h.sublist (sweepIfLarge_sublist.map _)

/-- A bucket survives the sweep unless it was left alone for an hour. -/
theorem get_sweepIfLarge (h : buckets.clients.Nodup) :
    (sweepIfLarge now buckets).get ip = buckets.get ip ∨
      ∃ b, buckets.get ip = some b ∧ 3600 ≤ max 0 (now - b.lastRefill) ∧
        (sweepIfLarge now buckets).get ip = none := by
  cases hget : (sweepIfLarge now buckets).get ip with
  | some b =>
    have hmem := sweepIfLarge_sublist.subset (Buckets.mem_of_get hget)
    exact .inl (Buckets.get_of_mem h hmem).symm
  | none =>
    cases hb : buckets.get ip with
    | none => exact .inl rfl
    | some b =>
      refine .inr ⟨b, rfl, ?_, rfl⟩
      rw [Buckets.get_eq_none_iff] at hget
      have hmem := Buckets.mem_of_get hb
      by_contra hidle
      refine hget (List.mem_map.2 ⟨(ip, b), ?_, rfl⟩)
      unfold sweepIfLarge
      split_ifs
      · exact hmem
      · exact List.mem_filter.2 ⟨hmem, decide_eq_true (not_le.1 hidle)⟩

/-! ### An hour refills a bucket -/

/-- Buckets that give every client the same tokens from now on. -/
structure SameLevels (limiter : RateLimiter) (now : ℚ) (swept unswept : Buckets ι) : Prop where
  nodup : swept.clients.Nodup
  filled : limiter.Filled now swept
  filled' : limiter.Filled now unswept
  level : ∀ ip t, now ≤ t → limiter.level ip t swept = limiter.level ip t unswept

/-- A bucket that was left alone for an hour is full. -/
theorem level_of_idle (hs : limiter.Sound) (hhour : limiter.burst ≤ 3600 * limiter.rps)
    (hb : buckets.get ip = some b) (htokens : 0 ≤ b.tokens)
    (hidle : 3600 ≤ now - b.lastRefill) : limiter.level ip now buckets = limiter.burst := by
  rw [level_of_get hb (by linarith)]
  have hgain : 3600 * limiter.rps ≤ (now - b.lastRefill) * limiter.rps :=
    mul_le_mul_of_nonneg_right hidle hs.rps
  exact min_eq_right (by linarith)

/-- **The sweep** leaves every client its tokens. -/
theorem SameLevels.sweep (hs : limiter.Sound) (hhour : limiter.burst ≤ 3600 * limiter.rps)
    (h : limiter.SameLevels now swept unswept) (hle : now ≤ now') :
    limiter.SameLevels now' (sweepIfLarge now' swept) unswept where
  nodup := nodup_sweepIfLarge h.nodup
  filled := by
    intro ip b hb
    have hmem := sweepIfLarge_sublist.subset (Buckets.mem_of_get hb)
    exact h.filled.mono hle ip b (Buckets.get_of_mem h.nodup hmem)
  filled' := h.filled'.mono hle
  level := by
    intro ip t ht
    rw [← h.level ip t (hle.trans ht)]
    rcases @get_sweepIfLarge _ _ swept ip now' h.nodup with hsame | ⟨b, hb, hidle, hnone⟩
    · unfold RateLimiter.level entry
      rw [hsame]
    · obtain ⟨htokens, -, -⟩ := h.filled ip b hb
      have hold : 3600 ≤ now' - b.lastRefill := by
        rcases le_max_iff.1 hidle with hneg | hpos
        · norm_num at hneg
        · exact hpos
      rw [level_of_none hnone, level_of_idle hs hhour hb htokens (by linarith)]

/-- A call is decided alike on the same tokens. -/
theorem SameLevels.allow_eq (h : limiter.SameLevels now swept unswept) (hle : now ≤ call.now) :
    (limiter.allow call swept).1 = (limiter.allow call unswept).1 := by
  rw [Bool.eq_iff_iff, allow_iff, allow_iff, h.level call.ip call.now hle]

/-- **A call** leaves the same tokens in both. -/
theorem SameLevels.step (hs : limiter.Sound) (h : limiter.SameLevels now swept unswept)
    (hle : now ≤ call.now) :
    limiter.SameLevels call.now (limiter.step swept call) (limiter.step unswept call) where
  nodup := nodup_step h.nodup
  filled := h.filled.step hs hle
  filled' := h.filled'.step hs hle
  level := by
    intro ip t ht
    by_cases hip : ip = call.ip
    · subst hip
      have hlevel := h.level call.ip call.now hle
      obtain ⟨tokens, hget, htokens⟩ := @get_step_self ι _ limiter swept call
      obtain ⟨tokens', hget', htokens'⟩ := @get_step_self ι _ limiter unswept call
      have hsame : tokens = tokens' := by
        rcases htokens with ⟨hpass, rfl⟩ | ⟨hpass, rfl⟩ <;>
          rcases htokens' with ⟨hpass', rfl⟩ | ⟨hpass', rfl⟩ <;> linarith
      rw [level_of_get hget ht, level_of_get hget' ht, hsame]
    · rw [level_step_of_ne hip, level_step_of_ne hip]
      exact h.level ip t (hle.trans ht)

/-- **A run** is decided alike with and without the sweeps. -/
theorem SameLevels.enforce_eq (hs : limiter.Sound) (hrps : 0 < limiter.rps)
    (hhour : limiter.burst ≤ 3600 * limiter.rps) (h : limiter.SameLevels now swept unswept)
    (hin : (now :: readings (history ++ [request])).Pairwise (· ≤ ·)) :
    (limiter.enforce request (run limiter.serve swept history)).1 =
      (limiter.allow request.call (run limiter.step unswept (history.map (·.call)))).1 := by
  induction history generalizing now swept unswept with
  | nil =>
    obtain ⟨hnow, hrest⟩ := List.pairwise_cons.1 hin
    have hle : request.swept ≤ request.call.now :=
      (List.pairwise_cons.1 hrest).1 _ List.mem_cons_self
    rw [run_nil, List.map_nil, run_nil, RateLimiter.enforce_eq hrps]
    exact (h.sweep hs hhour (hnow _ List.mem_cons_self)).allow_eq hle
  | cons r history ih =>
    obtain ⟨hnow, hrest⟩ := List.pairwise_cons.1 hin
    obtain ⟨hswept, hcall⟩ := List.pairwise_cons.1 hrest
    have hle : r.swept ≤ r.call.now := hswept _ List.mem_cons_self
    rw [run_cons, List.map_cons, run_cons, serve_eq hrps]
    exact ih ((h.sweep hs hhour (hnow _ List.mem_cons_self)).step hs hle) hcall

theorem sameLevels_nil : limiter.SameLevels now ([] : Buckets ι) [] where
  nodup := List.nodup_nil
  filled := filled_nil
  filled' := filled_nil
  level := fun _ _ _ => rfl

/-- **The sweeps are not noticed** if an hour refills a bucket. -/
theorem answered_eq_decision (hs : limiter.Sound) (hrps : 0 < limiter.rps)
    (hhour : limiter.burst ≤ 3600 * limiter.rps) (hin : InOrder (history ++ [request])) :
    limiter.answered history request = limiter.decision (history.map (·.call)) request.call := by
  cases history with
  | nil => exact sameLevels_nil.enforce_eq hs hrps hhour (pairwise_from_first hin)
  | cons r history => exact sameLevels_nil.enforce_eq hs hrps hhour (pairwise_from_first hin)

/-! ### Buckets of one instant -/

/-- All buckets were touched at the same time. -/
def AllAt (now : ℚ) (buckets : Buckets ι) : Prop := ∀ e ∈ buckets, e.2.lastRefill = now

omit [DecidableEq ι] in
/-- Nothing is idle yet. -/
theorem AllAt.sweep_eq (h : AllAt now buckets) : sweepIfLarge now buckets = buckets := by
  unfold sweepIfLarge
  split_ifs
  · rfl
  · refine List.filter_eq_self.2 fun e he => decide_eq_true ?_
    rw [h e he, sub_self, max_self]
    norm_num

omit [DecidableEq ι] in
/-- Everything is idle after an hour. -/
theorem AllAt.sweep_eq_nil (h : AllAt now buckets) (hlarge : 10000 ≤ buckets.length)
    (hhour : now + 3600 ≤ now') : sweepIfLarge now' buckets = [] := by
  unfold sweepIfLarge
  rw [if_neg (not_lt.2 hlarge)]
  refine List.filter_eq_nil_iff.2 fun e he => ?_
  rw [h e he, decide_eq_true_iff, not_lt]
  exact (le_sub_iff_add_le'.2 hhour).trans (le_max_right _ _)

theorem AllAt.step (h : AllAt call.now buckets) : AllAt call.now (limiter.step buckets call) := by
  obtain ⟨b, heq, hlast⟩ := @step_eq_set ι _ limiter buckets call
  intro e he
  rw [heq] at he
  rcases Buckets.mem_set he with rfl | he
  · exact hlast
  · exact h e he

/-- Requests of one instant sweep nothing. -/
theorem AllAt.run (hrps : 0 < limiter.rps) (h : AllAt now buckets) {requests : List (Request ι)}
    (hnow : ∀ r ∈ requests, r.swept = now ∧ r.call.now = now) :
    run limiter.serve buckets requests = run limiter.step buckets (requests.map (·.call)) ∧
      AllAt now (run limiter.step buckets (requests.map (·.call))) := by
  induction requests generalizing buckets with
  | nil => exact ⟨rfl, h⟩
  | cons r requests ih =>
    obtain ⟨hswept, hcall⟩ := hnow r List.mem_cons_self
    rw [List.map_cons, run_cons, run_cons, serve_eq hrps, hswept, h.sweep_eq]
    subst hcall
    exact ih h.step fun r hr => hnow r (List.mem_cons_of_mem _ hr)

/-- As many calls of a client as it has tokens leave it without one. -/
theorem level_replicate_lt (hs : limiter.Sound) (n : ℕ) (h : limiter.Filled now buckets)
    (hlevel : limiter.level ip now buckets < n + 1) :
    limiter.level ip now (run limiter.step buckets (List.replicate n ⟨ip, now⟩)) < 1 := by
  induction n generalizing buckets with
  | zero => simpa using hlevel
  | succ n ih =>
    rw [List.replicate_succ, run_cons]
    refine ih (h.step hs (le_refl now)) ?_
    rw [@level_step_self ι _ limiter buckets ⟨ip, now⟩ hs h]
    rw [Nat.cast_succ] at hlevel
    rcases limiter.allow_cases ⟨ip, now⟩ buckets with ⟨-, heq⟩ | ⟨hlt, heq⟩
    · rw [heq, if_pos rfl]
      linarith
    · rw [heq, if_neg Bool.false_ne_true, sub_zero]
      exact hlt.trans_le (le_add_of_nonneg_left n.cast_nonneg)

/-- Fewer calls leave it one. -/
theorem one_le_level_replicate (hs : limiter.Sound) (n : ℕ) (h : limiter.Filled now buckets)
    (hlevel : n + 1 ≤ limiter.level ip now buckets) :
    1 ≤ limiter.level ip now (run limiter.step buckets (List.replicate n ⟨ip, now⟩)) := by
  induction n generalizing buckets with
  | zero => simpa using hlevel
  | succ n ih =>
    rw [List.replicate_succ, run_cons]
    refine ih (h.step hs (le_refl now)) ?_
    rw [@level_step_self ι _ limiter buckets ⟨ip, now⟩ hs h]
    rw [Nat.cast_succ] at hlevel
    split_ifs <;> linarith

/-- Calls of one instant keep the tokens in bounds. -/
theorem filled_at (hs : limiter.Sound) {calls : List (Call ι)} (h : limiter.Filled now buckets)
    (hnow : ∀ c ∈ calls, c.now = now) : limiter.Filled now (run limiter.step buckets calls) := by
  induction calls generalizing buckets with
  | nil => exact h
  | cons c calls ih =>
    obtain rfl := hnow c List.mem_cons_self
    exact ih (h.step hs (le_refl c.now)) fun d hd => hnow d (List.mem_cons_of_mem _ hd)

/-! ### A swept client -/

/-- A request that is read at one instant. -/
def requestAt (ip : ι) (now : ℚ) : Request ι := ⟨now, ⟨ip, now⟩⟩

/-- A client. -/
def client : IpAddr := .v4 0

/-- Enough others to make the buckets many. -/
def crowd : List IpAddr := (List.range 9999).map fun n => .v4 (BitVec.ofNat 32 (n + 1))

theorem nodup_crowd : (client :: crowd).Nodup := by
  have heq : client :: crowd = (List.range 10000).map fun n => .v4 (BitVec.ofNat 32 n) := by
    rw [List.range_succ_eq_map, List.map_cons, List.map_map]
    rfl
  rw [heq]
  refine List.Nodup.map_on (fun x hx y hy h => ?_) List.nodup_range
  rw [List.mem_range] at hx hy
  have hbits := congrArg BitVec.toNat (IpAddr.v4.inj h)
  rw [BitVec.toNat_ofNat, BitVec.toNat_ofNat] at hbits
  omega

/-- The requests of the first instant: a client spends its burst among a crowd. -/
def spent (burst : ℕ) : List (Request IpAddr) :=
  crowd.map (requestAt · 0) ++ List.replicate burst (requestAt client 0)

/-- After an hour the client spends what the hour has refilled. -/
def spentAgain (rps burst : ℕ) : List (Request IpAddr) :=
  spent burst ++ List.replicate (3600 * rps) (requestAt client 3600)

section Swept

variable {rps burst : ℕ}

theorem spent_at {r : Request IpAddr} (h : r ∈ spent burst) :
    r.swept = 0 ∧ r.call.now = 0 := by
  rcases List.mem_append.1 h with h | h
  · obtain ⟨ip, -, rfl⟩ := List.mem_map.1 h
    exact ⟨rfl, rfl⟩
  · rw [List.eq_of_mem_replicate h]
    exact ⟨rfl, rfl⟩

/-- Everybody has called. -/
theorem large_spent (hburst : 0 < burst) :
    10000 ≤ (run limiter.step [] ((spent burst).map (·.call))).length := by
  have hsubset : client :: crowd ⊆
      (run limiter.step [] ((spent burst).map (·.call))).clients := by
    intro ip hip
    refine mem_clients_run (.inr ?_)
    rcases List.mem_cons.1 hip with rfl | hip
    · refine ⟨⟨client, 0⟩, List.mem_map.2 ⟨requestAt client 0, ?_, rfl⟩, rfl⟩
      exact List.mem_append_right _ (List.mem_replicate.2 ⟨hburst.ne', rfl⟩)
    · refine ⟨⟨ip, 0⟩, List.mem_map.2 ⟨requestAt ip 0, ?_, rfl⟩, rfl⟩
      exact List.mem_append_left _ (List.mem_map.2 ⟨ip, hip, rfl⟩)
  have hlength := nodup_crowd.length_le_of_subset hsubset
  rw [List.length_cons, crowd, List.length_map, List.length_range, Buckets.clients,
    List.length_map] at hlength
  exact hlength

theorem filled_spent : (RateLimiter.new rps burst).Filled 0
    (run (RateLimiter.new rps burst).step [] ((spent burst).map (·.call))) := by
  refine filled_at sound_new filled_nil fun c hc => ?_
  obtain ⟨r, hr, rfl⟩ := List.mem_map.1 hc
  exact (spent_at hr).2

/-- Less than a token is left of the client's burst. -/
theorem level_spent (hburst : 0 < burst) : (RateLimiter.new rps burst).level client 0
    (run (RateLimiter.new rps burst).step [] ((spent burst).map (·.call))) < 1 := by
  rw [spent, List.map_append, run_append, List.map_replicate]
  refine level_replicate_lt sound_new burst (filled_at sound_new filled_nil ?_) ?_
  · intro c hc
    obtain ⟨r, hr, rfl⟩ := List.mem_map.1 hc
    obtain ⟨ip, -, rfl⟩ := List.mem_map.1 hr
    rfl
  · refine level_le_burst.trans_lt ?_
    rw [RateLimiter.new, max_eq_left hburst]
    exact lt_add_one _

/-- The limiter that never sweeps gives no more than the hour has refilled. -/
theorem decision_spentAgain (hburst : 0 < burst) :
    (RateLimiter.new rps burst).decision ((spentAgain rps burst).map (·.call))
      (requestAt client 3600).call = false := by
  have hfilled := @filled_spent rps burst
  have hhour : (0 : ℚ) ≤ 3600 := by norm_num
  have hgain := @level_le_add _ _ _ _ client _ _ (@sound_new rps burst) hfilled hhour
  have hspent := @level_spent rps burst hburst
  have hlevel : (RateLimiter.new rps burst).level client 3600
      (run (RateLimiter.new rps burst).step [] ((spent burst).map (·.call))) <
        (3600 * rps : ℕ) + 1 := by
    have hrps : (RateLimiter.new rps burst).rps = rps := rfl
    rw [hrps] at hgain
    push_cast
    linarith
  rw [Bool.eq_false_iff, decision, Ne, allow_iff, not_le, spentAgain, List.map_append, run_append,
    List.map_replicate]
  exact level_replicate_lt sound_new _ (hfilled.mono hhour) hlevel

/-- The first request after the hour finds everybody swept. -/
theorem sweep_spent (hrps : 0 < rps) (hburst : 0 < burst) :
    sweepIfLarge 3600 (run (RateLimiter.new rps burst).serve [] (spent burst)) = [] := by
  have hpos : 0 < (RateLimiter.new rps burst).rps := Nat.cast_pos.2 hrps
  have hempty : AllAt 0 ([] : Buckets IpAddr) := fun _ he => nomatch he
  obtain ⟨hrun, hall⟩ := hempty.run hpos fun r hr => @spent_at burst r hr
  rw [hrun]
  exact hall.sweep_eq_nil (large_spent hburst) (by norm_num)

/-- The limiter that swept the client gives the burst once more. -/
theorem answered_spentAgain (hrps : 0 < rps) (hburst : 3600 * rps < burst) :
    (RateLimiter.new rps burst).answered (spentAgain rps burst) (requestAt client 3600) = true := by
  have hpos : 0 < (RateLimiter.new rps burst).rps := Nat.cast_pos.2 hrps
  have hempty : AllAt 3600 ([] : Buckets IpAddr) := fun _ he => nomatch he
  obtain ⟨n, hn⟩ : ∃ n, 3600 * rps = n + 1 := ⟨3600 * rps - 1, by omega⟩
  -- the first request after the hour finds its bucket swept
  have hfirst : run (RateLimiter.new rps burst).serve [] (spentAgain rps burst) =
      run (RateLimiter.new rps burst).serve ((RateLimiter.new rps burst).step []
        ⟨client, 3600⟩) (List.replicate n (requestAt client 3600)) := by
    rw [spentAgain, run_append, hn, List.replicate_succ, run_cons, serve_eq hpos]
    change run _ ((RateLimiter.new rps burst).step (sweepIfLarge 3600 _) _) _ = _
    rw [sweep_spent hrps (by omega)]
    rfl
  have hafter : AllAt 3600 ((RateLimiter.new rps burst).step [] ⟨client, 3600⟩) :=
    AllAt.step hempty
  obtain ⟨hrest, hall'⟩ := hafter.run hpos
    fun r (hr : r ∈ List.replicate n (requestAt client 3600)) =>
      List.eq_of_mem_replicate hr ▸ ⟨rfl, rfl⟩
  rw [answered, enforce_eq hpos, hfirst, hrest]
  change ((RateLimiter.new rps burst).allow _ (sweepIfLarge 3600 _)).1 = true
  rw [hall'.sweep_eq, allow_iff, List.map_replicate, ← run_cons]
  refine one_le_level_replicate sound_new (n + 1) filled_nil ?_
  rw [level_of_none rfl]
  change ((n + 1 : ℕ) : ℚ) + 1 ≤ (max burst 1 : ℕ)
  exact_mod_cast (by omega : n + 1 + 1 ≤ max burst 1)

theorem inOrder_spentAgain : InOrder (spentAgain rps burst ++ [requestAt client 3600]) := by
  have hfirst : ∀ t ∈ readings (spent burst), t = 0 := by
    intro t ht
    obtain ⟨r, hr, ht⟩ := List.mem_flatMap.1 ht
    obtain ⟨hswept, hcall⟩ := spent_at hr
    simpa [hswept, hcall] using ht
  have hsecond : ∀ t ∈ readings (List.replicate (3600 * rps) (requestAt client 3600) ++
      [requestAt client 3600]), t = 3600 := by
    intro t ht
    obtain ⟨r, hr, ht⟩ := List.mem_flatMap.1 ht
    rw [← List.replicate_succ'] at hr
    rw [List.eq_of_mem_replicate hr] at ht
    simpa [requestAt] using ht
  rw [InOrder, spentAgain, List.append_assoc, readings_append, List.pairwise_append]
  refine ⟨pairwise_of_eq hfirst, pairwise_of_eq hsecond, fun s hs t ht => ?_⟩
  rw [hfirst s hs, hsecond t ht]
  norm_num

/-- **The sweeps are not noticed, and a client does not notice the others, exactly if an hour
refills the burst.** -/
theorem sweep_invisible_iff (hrps : 1 ≤ rps) :
    ((∀ (history : List (Request IpAddr)) request, InOrder (history ++ [request]) →
      (RateLimiter.new rps burst).answered history request =
        (RateLimiter.new rps burst).decision (history.map (·.call)) request.call) ∧
    ∀ (history : List (Request IpAddr)) request, InOrder (history ++ [request]) →
      (RateLimiter.new rps burst).answered history request =
        (RateLimiter.new rps burst).answered
          (history.filter fun r => r.call.ip = request.call.ip) request) ↔
    burst ≤ 3600 * rps := by
  have hpos : 0 < (RateLimiter.new rps burst).rps := Nat.cast_pos.2 hrps
  constructor
  · rintro ⟨hsame, -⟩
    by_contra hburst
    have h := hsame _ _ (@inOrder_spentAgain rps burst)
    rw [answered_spentAgain hrps (not_le.1 hburst), decision_spentAgain (by omega)] at h
    cases h
  · intro hburst
    have hhour : (RateLimiter.new rps burst).burst ≤ 3600 * (RateLimiter.new rps burst).rps := by
      change ((max burst 1 : ℕ) : ℚ) ≤ 3600 * (rps : ℕ)
      exact_mod_cast (by omega : max burst 1 ≤ 3600 * rps)
    refine ⟨fun history request hin => answered_eq_decision sound_new hpos hhour hin, ?_⟩
    intro history request hin
    have hfilter : InOrder ((history.filter fun r => r.call.ip = request.call.ip) ++ [request]) :=
      hin.sublist (readings_sublist (List.Sublist.append_right List.filter_sublist _))
    rw [answered_eq_decision sound_new hpos hhour hin,
      answered_eq_decision sound_new hpos hhour hfilter, decision, decision,
      (allow_congr (get_run_filter request.call.ip _ _)).1, List.filter_map]
    rfl

end Swept

end RateLimiter

/-! ### A token a second and a burst of 5000 -/

namespace Sample

open RateLimiter

/-- The client's 3601st call after an hour passes, and without the sweep it would not. -/
theorem swept_client_passes :
    InOrder (spentAgain 1 5000 ++ [requestAt client 3600]) ∧
    (RateLimiter.new 1 5000).answered (spentAgain 1 5000) (requestAt client 3600) = true ∧
    (RateLimiter.new 1 5000).decision ((spentAgain 1 5000).map (·.call))
      (requestAt client 3600).call = false :=
  ⟨inOrder_spentAgain, answered_spentAgain one_pos (by norm_num),
    decision_spentAgain (by norm_num)⟩

/-- With the default burst of 40 the sweep of that client is not noticed. -/
theorem default_burst_not_noticed :
    sweepIfLarge 3600 (run (RateLimiter.new 1 40).serve [] (spent 40)) = [] ∧
      (RateLimiter.new 1 40).answered (spentAgain 1 40) (requestAt client 3600) =
        (RateLimiter.new 1 40).decision ((spentAgain 1 40).map (·.call))
          (requestAt client 3600).call :=
  ⟨sweep_spent one_pos (by norm_num),
    ((sweep_invisible_iff le_rfl).2 (by norm_num)).1 (spentAgain 1 40) _ inOrder_spentAgain⟩

end Sample

end Lumina
