import Lumina.Api.AdminKey
import Lumina.Api.Sweep
import Lumina.Model.Server
import Lumina.Trace.Budget

/-!
# The layers let the handlers alone

Over any run of requests, the handlers do what they would do on a server without layers that gets
only the requests that the limiter lets through; every other request is answered with `429`, and
which ones these are does not depend on what the handlers do (`server_transparent`).  In a window
of time a client gets the burst and what the rate allows, and at most one more burst for each hour,
because of the sweeps (`server_window`).

## Main definitions

* `ApiProcess.admitted` : the requests of a run that reach the router.
* `ApiProcess.bare` : the server without layers.
-/

namespace Lumina

open Lumina.Trace

/-! ### Routes -/

/-- A path that no layer is around is not found. -/
theorem parseRequest_of_no_route {req : Request} (h : req.route = none)
    (hoptions : req.method ≠ .options) (X : Extract) :
    parseRequest X req = .answered .notFound := by
  rw [Request.route, if_neg hoptions] at h
  by_cases hempty : "" ∈ req.path
  · rw [parseRequest, if_neg hoptions, if_pos hempty]
  · rw [if_neg hempty] at h
    rw [parseRequest, if_neg hoptions, if_neg hempty]
    -- every path that the router knows has layers around it
    split
    all_goals first
      | rfl
      | rename_i hpath
        simp only [hpath, matchedPath, reduceCtorEq] at h

/-- **What has no route is answered by the router**, which reads and writes nothing. -/
theorem serve_of_no_route {req : Request} (h : req.route = none) (srv : ApiServer) (X : Extract)
    (env : RequestEnv) (s : Store) :
    ∃ resp, (req.method = .options ∨ resp.status = 404) ∧
      serve srv X env req s = (.ret resp, s) := by
  have hanswered : ∀ resp : Response, parseRequest X req = .answered resp →
      serve srv X env req s =
        (.ret (if req.method = .head then { resp with body := .empty } else resp), s) := by
    intro resp hparse
    unfold serve handleRequest
    rw [hparse]
    rfl
  by_cases hoptions : req.method = .options
  · exact ⟨_, .inl hoptions, hanswered ⟨200, .empty⟩ (by rw [parseRequest, if_pos hoptions])⟩
  · refine ⟨_, .inr ?_, hanswered _ (parseRequest_of_no_route h hoptions X)⟩
    split_ifs <;> rfl

/-- The request goes through the layers. -/
def ServerCall.routed (call : ServerCall) : Bool := call.req.route.isSome

namespace ApiProcess

/-! ### The limiter -/

/-- Whether a request reaches the router, and the buckets after it. -/
def passes (limiter : RateLimiter) (call : ServerCall) (buckets : Buckets IpAddr) :
    Bool × Buckets IpAddr :=
  if call.routed then limiter.enforce call.limited buckets else (true, buckets)

/-- The buckets after a request. -/
def charge (limiter : RateLimiter) (buckets : Buckets IpAddr) (call : ServerCall) :
    Buckets IpAddr :=
  (passes limiter call buckets).2

/-- The requests that reach the router. -/
def admitted (limiter : RateLimiter) : Buckets IpAddr → List ServerCall → List ServerCall
  | _, [] => []
  | buckets, call :: calls =>
    if (passes limiter call buckets).1 then
      call :: admitted limiter (charge limiter buckets call) calls
    else admitted limiter (charge limiter buckets call) calls

/-- What the limiter sees of some requests. -/
def limitedOf (calls : List ServerCall) : List (RateLimiter.Request IpAddr) :=
  (calls.filter (·.routed)).map (·.limited)

section Limiter

variable {limiter : RateLimiter} {buckets : Buckets IpAddr} {call : ServerCall}
  {calls : List ServerCall}

theorem admitted_snoc : admitted limiter buckets (calls ++ [call]) =
    admitted limiter buckets calls ++
      if (passes limiter call (run (charge limiter) buckets calls)).1 then [call] else [] := by
  induction calls generalizing buckets with
  | nil => rfl
  | cons c calls ih =>
    rw [List.cons_append, admitted, admitted, run_cons, ih]
    split_ifs <;> rfl

/-- The limiter does not notice what has no route. -/
theorem run_charge : run (charge limiter) buckets calls =
    run limiter.serve buckets (limitedOf calls) := by
  induction calls generalizing buckets with
  | nil => rfl
  | cons c calls ih =>
    rw [run_cons, ih, limitedOf, limitedOf, List.filter_cons, charge, passes]
    cases c.routed <;> rfl

/-- The limiter refuses a request after some others. -/
def refused (limiter : RateLimiter) (history : List ServerCall) (call : ServerCall) : Bool :=
  call.routed && !limiter.answered (limitedOf history) call.limited

theorem passes_eq : (passes limiter call (run (charge limiter) [] calls)).1 =
    !refused limiter calls call := by
  rw [run_charge, passes, refused]
  cases call.routed with
  | true => exact (Bool.not_not _).symm
  | false => rfl

end Limiter

/-! ### The handlers -/

section Handlers

variable (srv : ApiServer) (X : Extract)

/-- The server without layers. -/
def bare (s : Store) (call : ServerCall) : Store := (serve srv X call.env call.req s).2

variable {srv X} {limiter : RateLimiter} {s : ApiProcess} {call : ServerCall}
  {calls : List ServerCall}

/-- What the layers make of the handler. -/
theorem respond_cases : (s.step srv X limiter call).buckets = charge limiter s.buckets call ∧
    (((passes limiter call s.buckets).1 = true ∧
        (s.respond srv X limiter call).1 = (serve srv X call.env call.req s.store).1 ∧
        (s.step srv X limiter call).store = bare srv X s.store call) ∨
      ((passes limiter call s.buckets).1 = false ∧
        (s.respond srv X limiter call).1 = .ret tooManyRequests ∧
        (s.step srv X limiter call).store = s.store)) := by
  unfold step respond charge passes ServerCall.routed bare
  cases call.req.route with
  | none => exact ⟨rfl, .inl ⟨rfl, rfl, rfl⟩⟩
  | some route =>
    simp only [Option.isSome_some, if_true]
    unfold enforced
    generalize limiter.enforce call.limited s.buckets = r
    obtain ⟨allowed, buckets⟩ := r
    cases allowed with
    | true =>
      generalize serve srv X call.env call.req s.store = answered
      obtain ⟨answer, store⟩ := answered
      cases answer <;> exact ⟨rfl, .inl ⟨rfl, rfl, rfl⟩⟩
    | false => exact ⟨rfl, .inr ⟨rfl, rfl, rfl⟩⟩

theorem run_buckets : (run (step srv X limiter) s calls).buckets =
    run (charge limiter) s.buckets calls := by
  induction calls generalizing s with
  | nil => rfl
  | cons c calls ih => rw [run_cons, run_cons, ih, respond_cases.1]

theorem run_store : (run (step srv X limiter) s calls).store =
    run (bare srv X) s.store (admitted limiter s.buckets calls) := by
  induction calls generalizing s with
  | nil => rfl
  | cons c calls ih =>
    obtain ⟨hbuckets, ⟨hpass, -, hstore⟩ | ⟨hpass, -, hstore⟩⟩ :=
      @respond_cases srv X limiter s c
    · rw [run_cons, ih, hbuckets, hstore, admitted, if_pos hpass, run_cons]
    · rw [run_cons, ih, hbuckets, hstore, admitted, if_neg (by simp [hpass])]

end Handlers

/-- **The layers are transparent.**  The handlers do what they would do without layers, on the
requests that the limiter lets through.  A request that it refuses is answered with `429`, and a
request without a route, which is never refused, is answered by the router and changes nothing. -/
theorem server_transparent (srv : ApiServer) (X : Extract) (limiter : RateLimiter) (store : Store)
    (calls : List ServerCall) (call : ServerCall) :
    (run (step srv X limiter) (start store) calls).store =
      run (bare srv X) store (admitted limiter [] calls) ∧
    admitted limiter [] (calls ++ [call]) =
      admitted limiter [] calls ++ (if refused limiter calls call then [] else [call]) ∧
    ((run (step srv X limiter) (start store) calls).respond srv X limiter call).1 =
      (if refused limiter calls call then .ret tooManyRequests
        else (serve srv X call.env call.req
          (run (bare srv X) store (admitted limiter [] calls))).1) ∧
    (call.req.route = none → ∃ resp, (call.req.method = .options ∨ resp.status = 404) ∧
      (run (step srv X limiter) (start store) calls).respond srv X limiter call =
        (.ret resp, run (step srv X limiter) (start store) calls)) := by
  have hstore := @run_store srv X limiter (start store) calls
  have hbuckets : (run (step srv X limiter) (start store) calls).buckets =
      run (charge limiter) [] calls := run_buckets
  refine ⟨hstore, ?_, ?_, ?_⟩
  · rw [admitted_snoc, passes_eq]
    cases refused limiter calls call <;> rfl
  · have hcases := (@respond_cases srv X limiter (run (step srv X limiter) (start store) calls)
      call).2
    rw [hbuckets, hstore, passes_eq] at hcases
    rcases hcases with ⟨hpass, hanswer, -⟩ | ⟨hpass, hanswer, -⟩
    · rw [if_neg (by simpa using hpass)]
      exact hanswer
    · rw [if_pos (by simpa using hpass)]
      exact hanswer
  · intro hroute
    generalize run (step srv X limiter) (start store) calls = s
    obtain ⟨resp, hresp, hserve⟩ := serve_of_no_route hroute srv X call.env s.store
    refine ⟨resp, hresp, ?_⟩
    unfold respond
    rw [hroute]
    dsimp only
    rw [hserve]

/-! ### Windows -/

section Windows

variable {limiter : RateLimiter} {buckets : Buckets IpAddr} {call : ServerCall}
  {calls : List ServerCall} {ip : IpAddr} {now now' t : ℚ}

/-- The limiter that also gains a burst in an hour, which is what the sweeps may add. -/
def hourly (limiter : RateLimiter) : RateLimiter :=
  { limiter with rps := limiter.rps + limiter.burst / 3600 }

theorem hourly_sound (hs : limiter.Sound) : (hourly limiter).Sound where
  rps := add_nonneg hs.rps (div_nonneg (zero_le_one.trans hs.burst) (by norm_num))
  burst := hs.burst

/-- A sweep takes nothing from a client, if the hour would have filled its bucket. -/
theorem hourly_sweep (hs : limiter.Sound) (hnodup : buckets.clients.Nodup)
    (h : limiter.Filled now buckets) (hle : now' ≤ now) :
    (hourly limiter).level ip now (RateLimiter.sweepIfLarge now' buckets) =
      (hourly limiter).level ip now buckets := by
  rcases @RateLimiter.get_sweepIfLarge _ _ buckets ip now' hnodup with
    hsame | ⟨b, hb, hidle, hnone⟩
  · unfold RateLimiter.level RateLimiter.entry
    rw [hsame]
  · obtain ⟨htokens, -, -⟩ := h ip b hb
    have hhour : (hourly limiter).burst ≤ 3600 * (hourly limiter).rps := by
      have hrps := hs.rps
      change limiter.burst ≤ 3600 * (limiter.rps + limiter.burst / 3600)
      linarith
    have hold : 3600 ≤ now - b.lastRefill := by
      rcases le_max_iff.1 hidle with hneg | hpos
      · norm_num at hneg
      · linarith
    rw [RateLimiter.level_of_none hnone,
      RateLimiter.level_of_idle (hourly_sound hs) hhour hb htokens hold]

theorem le_hourly (hs : limiter.Sound) (h : limiter.Filled now buckets) :
    limiter.level ip now buckets ≤ (hourly limiter).level ip now buckets := by
  cases hb : buckets.get ip with
  | none =>
    rw [RateLimiter.level_of_none hb, RateLimiter.level_of_none hb]
    exact le_rfl
  | some b =>
    obtain ⟨-, -, hlast⟩ := h ip b hb
    rw [RateLimiter.level_of_get hb hlast, RateLimiter.level_of_get hb hlast]
    refine min_le_min_right _ (add_le_add le_rfl ?_)
    refine mul_le_mul_of_nonneg_left ?_ (sub_nonneg.2 hlast)
    exact le_add_of_nonneg_right (div_nonneg (zero_le_one.trans hs.burst) (by norm_num))

/-- A call that passes is paid for. -/
theorem hourly_step {c : RateLimiter.Call IpAddr} (hs : limiter.Sound)
    (h : limiter.Filled c.now buckets) :
    (if c.ip = ip ∧ (limiter.allow c buckets).1 = true then 1 else 0) +
        (hourly limiter).level ip c.now (limiter.step buckets c) ≤
      (hourly limiter).level ip c.now buckets := by
  by_cases hip : ip = c.ip
  · subst hip
    have hle : limiter.level c.ip c.now buckets ≤ (hourly limiter).level c.ip c.now buckets :=
      le_hourly hs h
    have hself := RateLimiter.level_step_self hs h
    -- what was touched just now has the same tokens at any rate
    have hsame : (hourly limiter).level c.ip c.now (limiter.step buckets c) =
        limiter.level c.ip c.now (limiter.step buckets c) := by
      obtain ⟨tokens, hget, -⟩ := @RateLimiter.get_step_self _ _ limiter buckets c
      rw [RateLimiter.level_of_get hget le_rfl, RateLimiter.level_of_get hget le_rfl, sub_self,
        zero_mul, zero_mul]
      rfl
    rw [hsame, hself]
    simp only [true_and]
    linarith
  · have hsame : (hourly limiter).level ip c.now (limiter.step buckets c) =
        (hourly limiter).level ip c.now buckets := by
      unfold RateLimiter.level RateLimiter.entry
      rw [RateLimiter.get_step_of_ne hip]
    rw [if_neg fun hc => hip hc.1.symm, hsame, zero_add]

/-- The request of a client takes a token. -/
def took (limiter : RateLimiter) (ip : IpAddr) (buckets : Buckets IpAddr) (call : ServerCall) : ℚ :=
  if call.routed = true ∧ call.ip = ip ∧ (passes limiter call buckets).1 = true then 1 else 0

/-- The buckets at a time. -/
def Kept (limiter : RateLimiter) (now : ℚ) (buckets : Buckets IpAddr) : Prop :=
  buckets.clients.Nodup ∧ limiter.Filled now buckets

theorem Kept.sweep (h : Kept limiter now buckets) :
    Kept limiter now (RateLimiter.sweepIfLarge now' buckets) := by
  refine ⟨RateLimiter.nodup_sweepIfLarge h.1, fun ip b hb => ?_⟩
  have hmem := RateLimiter.sweepIfLarge_sublist.subset (Buckets.mem_of_get hb)
  exact h.2 ip b (Buckets.get_of_mem h.1 hmem)

theorem charge_eq (hrps : 0 < limiter.rps) (hrouted : call.routed = true) :
    charge limiter buckets call =
      limiter.step (RateLimiter.sweepIfLarge call.swept buckets) ⟨call.ip, call.now⟩ ∧
    (passes limiter call buckets).1 =
      (limiter.allow ⟨call.ip, call.now⟩ (RateLimiter.sweepIfLarge call.swept buckets)).1 := by
  rw [charge, passes, if_pos hrouted, RateLimiter.enforce_eq hrps]
  exact ⟨rfl, rfl⟩

/-- **The tokens of a client pay for its requests.** -/
theorem budget (hs : limiter.Sound) (hrps : 0 < limiter.rps) (ip : IpAddr) :
    Budget (charge limiter) (·.now) (took limiter ip) (fun call => call.swept ≤ call.now)
      (Kept limiter) (fun buckets now => (hourly limiter).level ip now buckets)
      (hourly limiter).rps limiter.burst where
  later h hle := ⟨h.1, h.2.mono hle⟩
  nonneg h := RateLimiter.level_nonneg (hourly_sound hs) h.2
  le_cap _ _ := RateLimiter.level_le_burst
  grows h hle := RateLimiter.level_le_add (hourly_sound hs) h.2 hle
  keeps := by
    intro buckets call hswept h
    cases hrouted : call.routed with
    | true =>
      rw [(charge_eq hrps hrouted).1]
      exact ⟨RateLimiter.nodup_step h.sweep.1, h.sweep.2.step hs le_rfl⟩
    | false =>
      rw [charge, passes, if_neg (by simp [hrouted])]
      exact h
  pays := by
    intro buckets call hswept h
    cases hrouted : call.routed with
    | true =>
      obtain ⟨hcharge, hpasses⟩ := @charge_eq _ buckets _ hrps hrouted
      have hstep := @hourly_step _ _ ip ⟨call.ip, call.now⟩ hs
        (@Kept.sweep _ _ _ call.swept h).2
      rw [hcharge, took, hrouted, hpasses]
      rw [hourly_sweep hs h.1 h.2 hswept] at hstep
      simpa using hstep
    | false =>
      rw [charge, passes, if_neg (by simp [hrouted]), took, if_neg (by simp [hrouted]), zero_add]

/-- What passes is what pays. -/
theorem countP_admitted {p : ℚ → Prop} [DecidablePred p] :
    (((admitted limiter buckets calls).countP fun c => c.routed && c.ip = ip && p c.now : ℕ) : ℚ) =
      total (charge limiter) (during (·.now) (took limiter ip) p) buckets calls := by
  induction calls generalizing buckets with
  | nil => rfl
  | cons c calls ih =>
    rw [total, ← ih, admitted, during]
    by_cases hpass : (passes limiter c buckets).1 = true
    · have htook : took limiter ip buckets c = if c.routed = true ∧ c.ip = ip then 1 else 0 := by
        simp [took, hpass]
      rw [if_pos hpass, htook, List.countP_cons, Nat.cast_add, add_comm]
      congr 1
      by_cases hp : p c.now <;> cases c.routed <;> by_cases hip : c.ip = ip <;> simp [hp, hip]
    · have htook : took limiter ip buckets c = 0 := if_neg fun h => hpass h.2.2
      rw [if_neg hpass, htook, ite_self, zero_add]

/-- What has no route may be left out. -/
theorem filter_admitted : (admitted limiter buckets calls).filter (·.routed) =
    admitted limiter buckets (calls.filter (·.routed)) := by
  induction calls generalizing buckets with
  | nil => rfl
  | cons c calls ih =>
    cases hc : c.routed with
    | true =>
      rw [List.filter_cons, if_pos hc, admitted, admitted, ← ih]
      split_ifs
      · rw [List.filter_cons, if_pos hc]
      · rfl
    | false =>
      have hpass : passes limiter c buckets = (true, buckets) := if_neg (by simp [hc])
      rw [List.filter_cons, if_neg (by simp [hc]), admitted, hpass, if_pos rfl, List.filter_cons,
        if_neg (by simp [hc]), ih, charge, hpass]

end Windows

/-- The answers of a run. -/
def answers (srv : ApiServer) (X : Extract) (limiter : RateLimiter) :
    ApiProcess → List ServerCall → List (ServerCall × Outcome Error Response)
  | _, [] => []
  | s, call :: calls =>
    (call, (s.respond srv X limiter call).1) ::
      answers srv X limiter (s.step srv X limiter call) calls

/-- The answer is `429`. -/
def isTooMany : Outcome Error Response → Bool
  | .ret resp => resp.status = 429
  | _ => false

theorem countP_answers_le {srv : ApiServer} {X : Extract} {limiter : RateLimiter} {s : ApiProcess}
    {calls : List ServerCall} (p : ServerCall → Bool) :
    (answers srv X limiter s calls).countP (fun a => p a.1 && !isTooMany a.2) ≤
      (admitted limiter s.buckets calls).countP p := by
  induction calls generalizing s with
  | nil => exact le_rfl
  | cons c calls ih =>
    have hrest := @ih (s.step srv X limiter c)
    obtain ⟨hbuckets, ⟨hpass, -, -⟩ | ⟨hpass, hanswer, -⟩⟩ := @respond_cases srv X limiter s c
    · rw [hbuckets] at hrest
      rw [answers, admitted, if_pos hpass, List.countP_cons, List.countP_cons]
      refine add_le_add hrest ?_
      cases p c with
      | true => exact (ite_le_sup ..).trans (by simp)
      | false => simp
    · rw [hbuckets] at hrest
      rw [answers, admitted, if_neg (by simp [hpass]), List.countP_cons_of_neg]
      · exact hrest
      · simp [hanswer, isTooMany, tooManyRequests]

/-- What the order of the readings says of the requests. -/
theorem readings_sorted {calls : List ServerCall} (hin : RateLimiter.InOrder (limitedOf calls)) :
    (∀ c ∈ calls.filter (·.routed), c.swept ≤ c.now) ∧
      (calls.filter (·.routed)).Pairwise fun c d => c.now ≤ d.now := by
  unfold RateLimiter.InOrder RateLimiter.readings limitedOf at hin
  rw [List.flatMap_map, List.pairwise_flatMap] at hin
  constructor
  · intro c hc
    exact (List.pairwise_cons.1 (hin.1 c hc)).1 c.now (by simp [ServerCall.limited])
  · refine hin.2.imp fun {c d} h => h c.now ?_ d.now ?_
    · simp [ServerCall.limited]
    · simp [ServerCall.limited]

theorem exists_le_now (s : ℚ) (calls : List ServerCall) : ∃ t ≤ s, ∀ c ∈ calls, t ≤ c.now := by
  induction calls with
  | nil => exact ⟨s, le_rfl, by simp⟩
  | cons c calls ih =>
    obtain ⟨t, hts, ht⟩ := ih
    refine ⟨min c.now t, (min_le_right _ _).trans hts, fun d hd => ?_⟩
    rcases List.mem_cons.1 hd with rfl | hd
    · exact min_le_left _ _
    · exact (min_le_right _ _).trans (ht d hd)

/-- **A window of time.**  Of the requests of a client that have a route, no more are answered
otherwise than with `429` than the burst and what the rate allows in the window, and a further
burst for each hour, because a sweep may forget a bucket that was not yet full again. -/
theorem server_window (srv : ApiServer) (X : Extract) {rps burst : ℕ} (hrps : 0 < rps)
    (store : Store) {calls : List ServerCall} (hin : RateLimiter.InOrder (limitedOf calls))
    (ip : IpAddr) {s t : ℚ} (hst : s ≤ t) :
    ((answers srv X (RateLimiter.new rps burst) (start store) calls).countP fun a =>
        (a.1.routed && a.1.ip = ip && (s ≤ a.1.now ∧ a.1.now ≤ t)) && !isTooMany a.2 : ℚ) ≤
      (max burst 1 : ℕ) + (rps + (max burst 1 : ℕ) / 3600) * (t - s) := by
  have hs : (RateLimiter.new rps burst).Sound := RateLimiter.sound_new
  have hpos : 0 < (RateLimiter.new rps burst).rps := Nat.cast_pos.2 hrps
  obtain ⟨hswept, hsorted⟩ := readings_sorted hin
  obtain ⟨now, hle, hnow⟩ := exists_le_now s (calls.filter (·.routed))
  -- only the requests with a route count, and these are the same without the others
  have hcount : (admitted (RateLimiter.new rps burst) [] calls).countP
        (fun c => c.routed && c.ip = ip && (s ≤ c.now ∧ c.now ≤ t)) =
      (admitted (RateLimiter.new rps burst) [] (calls.filter (·.routed))).countP
        fun c => c.routed && c.ip = ip && (s ≤ c.now ∧ c.now ≤ t) := by
    rw [← filter_admitted, List.countP_filter]
    refine List.countP_congr fun c _ => ?_
    cases c.routed <;> simp
  have hkept : Kept (RateLimiter.new rps burst) now [] :=
    ⟨List.nodup_nil, RateLimiter.filled_nil⟩
  have hpaid := @countP_admitted (RateLimiter.new rps burst) [] (calls.filter (·.routed)) ip
    (fun r => s ≤ r ∧ r ≤ t) _
  have hwindow := (budget hs hpos ip).total_window_le (hourly_sound hs).rps hswept hkept hsorted
    hnow hle hst
  rw [← hpaid, ← hcount] at hwindow
  exact (Nat.cast_le.2 (@countP_answers_le srv X _ (start store) calls
    fun c => c.routed && c.ip = ip && (s ≤ c.now ∧ c.now ≤ t))).trans hwindow

end ApiProcess

/-! ### A client with one token -/

namespace Sample

/-- A request for `/health`. -/
def healthCall (now : ℚ) : ServerCall :=
  ⟨⟨.get, ["health"], "", [], []⟩, requestEnv, .v4 0, now, now, 3⟩

/-- In one instant it is answered once at most. -/
theorem health_once :
    ((ApiProcess.answers adminServer extractItem (RateLimiter.new 1 1) (.start Store.empty)
        [healthCall 0, healthCall 0]).countP fun a =>
        (a.1.routed && a.1.ip = .v4 0 && (0 ≤ a.1.now ∧ a.1.now ≤ 0)) &&
          !ApiProcess.isTooMany a.2 : ℚ) ≤
      (max 1 1 : ℕ) + ((1 : ℕ) + (max 1 1 : ℕ) / 3600) * (0 - 0) :=
  ApiProcess.server_window adminServer extractItem one_pos Store.empty (by decide +kernel) (.v4 0)
    le_rfl

end Sample

end Lumina
