import Mathlib.Data.Bool.AllAny
import Lumina.Api.Server
import Lumina.Text.Exposition

/-!
# What a scrape reads

The text at `/metrics` is read back as the counts of the answers that were given
(`scrape_exact`): for every route and class of statuses that occurred, how many there were, and for
every route the time that they took, both modulo `2 ^ 64`.  Requests without a route and requests
whose handler panics are not counted; requests that are refused are.

## Main definitions

* `Counted` : an answer that is counted.
* `Metrics.exposed` : the lines of the text as samples and comments.
-/

namespace Lumina

open Lumina.Trace

/-! ### What is counted -/

/-- An answer that is counted. -/
structure Counted where
  route : String
  status : ℕ
  latencyMs : ℕ
  deriving DecidableEq

/-- The class of a status. -/
def statusClass (status : ℕ) : String :=
  if 200 ≤ status ∧ status ≤ 299 then "2xx"
  else if 400 ≤ status ∧ status ≤ 499 then "4xx"
  else if 500 ≤ status ∧ status ≤ 599 then "5xx"
  else "other"

/-- An answer is counted if its request has a route and its handler does not panic. -/
def counted? (a : ServerCall × Outcome Error Response) : Option Counted :=
  match a.1.req.route, a.2 with
  | some route, .ret resp => some ⟨route, resp.status, a.1.latencyMs⟩
  | _, _ => none

/-- How many of some answers have a route and a class. -/
def countOf (answers : List Counted) (route cls : String) : ℕ :=
  answers.countP fun c => c.route = route && statusClass c.status = cls

/-- The time that the answers of a route took. -/
def latencyOf (answers : List Counted) (route : String) : ℕ :=
  ((answers.filter fun c => c.route = route).map (·.latencyMs)).sum

namespace Metrics

/-- The counters after some answers. -/
def recorded (m : Metrics) (answers : List Counted) : Metrics :=
  answers.foldl (fun m c => m.record c.route c.status c.latencyMs) m

theorem addU64_mod (m n : ℕ) : addU64 (m % 2 ^ 64) n = (m + n) % 2 ^ 64 := by
  unfold addU64
  omega

/-- An answer is counted in its class. -/
theorem add_mod (a b c d total status latencyMs : ℕ) :
    RouteStats.add status latencyMs
        ⟨a % 2 ^ 64, b % 2 ^ 64, c % 2 ^ 64, d % 2 ^ 64, total % 2 ^ 64⟩ =
      ⟨(a + if statusClass status = "2xx" then 1 else 0) % 2 ^ 64,
        (b + if statusClass status = "4xx" then 1 else 0) % 2 ^ 64,
        (c + if statusClass status = "5xx" then 1 else 0) % 2 ^ 64,
        (d + if statusClass status = "other" then 1 else 0) % 2 ^ 64,
        (total + latencyMs) % 2 ^ 64⟩ := by
  unfold RouteStats.add statusClass
  by_cases h2 : 200 ≤ status ∧ status ≤ 299
  · simp only [if_pos h2, addU64_mod, String.reduceEq, if_true, if_false, add_zero]
  · by_cases h4 : 400 ≤ status ∧ status ≤ 499
    · simp only [if_neg h2, if_pos h4, addU64_mod, String.reduceEq, if_true, if_false, add_zero]
    · by_cases h5 : 500 ≤ status ∧ status ≤ 599
      · simp only [if_neg h2, if_neg h4, if_pos h5, addU64_mod, String.reduceEq, if_true,
          if_false, add_zero]
      · simp only [if_neg h2, if_neg h4, if_neg h5, addU64_mod, String.reduceEq, if_true,
          if_false, add_zero]

theorem stats_recorded (answers : List Counted) (route : String) :
    (new.recorded answers).stats route =
      ⟨countOf answers route "2xx" % 2 ^ 64, countOf answers route "4xx" % 2 ^ 64,
        countOf answers route "5xx" % 2 ^ 64, countOf answers route "other" % 2 ^ 64,
        latencyOf answers route % 2 ^ 64⟩ := by
  induction answers using List.reverseRecOn with
  | nil => rfl
  | append_singleton answers c ih =>
    unfold recorded at ih ⊢
    rw [List.foldl_append, List.foldl_cons, List.foldl_nil, record]
    by_cases hroute : c.route = route
    · subst hroute
      have hlatency : latencyOf (answers ++ [c]) c.route =
          latencyOf answers c.route + c.latencyMs := by
        simp [latencyOf]
      have hcount : ∀ cls, countOf (answers ++ [c]) c.route cls =
          countOf answers c.route cls + if statusClass c.status = cls then 1 else 0 := by
        intro cls
        simp [countOf, List.countP_append, List.countP_cons]
      dsimp only
      rw [Function.update_self, ih, add_mod, hlatency]
      simp only [hcount]
    · have hlatency : latencyOf (answers ++ [c]) route = latencyOf answers route := by
        simp [latencyOf, hroute]
      have hcount : ∀ cls, countOf (answers ++ [c]) route cls = countOf answers route cls := by
        intro cls
        simp [countOf, List.countP_append, hroute]
      dsimp only
      rw [Function.update_of_ne (Ne.symm hroute), ih, hlatency]
      simp only [hcount]

theorem mem_routes_recorded {answers : List Counted} {route : String} :
    route ∈ (new.recorded answers).routes ↔ ∃ c ∈ answers, c.route = route := by
  induction answers using List.reverseRecOn with
  | nil => simp [recorded, new]
  | append_singleton answers c ih =>
    unfold recorded at ih ⊢
    rw [List.foldl_append, List.foldl_cons, List.foldl_nil, record]
    simp only [List.mem_append, List.mem_singleton, or_and_right, exists_or, exists_eq_left, ← ih]
    split_ifs with h
    · exact ⟨.inl, fun h' => h'.elim id fun heq => heq ▸ h⟩
    · rw [List.mem_append, List.mem_singleton, eq_comm]

theorem nodup_routes_recorded (answers : List Counted) : (new.recorded answers).routes.Nodup := by
  induction answers using List.reverseRecOn with
  | nil => exact List.nodup_nil
  | append_singleton answers c ih =>
    unfold recorded at ih ⊢
    rw [List.foldl_append, List.foldl_cons, List.foldl_nil, record]
    dsimp only
    split_ifs with h
    · exact ih
    · rw [← List.concat_eq_append]
      exact ih.concat h

/-! ### The text -/

/-- The sample of a count. -/
def requests (route cls : String) (count : ℕ) : Exposition.Sample :=
  ⟨"lumina_http_requests_total".toList,
    [("route".toList, route.toList), ("status".toList, cls.toList)], count⟩

/-- The sample of a time. -/
def duration (route : String) (total : ℕ) : Exposition.Sample :=
  ⟨"lumina_http_request_duration_ms_total".toList, [("route".toList, route.toList)], total⟩

theorem requestsLine_eq (route cls : String) (count : ℕ) :
    requestsLine route cls count = (requests route cls count).text := by
  have hname : "lumina_http_requests_total\x7broute=\"".toList =
      "lumina_http_requests_total".toList ++ '\x7b' :: ("route".toList ++ ['=', '"']) := by
    decide +kernel
  have hstatus : "\",status=\"".toList = '"' :: ',' :: ("status".toList ++ ['=', '"']) := by
    decide +kernel
  have hclose : "\"\x7d ".toList = ['"', '\x7d', ' '] := by decide +kernel
  have hcount : (toString count).toList = Nat.toDigits 10 count := Nat.toList_repr
  unfold requestsLine Exposition.Sample.text requests
  rw [hname, hstatus, hclose, hcount]
  simp only [Exposition.labelsText, List.append_assoc, List.cons_append, List.nil_append]

theorem durationLine_eq (route : String) (total : ℕ) :
    durationLine route total = (duration route total).text := by
  have hname : "lumina_http_request_duration_ms_total\x7broute=\"".toList =
      "lumina_http_request_duration_ms_total".toList ++
        '\x7b' :: ("route".toList ++ ['=', '"']) := by
    decide +kernel
  have hclose : "\"\x7d ".toList = ['"', '\x7d', ' '] := by decide +kernel
  have hcount : (toString total).toList = Nat.toDigits 10 total := Nat.toList_repr
  unfold durationLine Exposition.Sample.text duration
  rw [hname, hclose, hcount]
  simp only [Exposition.labelsText, List.append_assoc, List.cons_append, List.nil_append]

/-- The classes, in the order in which they are written. -/
def classNames : List String := ["2xx", "4xx", "5xx", "other"]

/-- The lines of `render`. -/
def exposed (m : Metrics) (visit : List String) : List Exposition.Line :=
  [.comment requestsHelp.toList.tail, .comment requestsType.toList.tail] ++
  (visit.flatMap fun route => ((classes (m.stats route)).filter fun c => 0 < c.2).map fun c =>
    .sample (requests route c.1 c.2)) ++
  ([.comment durationHelp.toList.tail, .comment durationType.toList.tail] ++
  visit.map fun route => .sample (duration route (m.stats route).totalLatencyMs))

theorem render_eq (m : Metrics) (visit : List String) :
    m.render visit = Exposition.write (m.exposed visit) := by
  have hcomments : ∀ text ∈ [requestsHelp, requestsType, durationHelp, durationType],
      '#' :: text.toList.tail = text.toList := by
    decide +kernel
  unfold render Exposition.write lines exposed
  congr 1
  simp only [List.map_append, List.map_cons, List.map_nil, List.map_flatMap, List.map_map,
    Function.comp_def, Exposition.Line.text, requestsLine_eq, durationLine_eq]
  rw [hcomments requestsHelp (by simp), hcomments requestsType (by simp),
    hcomments durationHelp (by simp), hcomments durationType (by simp)]

/-! ### The samples -/

/-- The samples of the text. -/
def samples (m : Metrics) (visit : List String) : List Exposition.Sample :=
  (visit.flatMap fun route => ((classes (m.stats route)).filter fun c => 0 < c.2).map fun c =>
    requests route c.1 c.2) ++
  visit.map fun route => duration route (m.stats route).totalLatencyMs

theorem filterMap_exposed (m : Metrics) (visit : List String) :
    (m.exposed visit).filterMap Exposition.Line.sample? = m.samples visit := by
  unfold exposed samples
  simp only [List.filterMap_append, List.filterMap_cons, Exposition.Line.sample?,
    List.filterMap_nil, List.nil_append, List.filterMap_flatMap, List.filterMap_map,
    Function.comp_def, List.filterMap_eq_map']

theorem requests_plain {route cls : String} {count : ℕ}
    (hroute : ∀ c ∈ route.toList, c ≠ '"' ∧ c ≠ '\n') (hcls : cls ∈ classNames) :
    (requests route cls count).Plain where
  name := by
    change ∀ c ∈ "lumina_http_requests_total".toList, _
    exact List.all_iff_forall_prop.1 (by decide +kernel)
  head := by
    change "lumina_http_requests_total".toList.head? ≠ _
    decide +kernel
  labels := List.cons_ne_nil _ _
  key := by
    intro p hp
    rcases List.mem_pair.1 hp with rfl | rfl
    · change ∀ c ∈ "route".toList, _
      exact List.all_iff_forall_prop.1 (by decide +kernel)
    · change ∀ c ∈ "status".toList, _
      exact List.all_iff_forall_prop.1 (by decide +kernel)
  value := by
    have hclasses : ∀ cls ∈ classNames, cls.toList.all (fun c => c ≠ '"' ∧ c ≠ '\n') := by
      decide +kernel
    intro p hp
    rcases List.mem_pair.1 hp with rfl | rfl
    · exact hroute
    · exact List.all_iff_forall_prop.1 (hclasses cls hcls)

theorem duration_plain {route : String} {total : ℕ}
    (hroute : ∀ c ∈ route.toList, c ≠ '"' ∧ c ≠ '\n') : (duration route total).Plain where
  name := by
    change ∀ c ∈ "lumina_http_request_duration_ms_total".toList, _
    exact List.all_iff_forall_prop.1 (by decide +kernel)
  head := by
    change "lumina_http_request_duration_ms_total".toList.head? ≠ _
    decide +kernel
  labels := List.cons_ne_nil _ _
  key := by
    intro p hp
    obtain rfl := List.mem_singleton.1 hp
    change ∀ c ∈ "route".toList, _
    exact List.all_iff_forall_prop.1 (by decide +kernel)
  value := by
    intro p hp
    obtain rfl := List.mem_singleton.1 hp
    exact hroute

theorem fst_mem_classNames {stats : RouteStats} {c : String × ℕ} (h : c ∈ classes stats) :
    c.1 ∈ classNames := by
  have hfst : (classes stats).map Prod.fst = classNames := rfl
  rw [← hfst]
  exact List.mem_map_of_mem h

theorem exposed_plain {m : Metrics} {visit : List String}
    (h : ∀ route ∈ visit, ∀ c ∈ route.toList, c ≠ '"' ∧ c ≠ '\n') :
    ∀ line ∈ m.exposed visit, line.Plain := by
  have hcomments : ∀ text ∈ [requestsHelp, requestsType, durationHelp, durationType],
      '\n' ∉ text.toList.tail := by
    decide +kernel
  intro line hline
  unfold exposed at hline
  simp only [List.mem_append, List.mem_cons, List.not_mem_nil, or_false, List.mem_flatMap,
    List.mem_map, List.mem_filter] at hline
  rcases hline with ((rfl | rfl) | ⟨route, hroute, c, ⟨hc, -⟩, rfl⟩) |
    (rfl | rfl) | ⟨route, hroute, rfl⟩
  · exact hcomments _ (by simp)
  · exact hcomments _ (by simp)
  · exact requests_plain (h route hroute) (fst_mem_classNames hc)
  · exact hcomments _ (by simp)
  · exact hcomments _ (by simp)
  · exact duration_plain (h route hroute)

/-- **The text is read back.** -/
theorem read_render {m : Metrics} {visit : List String}
    (h : ∀ route ∈ visit, ∀ c ∈ route.toList, c ≠ '"' ∧ c ≠ '\n') :
    Exposition.read (m.render visit) = some (m.samples visit) := by
  rw [render_eq, Exposition.read_write (exposed_plain h), filterMap_exposed]

end Metrics

/-- The routes have no character that ends a label. -/
theorem route_plain {req : Request} {route : String} (h : req.route = some route) :
    ∀ c ∈ route.toList, c ≠ '"' ∧ c ≠ '\n' := by
  refine List.all_iff_forall_prop.1 ?_
  unfold Request.route at h
  split_ifs at h
  unfold matchedPath at h
  split at h
  all_goals first | (obtain rfl := Option.some.inj h; decide +kernel) | cases h

/-! ### A run -/

namespace ApiProcess

variable {srv : ApiServer} {X : Extract} {limiter : RateLimiter} {s : ApiProcess}
  {call : ServerCall} {calls : List ServerCall}

/-- What a request does to the counters. -/
theorem step_metrics : (s.step srv X limiter call).metrics =
    s.metrics.recorded (counted? (call, (s.respond srv X limiter call).1)).toList := by
  unfold step respond counted?
  cases call.req.route with
  | none => rfl
  | some route =>
    dsimp only
    unfold enforced
    generalize limiter.enforce call.limited s.buckets = r
    obtain ⟨allowed, buckets⟩ := r
    cases allowed with
    | true =>
      generalize serve srv X call.env call.req s.store = answered
      obtain ⟨answer, store⟩ := answered
      cases answer <;> rfl
    | false => rfl

/-- The counted answers of a run. -/
def countedAnswers (srv : ApiServer) (X : Extract) (limiter : RateLimiter) (s : ApiProcess)
    (calls : List ServerCall) : List Counted :=
  (answers srv X limiter s calls).filterMap counted?

theorem run_metrics : (run (step srv X limiter) s calls).metrics =
    s.metrics.recorded (countedAnswers srv X limiter s calls) := by
  induction calls generalizing s with
  | nil => rfl
  | cons c calls ih =>
    rw [run_cons, ih, step_metrics, countedAnswers, countedAnswers, answers, List.filterMap_cons]
    cases counted? (c, (s.respond srv X limiter c).1) <;> rfl

/-- What is counted has a route. -/
theorem route_of_mem_countedAnswers {c : Counted} (h : c ∈ countedAnswers srv X limiter s calls) :
    ∃ req : Request, req.route = some c.route := by
  obtain ⟨a, -, ha⟩ := List.mem_filterMap.1 h
  unfold counted? at ha
  split at ha
  · next route resp hroute _ => exact ⟨a.1.req, Option.some.inj ha ▸ hroute⟩
  · cases ha

end ApiProcess

/-! ### The scrape -/

namespace Metrics

variable {m : Metrics} {visit : List String}

theorem requests_labels_injective {route route' cls cls' : String} {n n' : ℕ}
    (h : (requests route cls n).labels = (requests route' cls' n').labels) :
    route = route' ∧ cls = cls' := by
  obtain ⟨hroute, hrest⟩ := List.cons.inj h
  obtain ⟨hcls, -⟩ := List.cons.inj hrest
  exact ⟨String.toList_inj.1 (Prod.ext_iff.1 hroute).2, String.toList_inj.1 (Prod.ext_iff.1 hcls).2⟩

theorem duration_labels_injective {route route' : String} {n n' : ℕ}
    (h : (duration route n).labels = (duration route' n').labels) : route = route' := by
  obtain ⟨hroute, -⟩ := List.cons.inj h
  exact String.toList_inj.1 (Prod.ext_iff.1 hroute).2

theorem requests_labels_ne {route route' cls : String} {n n' : ℕ} :
    (requests route cls n).labels ≠ (duration route' n').labels := by
  intro h
  obtain ⟨-, hrest⟩ := List.cons.inj h
  exact List.cons_ne_nil _ _ hrest

/-- No metric is exposed twice with the same labels. -/
theorem nodup_samples (h : visit.Nodup) : ((m.samples visit).map (·.labels)).Nodup := by
  unfold samples
  rw [List.map_append, List.map_flatMap, List.map_map, List.nodup_append]
  refine ⟨List.nodup_flatMap.2 ⟨fun route _ => ?_, h.imp fun {route route'} hne => ?_⟩,
    h.map_on fun route _ route' _ heq => duration_labels_injective heq, ?_⟩
  · -- a class is written once for a route
    have hnames : (((classes (m.stats route)).filter fun c => 0 < c.2).map Prod.fst).Nodup := by
      refine List.Nodup.sublist (List.filter_sublist.map _) ?_
      change classNames.Nodup
      decide +kernel
    rw [List.map_map]
    exact (List.Nodup.of_map _ hnames).map_on fun c hc c' hc' heq =>
      List.inj_on_of_nodup_map hnames hc hc' (requests_labels_injective heq).2
  · intro labels hl hl'
    simp only [List.mem_map] at hl hl'
    obtain ⟨_, ⟨c, -, rfl⟩, rfl⟩ := hl
    obtain ⟨_, ⟨c', -, rfl⟩, heq⟩ := hl'
    exact hne (requests_labels_injective heq).1.symm
  · intro labels hl labels' hl' heq
    simp only [List.mem_flatMap, List.mem_map] at hl hl'
    obtain ⟨route, -, _, ⟨c, -, rfl⟩, rfl⟩ := hl
    obtain ⟨route', -, rfl⟩ := hl'
    exact requests_labels_ne heq

theorem mem_samples {x : Exposition.Sample} : x ∈ m.samples visit ↔
    (∃ route ∈ visit, ∃ c ∈ classes (m.stats route), 0 < c.2 ∧ requests route c.1 c.2 = x) ∨
      ∃ route ∈ visit, duration route (m.stats route).totalLatencyMs = x := by
  unfold samples
  simp only [List.mem_append, List.mem_flatMap, List.mem_map, List.mem_filter, decide_eq_true_eq,
    and_assoc]

theorem classes_recorded (answers : List Counted) (route : String) :
    classes ((new.recorded answers).stats route) =
      classNames.map fun cls => (cls, countOf answers route cls % 2 ^ 64) := by
  rw [stats_recorded]
  rfl

end Metrics

/-- What has a count has occurred. -/
theorem exists_of_countOf_pos {answers : List Counted} {route cls : String}
    (h : 0 < countOf answers route cls) : ∃ c ∈ answers, c.route = route := by
  obtain ⟨c, hc, hp⟩ := List.countP_pos_iff.1 h
  exact ⟨c, hc, of_decide_eq_true (Bool.and_eq_true_iff.1 hp).1⟩

/-- **A scrape reads what was answered.**  The text at any time of a run can be read, no labels
are in it twice, and its samples are, for every route, the number of answers of each class that
occurred, and the time that its answers took. -/
theorem scrape_exact (srv : ApiServer) (X : Extract) (limiter : RateLimiter) (store : Store)
    (calls : List ServerCall) {visit : List String}
    (hvisit : visit.Perm
      (run (ApiProcess.step srv X limiter) (.start store) calls).metrics.routes) :
    ∃ samples, Exposition.read
        ((run (ApiProcess.step srv X limiter) (.start store) calls).metrics.render visit) =
          some samples ∧
      (samples.map (·.labels)).Nodup ∧
      ∀ x, x ∈ samples ↔
        (∃ route, ∃ cls ∈ Metrics.classNames, ∃ n,
          n = countOf (ApiProcess.countedAnswers srv X limiter (.start store) calls) route cls %
            2 ^ 64 ∧ 0 < n ∧ x = Metrics.requests route cls n) ∨
        ∃ c ∈ ApiProcess.countedAnswers srv X limiter (.start store) calls,
          x = Metrics.duration c.route
            (latencyOf (ApiProcess.countedAnswers srv X limiter (.start store) calls) c.route %
              2 ^ 64) := by
  rw [ApiProcess.run_metrics] at hvisit ⊢
  change visit.Perm (Metrics.new.recorded _).routes at hvisit
  change ∃ samples, Exposition.read ((Metrics.new.recorded _).render visit) = _ ∧ _
  have hroute : ∀ c ∈ ApiProcess.countedAnswers srv X limiter (.start store) calls,
      ∃ req : Request, req.route = some c.route := fun c => ApiProcess.route_of_mem_countedAnswers
  generalize ApiProcess.countedAnswers srv X limiter (.start store) calls = answers at *
  have hmem : ∀ route, route ∈ visit ↔ ∃ c ∈ answers, c.route = route := fun route =>
    hvisit.mem_iff.trans Metrics.mem_routes_recorded
  refine ⟨(Metrics.new.recorded answers).samples visit, Metrics.read_render fun route h => ?_,
    Metrics.nodup_samples (hvisit.nodup_iff.2 (Metrics.nodup_routes_recorded answers)), fun x => ?_⟩
  · obtain ⟨c, hc, rfl⟩ := (hmem route).1 h
    obtain ⟨req, hreq⟩ := hroute c hc
    exact route_plain hreq
  · rw [Metrics.mem_samples]
    refine or_congr ⟨?_, ?_⟩ ⟨?_, ?_⟩
    · rintro ⟨route, -, c, hc, hpos, rfl⟩
      rw [Metrics.classes_recorded] at hc
      obtain ⟨cls, hcls, rfl⟩ := List.mem_map.1 hc
      exact ⟨route, cls, hcls, _, rfl, hpos, rfl⟩
    · rintro ⟨route, cls, hcls, n, rfl, hpos, rfl⟩
      have hcount : 0 < countOf answers route cls :=
        Nat.pos_of_ne_zero fun hzero => by simp [hzero] at hpos
      refine ⟨route, (hmem route).2 (exists_of_countOf_pos hcount),
        (cls, countOf answers route cls % 2 ^ 64), ?_, hpos, rfl⟩
      rw [Metrics.classes_recorded]
      exact List.mem_map_of_mem hcls
    · rintro ⟨route, hv, rfl⟩
      obtain ⟨c, hc, rfl⟩ := (hmem route).1 hv
      exact ⟨c, hc, by rw [Metrics.stats_recorded]⟩
    · rintro ⟨c, hc, rfl⟩
      exact ⟨c.route, (hmem _).2 ⟨c, hc, rfl⟩, by rw [Metrics.stats_recorded]⟩

/-! ### A scrape after a refusal -/

namespace Sample

/-- Of two requests in one instant the second is refused, and the scrape tells both. -/
theorem health_scraped : ∃ samples, Exposition.read
    ((run (ApiProcess.step adminServer extractItem (RateLimiter.new 1 1)) (.start Store.empty)
      [healthCall 0, healthCall 0]).metrics.render ["/health"]) = some samples ∧
      Metrics.requests "/health" "2xx" 1 ∈ samples ∧
      Metrics.requests "/health" "4xx" 1 ∈ samples ∧ Metrics.duration "/health" 6 ∈ samples := by
  have hvisit : ["/health"].Perm
      (run (ApiProcess.step adminServer extractItem (RateLimiter.new 1 1)) (.start Store.empty)
        [healthCall 0, healthCall 0]).metrics.routes := by
    decide +kernel
  obtain ⟨samples, hread, -, hmem⟩ := scrape_exact adminServer extractItem (RateLimiter.new 1 1)
    Store.empty [healthCall 0, healthCall 0] hvisit
  refine ⟨samples, hread, (hmem _).2 (.inl ?_), (hmem _).2 (.inl ?_), (hmem _).2 (.inr ?_)⟩
  · exact ⟨"/health", "2xx", by decide, 1, by decide +kernel, one_pos, rfl⟩
  · exact ⟨"/health", "4xx", by decide, 1, by decide +kernel, one_pos, rfl⟩
  · exact ⟨⟨"/health", 200, 3⟩, by decide +kernel, by decide +kernel⟩

end Sample

end Lumina
