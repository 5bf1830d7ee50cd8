import Lumina.Api.CacheRun

/-!
# The cache is transparent

Whatever happens to Redis and in whatever order the requests and their calls come, a successful
answer of a cached endpoint is a value that the endpoint's query gave for the same parameters: in
the request itself, or in one whose entry was written no longer than the time to live before the
cache was read (`CacheRun.cache_transparent`).  The invariant ties every entry of Redis that can
be read to the computation that wrote it.

## Main definitions

* `Serde.Lawful` : what is encoded can be decoded.
* `CacheRun.Justified` : an answer that the computations of a run account for.
* `CacheRun.Inv` : the invariant of the runs.
-/

namespace Lumina

/-- What is encoded can be decoded. -/
def Serde.Lawful {T : Type} (serde : Serde T) : Prop :=
  ∀ value raw, serde.toText value = some raw → serde.fromText raw = some value

namespace CacheRun

variable {D : RustDecimal} {cache : Cache} {serde : (e : CachedEndpoint) → Serde e.Payload}

/-- An answer that is the error of the request's own computation, or a value computed for the same
query: in the request itself, or in one whose entry was fresh when this request read the cache. -/
def Justified (cache : Cache) (s : CacheRun D) (a : CacheAnswer) : Prop :=
  (∃ e, (a.id, e) ∈ s.failures ∧ a.response = err e) ∨
    ∃ c ∈ s.computed, c.query = a.request.query ∧ a.response = c.response ∧
      (c.id = a.id ∨ ∃ w ∈ s.writes, w.computation = c ∧ w.entry.writtenAt ≤ a.readAt ∧
        a.readAt ≤ w.entry.writtenAt + seconds cache.ttlSecs)

/-- What a request under way has done so far. -/
def Pending (s : CacheRun D) (id : ℕ) (p : PendingRequest D) : Prop :=
  match p.phase with
  | .started => ∀ c ∈ s.computed, c.id ≠ id
  | .missed _ => ∀ c ∈ s.computed, c.id ≠ id
  | .computed _ c => c ∈ s.computed ∧ c.id = id ∧ c.query = p.request.query

/-- The invariant of the runs. -/
structure Inv (cache : Cache) (serde : (e : CachedEndpoint) → Serde e.Payload) (s : CacheRun D) :
    Prop where
  computed_lt : ∀ c ∈ s.computed, c.id < s.next
  pending : ∀ id p, s.pending id = some p →
    id < s.next ∧ (∀ f ∈ s.failures, f.1 ≠ id) ∧ s.Pending id p
  /-- An entry that can be read has been written by a computation of the query of its key. -/
  redis : ∀ key e, s.store.redis key = some e → Unreadable serde key e.raw ∨
    ∃ w ∈ s.writes, w.computation.query.key = key ∧ w.entry = e
  writes : ∀ w ∈ s.writes, w.computation ∈ s.computed ∧
    (serde w.computation.query.endpoint).toText w.computation.value = some w.entry.raw ∧
    w.entry.writtenAt ≤ s.now ∧ w.entry.expiresAt = w.entry.writtenAt + seconds cache.ttlSecs
  answers : ∀ a ∈ s.answers, a.id < s.next ∧ s.pending a.id = none ∧ s.Justified cache a
  failures : ∀ f ∈ s.failures, f.1 < s.next ∧ (∀ c ∈ s.computed, c.id ≠ f.1) ∧
    (∃ a ∈ s.answers, a.id = f.1) ∧ ∀ a ∈ s.answers, a.id = f.1 → a.response = err f.2

theorem inv_init {db : Db} {now : Time} : (init db now : CacheRun D).Inv cache serde where
  computed_lt := by simp [init]
  pending := by simp [init]
  redis := by simp [init, Store.empty]
  writes := by simp [init]
  answers := by simp [init]
  failures := by simp [init]

variable {s s' : CacheRun D} {id id' : ℕ} {p p' : PendingRequest D}

/-! ### The requests under way -/

theorem pending_advance (h : (s.advance id p).pending id' = some p') :
    id' = id ∧ p' = p ∨ id' ≠ id ∧ s.pending id' = some p' := by
  by_cases hid : id' = id
  · subst hid
    rw [advance_pending] at h
    exact .inl ⟨rfl, (Option.some.inj h).symm⟩
  · exact .inr ⟨hid, by simpa [advance, hid] using h⟩

theorem pending_forget (h : (s.forget id).pending id' = some p') :
    id' ≠ id ∧ s.pending id' = some p' := by
  by_cases hid : id' = id
  · simp [forget, hid] at h
  · exact ⟨hid, by simpa [forget, hid] using h⟩

theorem pending_advance_eq_none (hid : s.pending id' = none) (hne : id' ≠ id) :
    (s.advance id p).pending id' = none := by
  simpa [advance, hne] using hid

theorem pending_forget_eq_none (hid : s.pending id' = none) : (s.forget id).pending id' = none := by
  by_cases hne : id' = id
  · simp [forget, hne]
  · simpa [forget, hne] using hid

/-! ### Justified answers -/

/-- Later computations, writes and failures do not take a justification away. -/
theorem Justified.mono {a : CacheAnswer} (h : s.Justified cache a) (hc : s.computed ⊆ s'.computed)
    (hw : s.writes ⊆ s'.writes) (hf : s.failures ⊆ s'.failures) : s'.Justified cache a := by
  rcases h with ⟨e, he, hresp⟩ | ⟨c, hcs, hquery, hresp, hown⟩
  · exact .inl ⟨e, hf he, hresp⟩
  · refine .inr ⟨c, hc hcs, hquery, hresp, ?_⟩
    rcases hown with hown | ⟨w, hws, hown⟩
    · exact .inl hown
    · exact .inr ⟨w, hw hws, hown⟩

/-- A value that can be read off an entry is the one that was computed. -/
theorem response_of_read (hserde : ∀ e, (serde e).Lawful) {c : Computation D} {q : CachedQuery}
    (hq : c.query = q) {value : q.endpoint.Payload} {raw : String}
    (hw : (serde c.query.endpoint).toText c.value = some raw)
    (hr : (serde q.endpoint).fromText raw = some value) :
    Response.json (q.endpoint.body value) = c.response := by
  subst hq
  rw [hserde _ _ _ hw] at hr
  rw [← Option.some.inj hr]
  rfl

/-- **A hit** is justified by the computation that wrote the entry. -/
theorem Inv.justified_hit (hserde : ∀ e, (serde e).Lawful) (h : s.Inv cache serde)
    {r : CachedRequest} {f : Fault} {value : r.query.endpoint.Payload}
    (hlook : (lookup cache (s.envNow f) (serde r.query.endpoint) r.query.key s.store).1 =
      .ret (some value)) :
    s.Justified cache ⟨id, r, s.now, .json (r.query.endpoint.body value)⟩ := by
  rcases @lookup_cases _ cache (s.envNow f) (serde r.query.endpoint) r.query.key s.store with
    heq | heq | ⟨e, value', heq, he, hfresh, hread⟩
  · rw [heq] at hlook
    cases hlook
  · rw [heq] at hlook
    cases hlook
  · rw [heq] at hlook
    obtain rfl : value' = value := by simpa using hlook
    rcases h.redis _ e he with hun | ⟨w, hw, hkey, rfl⟩
    · rw [hun _ rfl] at hread
      cases hread
    · obtain ⟨hcomputed, htext, hat, hexpires⟩ := h.writes w hw
      have hquery := CachedQuery.key_injective hkey
      refine .inr ⟨_, hcomputed, hquery, response_of_read hserde hquery htext hread,
        .inr ⟨w, hw, rfl, hat, ?_⟩⟩
      rw [← hexpires]
      exact hfresh.le

/-! ### One step -/

/-- A request under way has not been answered. -/
theorem Inv.id_ne (h : s.Inv cache serde) (hp : s.pending id = some p) {a : CacheAnswer}
    (ha : a ∈ s.answers) : a.id ≠ id := by
  rintro rfl
  rw [(h.answers a ha).2.1] at hp
  cases hp

/-- What a request has done is still so after the others have computed more. -/
theorem Pending.cons {c : Computation D} (h : s.Pending id p) (hne : c.id ≠ id) :
    Pending { s with computed := c :: s.computed } id p := by
  obtain ⟨r, clock, since, phase⟩ := p
  cases phase with
  | started => exact List.forall_mem_cons.2 ⟨hne, h⟩
  | missed => exact List.forall_mem_cons.2 ⟨hne, h⟩
  | computed _ c' => exact ⟨List.mem_cons_of_mem _ h.1, h.2⟩

theorem Inv.arrive (h : s.Inv cache serde) {r : CachedRequest} {clock since : Time} :
    ({ s with next := s.next + 1 }.advance s.next ⟨r, clock, since, .started⟩).Inv cache serde where
  computed_lt c hc := (h.computed_lt c hc).trans (Nat.lt_succ_self _)
  pending id p hp := by
    rcases pending_advance hp with ⟨rfl, rfl⟩ | ⟨-, hp⟩
    · exact ⟨Nat.lt_succ_self _, fun f hf => (h.failures f hf).1.ne,
        fun c hc => (h.computed_lt c hc).ne⟩
    · obtain ⟨hlt, hfail, hpending⟩ := h.pending id p hp
      exact ⟨hlt.trans (Nat.lt_succ_self _), hfail, hpending⟩
  redis := h.redis
  writes := h.writes
  answers a ha := by
    obtain ⟨hlt, hnone, hjust⟩ := h.answers a ha
    exact ⟨hlt.trans (Nat.lt_succ_self _), pending_advance_eq_none hnone hlt.ne, hjust⟩
  failures f hf := by
    obtain ⟨hlt, hrest⟩ := h.failures f hf
    exact ⟨hlt.trans (Nat.lt_succ_self _), hrest⟩

/-- A request goes on without computing. -/
theorem Inv.advance (h : s.Inv cache serde) (hp : s.pending id = some p)
    (hp' : s.Pending id p') : (s.advance id p').Inv cache serde where
  computed_lt := h.computed_lt
  pending id' q hq := by
    rcases pending_advance hq with ⟨rfl, rfl⟩ | ⟨-, hq⟩
    · obtain ⟨hlt, hfail, -⟩ := h.pending _ _ hp
      exact ⟨hlt, hfail, hp'⟩
    · exact h.pending id' q hq
  redis := h.redis
  writes := h.writes
  answers a ha := by
    obtain ⟨hlt, hnone, hjust⟩ := h.answers a ha
    exact ⟨hlt, pending_advance_eq_none hnone (h.id_ne hp ha), hjust⟩
  failures := h.failures

/-- A request computes its value. -/
theorem Inv.compute (h : s.Inv cache serde) {r : CachedRequest} {clock since readAt : Time}
    {c : Computation D} (hp : s.pending id = some ⟨r, clock, since, .missed readAt⟩)
    (hid : c.id = id) (hquery : c.query = r.query) :
    ({ s with computed := c :: s.computed }.advance id
      ⟨r, clock, since, .computed readAt c⟩).Inv cache serde := by
  obtain ⟨hlt, hfail, -⟩ := h.pending _ _ hp
  exact
    { computed_lt := List.forall_mem_cons.2 ⟨hid ▸ hlt, h.computed_lt⟩
      pending := by
        intro id' q hq
        rcases pending_advance hq with ⟨rfl, rfl⟩ | ⟨hne, hq⟩
        · exact ⟨hlt, hfail, List.mem_cons_self, hid, hquery⟩
        · obtain ⟨hlt', hfail', hq⟩ := h.pending id' q hq
          exact ⟨hlt', hfail', hq.cons (by rw [hid]; exact hne.symm)⟩
      redis := h.redis
      writes := by
        intro w hw
        obtain ⟨hcomputed, hrest⟩ := h.writes w hw
        exact ⟨List.mem_cons_of_mem _ hcomputed, hrest⟩
      answers := by
        intro a ha
        obtain ⟨hlt, hnone, hjust⟩ := h.answers a ha
        exact ⟨hlt, pending_advance_eq_none hnone (h.id_ne hp ha),
          hjust.mono (List.subset_cons_self _ _) (List.Subset.refl _) (List.Subset.refl _)⟩
      failures := by
        intro f hf
        obtain ⟨hlt, hcomputed, hrest⟩ := h.failures f hf
        exact ⟨hlt, List.forall_mem_cons.2 ⟨by rw [hid]; exact (hfail f hf).symm, hcomputed⟩,
          hrest⟩ }

/-- A request is over without an answer. -/
theorem Inv.forget (h : s.Inv cache serde) : (s.forget id).Inv cache serde where
  computed_lt := h.computed_lt
  pending id' q hq := h.pending id' q (pending_forget hq).2
  redis := h.redis
  writes := h.writes
  answers a ha := by
    obtain ⟨hlt, hnone, hjust⟩ := h.answers a ha
    exact ⟨hlt, pending_forget_eq_none hnone, hjust⟩
  failures := h.failures

/-- A request gets an answer that is justified. -/
theorem Inv.respond (h : s.Inv cache serde) (hp : s.pending id = some p) {r : CachedRequest}
    {readAt : Time} {resp : Response} (hjust : s.Justified cache ⟨id, r, readAt, resp⟩) :
    (s.respond id r readAt resp).Inv cache serde where
  computed_lt := h.computed_lt
  pending := h.forget.pending
  redis := h.redis
  writes := h.writes
  answers := List.forall_mem_cons.2
    ⟨⟨(h.pending _ _ hp).1, by simp [CacheRun.respond, CacheRun.forget], hjust⟩, h.forget.answers⟩
  failures f hf := by
    obtain ⟨hlt, hcomputed, ⟨a, ha, haid⟩, hall⟩ := h.failures f hf
    refine ⟨hlt, hcomputed, ⟨a, List.mem_cons_of_mem _ ha, haid⟩, ?_⟩
    exact List.forall_mem_cons.2 ⟨fun heq => absurd heq.symm ((h.pending _ _ hp).2.1 f hf), hall⟩

/-- A request whose computation has failed gets the error. -/
theorem Inv.fail (h : s.Inv cache serde) {r : CachedRequest} {clock since readAt : Time} {e : Error}
    (hp : s.pending id = some ⟨r, clock, since, .missed readAt⟩) :
    ({ s.respond id r readAt (err e) with failures := (id, e) :: s.failures }).Inv
      cache serde := by
  obtain ⟨hlt, hfail, hcomputed⟩ := h.pending _ _ hp
  exact
    { computed_lt := h.computed_lt
      pending := by
        intro id' q hq
        obtain ⟨hne, hq⟩ := pending_forget hq
        obtain ⟨hlt', hfail', hpending⟩ := h.pending id' q hq
        exact ⟨hlt', List.forall_mem_cons.2 ⟨hne.symm, hfail'⟩, hpending⟩
      redis := h.redis
      writes := h.writes
      answers := by
        refine List.forall_mem_cons.2 ⟨⟨hlt, by simp [CacheRun.respond, CacheRun.forget],
          .inl ⟨e, List.mem_cons_self, rfl⟩⟩, fun a ha => ?_⟩
        obtain ⟨hlt', hnone, hjust⟩ := h.forget.answers a ha
        exact ⟨hlt', hnone, hjust.mono (List.Subset.refl _) (List.Subset.refl _)
          (List.subset_cons_self _ _)⟩
      failures := by
        refine List.forall_mem_cons.2 ⟨⟨hlt, hcomputed, ⟨_, List.mem_cons_self, rfl⟩, ?_⟩,
          fun f hf => ?_⟩
        · exact List.forall_mem_cons.2
            ⟨fun _ => rfl, fun a ha heq => absurd heq (h.id_ne hp ha)⟩
        · obtain ⟨hlt', hcomputed', ⟨a, ha, haid⟩, hall⟩ := h.failures f hf
          refine ⟨hlt', hcomputed', ⟨a, List.mem_cons_of_mem _ ha, haid⟩, ?_⟩
          exact List.forall_mem_cons.2 ⟨fun heq => absurd heq.symm (hfail f hf), hall⟩ }

/-- What Redis has after a value was kept. -/
theorem mem_gained_or {store : Store} {c : Computation D} {f : Fault}
    (hkeep : Lumina.keep cache (s.envNow f) (serde c.query.endpoint) c.query.key c.value s.store =
      (.ret (), store)) {key : String} {e : CacheEntry} (he : store.redis key = some e) :
    s.store.redis key = some e ∨ key = c.query.key ∧ ⟨c, e⟩ ∈ gained s.store store c := by
  by_cases hkey : key = c.query.key
  · subst hkey
    by_cases hold : s.store.redis c.query.key = some e
    · exact .inl hold
    · exact .inr ⟨rfl, by simp [gained, he, hold]⟩
  · -- the other keys are left alone
    rcases @keep_cases _ cache (s.envNow f) (serde c.query.endpoint) c.query.key s.store
      c.value with heq | heq | ⟨raw, heq, -⟩
    · rw [heq] at hkeep
      cases hkeep
    · rw [heq] at hkeep
      obtain rfl : s.store = store := (Prod.mk.inj hkeep).2
      exact .inl he
    · rw [heq] at hkeep
      obtain rfl := (Prod.mk.inj hkeep).2
      rw [redis_redisSetEx_of_ne hkey] at he
      exact .inl he

/-- **What Redis gains** is the text of the value, for its time to live. -/
theorem of_mem_gained {store : Store} {c : Computation D} {f : Fault}
    (hkeep : Lumina.keep cache (s.envNow f) (serde c.query.endpoint) c.query.key c.value s.store =
      (.ret (), store)) {w : CacheWrite D} (hw : w ∈ gained s.store store c) :
    w.computation = c ∧ (serde c.query.endpoint).toText c.value = some w.entry.raw ∧
      w.entry.writtenAt = s.now ∧ w.entry.expiresAt = s.now + seconds cache.ttlSecs := by
  unfold gained at hw
  cases he : store.redis c.query.key with
  | none => simp [he] at hw
  | some e =>
    simp only [he] at hw
    split_ifs at hw with hold
    · cases hw
    · obtain rfl := List.mem_singleton.1 hw
      rcases @keep_cases _ cache (s.envNow f) (serde c.query.endpoint) c.query.key s.store
        c.value with heq | heq | ⟨raw, heq, htext⟩
      · rw [heq] at hkeep
        cases hkeep
      · rw [heq] at hkeep
        obtain rfl : s.store = store := (Prod.mk.inj hkeep).2
        exact absurd he hold
      · rw [heq] at hkeep
        obtain rfl := (Prod.mk.inj hkeep).2
        rcases @redis_redisSetEx_self c.query.key raw cache.ttlSecs (s.envNow f).setTime s.store
          with hold' | hnew
        · exact absurd (hold'.symm.trans he) hold
        · obtain rfl := Option.some.inj (hnew.symm.trans he)
          exact ⟨rfl, htext, rfl, rfl⟩

/-- A request keeps its value and is answered. -/
theorem Inv.keep (h : s.Inv cache serde) {r : CachedRequest} {clock since readAt : Time}
    {c : Computation D} {f : Fault} {store : Store}
    (hp : s.pending id = some ⟨r, clock, since, .computed readAt c⟩)
    (hkeep : Lumina.keep cache (s.envNow f) (serde c.query.endpoint) c.query.key c.value s.store =
      (.ret (), store)) :
    ({ s.respond id r readAt c.response with
      store := store, writes := gained s.store store c ++ s.writes }).Inv cache serde := by
  obtain ⟨-, -, hcomputed, hid, hquery⟩ := h.pending _ _ hp
  have hjust : s.Justified cache ⟨id, r, readAt, c.response⟩ :=
    .inr ⟨c, hcomputed, hquery, rfl, .inl hid⟩
  have hrespond := h.respond hp hjust
  exact
    { computed_lt := hrespond.computed_lt
      pending := hrespond.pending
      redis := by
        intro key e he
        rcases mem_gained_or hkeep he with he | ⟨rfl, hw⟩
        · rcases h.redis key e he with hun | ⟨w, hw, hwrote⟩
          · exact .inl hun
          · exact .inr ⟨w, List.mem_append_right _ hw, hwrote⟩
        · exact .inr ⟨_, List.mem_append_left _ hw, rfl, rfl⟩
      writes := by
        intro w hw
        rcases List.mem_append.1 hw with hw | hw
        · obtain ⟨rfl, htext, hat, hexpires⟩ := of_mem_gained hkeep hw
          exact ⟨hcomputed, htext, hat.le, by rw [hexpires, hat]⟩
        · exact h.writes w hw
      answers := by
        intro a ha
        obtain ⟨hlt, hnone, hjust⟩ := hrespond.answers a ha
        exact ⟨hlt, hnone, hjust.mono (List.Subset.refl _) (List.subset_append_right _ _)
          (List.Subset.refl _)⟩
      failures := hrespond.failures }

/-- Redis has no entry that it had not before, or one that cannot be read. -/
theorem Inv.changed (h : s.Inv cache serde) {store : Store} {now : Time} (hnow : s.now ≤ now)
    (hredis : ∀ key e, store.redis key = some e →
      s.store.redis key = some e ∨ Unreadable serde key e.raw) :
    ({ s with store := store, now := now }).Inv cache serde where
  computed_lt := h.computed_lt
  pending := h.pending
  redis key e he := by
    rcases hredis key e he with he | hun
    · exact h.redis key e he
    · exact .inl hun
  writes w hw := by
    obtain ⟨hcomputed, htext, hat, hexpires⟩ := h.writes w hw
    exact ⟨hcomputed, htext, hat.trans hnow, hexpires⟩
  answers := h.answers
  failures := h.failures

/-- **One step** keeps the invariant. -/
theorem Inv.step (hserde : ∀ e, (serde e).Lawful) (h : s.Inv cache serde)
    (hstep : Step cache serde s s') : s'.Inv cache serde := by
  cases hstep with
  | arrive r clock since _ => exact h.arrive
  | hit f value hp hlook => exact h.respond hp (h.justified_hit hserde hlook)
  | miss f hp _ => exact h.advance hp (h.pending _ _ hp).2.2
  | compute c hp hid hquery _ _ => exact h.compute hp hid hquery
  | fail env e hp _ => exact h.fail hp
  | keep f store hp hkeep => exact h.keep hp hkeep
  | drop id => exact h.forget
  | tick now hnow => exact h.changed hnow fun _ _ he => .inl he
  | database db => exact h.changed le_rfl fun _ _ he => .inl he
  | evict key =>
    refine h.changed le_rfl fun key' e he => ?_
    by_cases hkey : key' = key
    · simp [hkey] at he
    · exact .inl (by simpa [hkey] using he)
  | corrupt key e hun =>
    refine h.changed le_rfl fun key' e' he => ?_
    by_cases hkey : key' = key
    · subst hkey
      obtain rfl : e = e' := by simpa using he
      exact .inr hun
    · exact .inl (by simpa [hkey] using he)

theorem Inv.reachable (hserde : ∀ e, (serde e).Lawful) (h : s.Inv cache serde)
    (hrun : Reachable cache serde s s') : s'.Inv cache serde := by
  induction hrun with
  | refl => exact h
  | tail _ hstep ih => exact ih.step hserde hstep

/-- **The cache is transparent.**  Every answer is the error of the request's own computation or a
value computed for the same query, in the request itself or in one whose entry was written at most
the time to live before this request read the cache.  An entry that can be read was written by a
computation of the query of its key, no two queries have a key in common, and a computation that
failed is returned as an error and writes no entry. -/
theorem cache_transparent (hserde : ∀ e, (serde e).Lawful) {db : Db} {now : Time}
    (hrun : Reachable cache serde (init db now) s) :
    (∀ a ∈ s.answers, s.Justified cache a) ∧
    (∀ key e, s.store.redis key = some e → Unreadable serde key e.raw ∨
      ∃ w ∈ s.writes, w.entry = e ∧ w.computation ∈ s.computed ∧ w.computation.query.key = key ∧
        (serde w.computation.query.endpoint).toText w.computation.value = some e.raw) ∧
    (∀ q q' : CachedQuery, q.key = q'.key → q = q') ∧
    ∀ f ∈ s.failures, (∃ a ∈ s.answers, a.id = f.1) ∧
      (∀ a ∈ s.answers, a.id = f.1 → a.response = err f.2) ∧
      ∀ w ∈ s.writes, w.computation.id ≠ f.1 := by
  have h : s.Inv cache serde := inv_init.reachable hserde hrun
  refine ⟨fun a ha => (h.answers a ha).2.2, fun key e he => ?_,
    fun q q' hkey => CachedQuery.key_injective hkey, fun f hf => ?_⟩
  · rcases h.redis key e he with hun | ⟨w, hw, hkey, rfl⟩
    · exact .inl hun
    · obtain ⟨hcomputed, htext, -⟩ := h.writes w hw
      exact .inr ⟨w, hw, rfl, hcomputed, hkey, htext⟩
  · obtain ⟨-, hcomputed, hanswered, hall⟩ := h.failures f hf
    exact ⟨hanswered, hall, fun w hw => hcomputed _ (h.writes w hw).1⟩

end CacheRun

namespace Sample

/-- The texts of empty lists. -/
def emptySerde {α : Type} : Serde (List α) where
  toText rows := if rows.isEmpty then some "[]" else none
  fromText raw := if raw = "[]" then some [] else none

theorem emptySerde_lawful {α : Type} : (emptySerde : Serde (List α)).Lawful := by
  intro rows raw h
  cases rows with
  | nil =>
    obtain rfl : "[]" = raw := Option.some.inj h
    rfl
  | cons row rows => exact absurd h (Option.some_ne_none raw).symm

/-- The series of a pool of 1000 XLM in the first hour. -/
def firstHour (total : Decimal) : List TvlPoint := [⟨0, 1, total, none⟩]

/-- The text of the series after one poll. -/
def firstHourText : String :=
  "[\x7b\"bucket\":\"1970-01-01T00:00:00Z\",\"pool_count\":1," ++
    "\"total_reserve_native\":\"1000\",\"total_reserve_usd\":null\x7d]"

/-- The texts of that series. -/
def firstHourSerde : Serde (List TvlPoint) where
  toText points := if points = firstHour 1000 then some firstHourText else none
  fromText raw := if raw = firstHourText then some (firstHour 1000) else none

theorem firstHourSerde_lawful : firstHourSerde.Lawful := by
  intro points raw h
  obtain ⟨rfl, h⟩ := Option.ite_none_right_eq_some.1 h
  obtain rfl := Option.some.inj h
  rfl

def firstHourSerdes : (e : CachedEndpoint) → Serde e.Payload
  | .tvl => firstHourSerde
  | .pools => emptySerde
  | .poolsTrending => emptySerde
  | .tokens => emptySerde
  | .tokensTrending => emptySerde

theorem firstHourSerdes_lawful (e : CachedEndpoint) : (firstHourSerdes e).Lawful := by
  cases e with
  | tvl => exact firstHourSerde_lawful
  | pools => exact emptySerde_lawful
  | poolsTrending => exact emptySerde_lawful
  | tokens => exact emptySerde_lawful
  | tokensTrending => exact emptySerde_lawful

/-- A pool of 1000 XLM with its snapshots at some seconds of the first hour. -/
def firstHourPolled (times : List ℕ) : Db := { Db.empty with
  pools := [⟨"pool", "native", "USDC:issuer", 30⟩]
  poolSnapshots := times.map fun n => ⟨seconds n, "pool", 1000, 200, 400, 12⟩ }

/-- The query for the value locked, without faults. -/
def tvlEnv : QueryEnv :=
  ⟨.ok, fun _ => 0, .stored, fun _ => 0, .stored, fun _ => 0, ⟨.stored, fun _ => 0, fun _ => 0⟩,
    ⟨.stored, fun _ => 0, fun _ => 0⟩⟩

theorem tvlSeries_firstHour :
    tvlSeries (fun _ => 0) (-86400000000) (firstHourPolled [1]) = firstHour 1000 := by
  decide +kernel

/-- What the first request computes, when there was one poll. -/
def firstComputation : Computation (.exact fun _ => none) where
  id := 0
  query := .tvl 24
  clock := 0
  since := -86400000000
  env := tvlEnv
  store := { Store.empty with db := firstHourPolled [1] }
  value := firstHour 1000
  window := by decide
  sound := by
    rw [← tvlSeries_firstHour]
    rfl

theorem keep_firstHour (key : String) (now : Time) (s : Store) :
    keep ⟨true, 30⟩ ⟨now, .ok, now, .ok⟩ firstHourSerde key (firstHour 1000) s =
      (.ret (), redisSetEx key firstHourText 30 now s) := by
  have htext : firstHourSerde.toText (firstHour 1000) = some firstHourText := by
    simp [firstHourSerde]
  rw [keep, if_pos rfl, trySet, htext]
  rfl

theorem lookup_firstHour (key : String) (s : Store) :
    lookup ⟨true, 30⟩ ⟨seconds 5, .ok, seconds 5, .ok⟩ firstHourSerde key
        (redisSetEx key firstHourText 30 0 s) =
      (.ret (some (firstHour 1000)), redisSetEx key firstHourText 30 0 s) := by
  have hget : redisGet key (seconds 5) (redisSetEx key firstHourText 30 0 s) =
      some firstHourText := by
    simp [redisGet, redisSetEx, seconds]
  have hread : firstHourSerde.fromText firstHourText = some (firstHour 1000) := by
    simp [firstHourSerde]
  rw [lookup, if_pos rfl, tryGet, Proc.bind_apply, Proc.attempt_apply]
  simp only [Store.fetch, Proc.await_ok, hget, Proc.pure_apply, Option.bind_some, hread]

/-- Two requests for the value locked, with a poll after the computation of the first: it keeps its
value all the same, and the second request, within the time to live, is answered from the cache
with that and not with what the database would now give. -/
theorem twoRequests_transparent :
    ∃ s : CacheRun (.exact fun _ => none),
      CacheRun.Reachable ⟨true, 30⟩ firstHourSerdes (CacheRun.init (firstHourPolled [1]) 0) s ∧
      s.answers = [⟨1, .tvl ⟨some 24⟩, seconds 5, .json (.tvl (firstHour 1000))⟩,
        ⟨0, .tvl ⟨none⟩, 0, .json (.tvl (firstHour 1000))⟩] ∧
      tvlSeries (fun _ => 0) 0 s.store.db = firstHour 2000 ∧
      ∀ a ∈ s.answers, s.Justified ⟨true, 30⟩ a := by
  have harrive : CacheRun.Reachable ⟨true, 30⟩ firstHourSerdes
      (CacheRun.init (D := .exact fun _ => none) (firstHourPolled [1]) 0) _ :=
    .single (.arrive (.tvl ⟨none⟩) 0 (-86400000000) (by decide))
  have hmiss := harrive.tail (.miss .ok (CacheRun.advance_pending ..) rfl)
  have hcomputed := hmiss.tail (.compute firstComputation (CacheRun.advance_pending ..) rfl rfl rfl
    rfl)
  have hpolled := hcomputed.tail (.database (firstHourPolled [1, 4]))
  have hkept := hpolled.tail (.keep .ok
    (redisSetEx (CachedQuery.tvl 24).key firstHourText 30 0
      { Store.empty with db := firstHourPolled [1, 4] }) (CacheRun.advance_pending ..)
    (keep_firstHour _ _ _))
  have hagain := (hkept.tail (.tick (seconds 5) (by decide))).tail
    (.arrive (.tvl ⟨some 24⟩) (seconds 5) (-86395000000) (by decide))
  have hhit := hagain.tail (.hit (r := .tvl ⟨some 24⟩) .ok (firstHour 1000)
    (CacheRun.advance_pending ..) (congrArg Prod.fst (lookup_firstHour _ _)))
  exact ⟨_, hhit, rfl, by decide +kernel,
    (CacheRun.cache_transparent firstHourSerdes_lawful hhit).1⟩

end Sample

end Lumina
