import Lumina.Payments.GapFree
import Lumina.Snapshots.Batch

/-!
# One bad record in the batch

A record of the snapshot batch whose processing fails is skipped.  Where it fails to parse, it
affects only itself.  Where one of its statements fails, the transaction is aborted: no snapshot
is stored, while the alerts found before are recorded all the same.  The cycle leaves the
snapshots and alerts that each record would leave by itself exactly if no statement fails, or no
record would be stored anyway, and the alerts are recorded (`Committed.isolates_iff`).

## Main definitions

* `Committed` : the cycle reaches past its commit.
* `Isolates` : the snapshots and alerts are those of the records that do not fail by themselves.
-/

namespace Lumina

open Tx

variable {D : RustDecimal} {config : Config} {env : RunEnv} {rules : List AlertRuleRow}
  {pools : List LiquidityPool} {assets : List AssetRecord} {pending : List PendingAlert}
  {w w' w₁ : World}

/-- `runOnce` from `w` reaches past its commit, with `pending` alerts and the world `w₁`. -/
structure Committed (D : RustDecimal) (config : Config) (env : RunEnv) (w : World)
    (rules : List AlertRuleRow) (pools : List LiquidityPool) (assets : List AssetRecord)
    (pending : List PendingAlert) (w₁ : World) : Prop where
  fetchedPools : Horizon.liquidityPools env.pools config.horizonUrl 10 = .ret pools
  fetchedAssets : Horizon.assets env.assets config.horizonUrl 10 = .ret assets
  loaded : loadRules env.rules w = (.ret rules, w)
  commit : commitBatch D config env rules pools assets w = (.ret pending, w₁)

/-- The alerts of pools and tokens. -/
def AlertRow.isDrop (a : AlertRow) : Bool := a.kind = "liquidity_drop" || a.kind = "holder_drop"

/-- Each record by itself: the snapshots stored and the alerts found. -/
def alone (D : RustDecimal) (config : Config) (env : RunEnv) (rules : List AlertRuleRow)
    (pools : List LiquidityPool) (assets : List AssetRecord) (w : World) :
    World × List PendingAlert :=
  isolatedAll (batchRecords D config env rules pools assets) (w, [])

/-- The snapshots are those of the records whose own processing does not fail, and the pool and
token alerts recorded since `w` are those of these records. -/
structure Isolates (D : RustDecimal) (config : Config) (env : RunEnv) (rules : List AlertRuleRow)
    (pools : List LiquidityPool) (assets : List AssetRecord) (w : World) (db : Db) : Prop where
  poolSnapshots : db.poolSnapshots = (alone D config env rules pools assets w).1.db.poolSnapshots
  tokenSnapshots :
    db.tokenSnapshots = (alone D config env rules pools assets w).1.db.tokenSnapshots
  alerts : ∃ new, db.alerts = w.db.alerts ++ new ∧ (new.filter (·.isDrop)).map (·.content) =
    (alone D config env rules pools assets w).2.map (·.content)

/-! ### The snapshots -/

/-- The same alerts. -/
def SameAlerts (w w' : World) : Prop := w'.db.alerts = w.db.alerts

instance : IsPreorder World SameAlerts where
  refl _ := rfl
  trans _ _ _ h h' := h'.trans h

/-- The same snapshots. -/
def SameSnapshots (w w' : World) : Prop :=
  w'.db.poolSnapshots = w.db.poolSnapshots ∧ w'.db.tokenSnapshots = w.db.tokenSnapshots

instance : IsPreorder World SameSnapshots where
  refl _ := ⟨rfl, rfl⟩
  trans _ _ _ h h' := ⟨h'.1.trans h.1, h'.2.trans h.2⟩

/-- How many snapshots there are. -/
def snapshots (w : World) : ℕ := w.db.poolSnapshots.length + w.db.tokenSnapshots.length

theorem SameSnapshots.snapshots_eq (h : SameSnapshots w w') : snapshots w' = snapshots w := by
  rw [snapshots, snapshots, h.1, h.2]

/-- A record that stores one snapshot when it goes through, and whether it does depends on the
snapshots only. -/
structure StoresOne (m : Proc (Tx World) Error (Option PendingAlert)) : Prop where
  through_iff : ∀ {w w'}, SameSnapshots w w' → (Through m w' ↔ Through m w)
  stores : ∀ {w : World} {found : List PendingAlert}, Through m w →
    snapshots (isolated (w, found) m).1 = snapshots w + 1

/-- A record that stores and finds nothing. -/
def StoresNone (m : Proc (Tx World) Error (Option PendingAlert)) : Prop :=
  ∀ r, SameSnapshots r.1 (isolated r m).1 ∧ (isolated r m).2 = r.2

/-- A record whose latest row is a snapshot and whose insertion adds one. -/
theorem storesOne_snapshotOf {β γ : Type} {calls : SnapshotEnv} {parsed : Outcome Error γ}
    {latest : Db → β} {upsert insert : γ → Db → Db} {alert : γ → β → Option (Option PendingAlert)}
    (hl : ∀ {w w'}, SameSnapshots w w' → latest w'.db = latest w.db)
    (hi : ∀ r (w : World), snapshots { w with db := insert r (upsert r w.db) } = snapshots w + 1) :
    StoresOne (snapshotOf calls parsed latest upsert insert alert) where
  through_iff h := by rw [through_snapshotOf_iff, through_snapshotOf_iff, hl h]
  stores {w found} h := by
    obtain ⟨r, hp, hf, ha⟩ := through_snapshotOf_iff.1 h
    obtain ⟨a, ha⟩ := Option.ne_none_iff_exists'.1 ha
    have hret : snapshotOf calls parsed latest upsert insert alert ⟨w, false⟩ =
        (.ret a, ⟨{ w with db := insert r (upsert r w.db) }, false⟩) := by
      rw [snapshotOf_ok hp hf, ha]
      rfl
    rw [isolated_of_ret hret]
    exact hi r w

theorem storesOne_ingestPool (env : SnapshotEnv) (now : Time) (lp : LiquidityPool)
    (thresholdPct : Decimal) (rules : List AlertRuleRow) :
    StoresOne (ingestPool D env now lp thresholdPct rules) := by
  rw [ingestPool_eq]
  refine storesOne_snapshotOf ?_ ?_
  · intro w w' h
    rw [latestPoolTotalShares, latestPoolTotalShares, h.1]
  · intro r w
    simp only [snapshots, insertPoolSnapshot, upsertPool_poolSnapshots,
      upsertPool_tokenSnapshots, List.length_append, List.length_singleton]
    omega

theorem storesOne_ingestToken (env : SnapshotEnv) (now : Time) (a : AssetRecord)
    (thresholdPct : Decimal) (rules : List AlertRuleRow) :
    StoresOne (ingestToken D env now a thresholdPct rules) := by
  rw [ingestToken_eq]
  refine storesOne_snapshotOf ?_ ?_
  · intro w w' h
    rw [latestTokenNumAccounts, latestTokenNumAccounts, h.2]
  · intro r w
    simp only [snapshots, insertTokenSnapshot, upsertToken_poolSnapshots,
      upsertToken_tokenSnapshots, List.length_append, List.length_singleton]
    omega

theorem storesNone_pricesRecord (env : PricesEnv) (now : Time) (pools : List LiquidityPool) :
    StoresNone (pricesRecord D env now pools) := by
  rintro ⟨w, found⟩
  have hsame : Proc.Within (Tx.Via SameSnapshots) (pricesRecord D env now pools) :=
    within_pricesRecord (fun _ _ _ _ _ => ⟨rfl, rfl⟩) env now pools
  have hview := hsame ⟨w, false⟩
  have hnone : ∀ a, (pricesRecord D env now pools ⟨w, false⟩).1 = .ret a → a = none := by
    intro a ha
    obtain ⟨u, -, hu⟩ := Proc.bind_fst_eq_ret.1 ha
    exact (Outcome.ret.inj hu).symm
  unfold isolated
  generalize pricesRecord D env now pools ⟨w, false⟩ = q at hview hnone
  obtain ⟨o, t⟩ := q
  cases o with
  | ret a =>
    obtain rfl := hnone a rfl
    exact ⟨hview, by simp⟩
  | err e => exact ⟨⟨rfl, rfl⟩, rfl⟩
  | stop => exact ⟨⟨rfl, rfl⟩, rfl⟩
  | panic => exact ⟨⟨rfl, rfl⟩, rfl⟩

section Batch

variable {l : List (Proc (Tx World) Error (Option PendingAlert))} {found : List PendingAlert}

/-- Where no record that stores a snapshot goes through, nothing is stored or found. -/
theorem isolatedAll_of_not_through
    (hl : ∀ m ∈ l, StoresNone m ∨ StoresOne m ∧ ¬ Through m w) (hw : SameSnapshots w w') :
    SameSnapshots w (isolatedAll l (w', found)).1 ∧ (isolatedAll l (w', found)).2 = found := by
  induction l generalizing w' with
  | nil => exact ⟨hw, rfl⟩
  | cons m l ih =>
    have hrest : ∀ m ∈ l, StoresNone m ∨ StoresOne m ∧ ¬ Through m w := fun m hm =>
      hl m (List.mem_cons_of_mem _ hm)
    have hhead : SameSnapshots w (isolated (w', found) m).1 ∧
        (isolated (w', found) m).2 = found := by
      rcases hl m (by simp) with hnone | ⟨hone, hno⟩
      · exact ⟨IsTrans.trans _ _ _ hw (hnone _).1, (hnone _).2⟩
      · rw [isolated_of_not_through (mt (hone.through_iff hw).1 hno)]
        exact ⟨hw, rfl⟩
    have hpair : isolated (w', found) m = ((isolated (w', found) m).1, found) :=
      Prod.ext rfl hhead.2
    rw [isolatedAll, List.foldl_cons, hpair]
    exact ih hrest hhead.1

/-- Each record by itself only adds snapshots. -/
theorem snapshots_le_isolated {m : Proc (Tx World) Error (Option PendingAlert)}
    (hm : StoresNone m ∨ StoresOne m) (r : World × List PendingAlert) :
    snapshots r.1 ≤ snapshots (isolated r m).1 := by
  obtain ⟨w, found⟩ := r
  rcases hm with hnone | hone
  · exact (hnone (w, found)).1.snapshots_eq.ge
  · by_cases ht : Through m w
    · rw [hone.stores ht]
      exact Nat.le_succ _
    · rw [isolated_of_not_through ht]

theorem snapshots_le_isolatedAll (hl : ∀ m ∈ l, StoresNone m ∨ StoresOne m)
    (r : World × List PendingAlert) : snapshots r.1 ≤ snapshots (isolatedAll l r).1 := by
  induction l generalizing r with
  | nil => exact le_rfl
  | cons m l ih =>
    exact (snapshots_le_isolated (hl m (by simp)) r).trans
      (ih (fun m hm => hl m (List.mem_cons_of_mem _ hm)) (isolated r m))

/-- Where nothing is stored, no record that stores a snapshot goes through. -/
theorem not_through_of_snapshots_eq (hl : ∀ m ∈ l, StoresNone m ∨ StoresOne m)
    (hw : SameSnapshots w w')
    (h : snapshots (isolatedAll l (w', found)).1 = snapshots w') :
    ∀ m ∈ l, StoresOne m → ¬ Through m w := by
  induction l generalizing w' found with
  | nil => simp
  | cons m l ih =>
    have hrest : ∀ m ∈ l, StoresNone m ∨ StoresOne m := fun m hm =>
      hl m (List.mem_cons_of_mem _ hm)
    have hle : snapshots w' ≤ snapshots (isolated (w', found) m).1 :=
      snapshots_le_isolated (hl m (by simp)) (w', found)
    have hle' : snapshots (isolated (w', found) m).1 ≤
        snapshots (isolatedAll (m :: l) (w', found)).1 :=
      snapshots_le_isolatedAll hrest (isolated (w', found) m)
    -- the number of snapshots only grows, so the first record has stored none
    have hstep : snapshots (isolated (w', found) m).1 = snapshots w' := by omega
    have hno : StoresOne m → ¬ Through m w' := by
      intro hone ht
      rw [hone.stores ht] at hstep
      omega
    have hsame : SameSnapshots w (isolated (w', found) m).1 := by
      rcases hl m (by simp) with hnone | hone
      · exact IsTrans.trans _ _ _ hw (hnone _).1
      · rwa [isolated_of_not_through (hno hone)]
    have hfold : snapshots (isolatedAll l (isolated (w', found) m)).1 =
        snapshots (isolated (w', found) m).1 := h.trans hstep.symm
    intro m' hm' hone
    rcases List.mem_cons.1 hm' with rfl | hm'
    · exact mt (hone.through_iff hw).2 (hno hone)
    · exact ih hrest hsame hfold m' hm' hone

end Batch

/-! ### The records of the batch -/

theorem storesOne_of_mem {m : Proc (Tx World) Error (Option PendingAlert)}
    (hm : m ∈ poolRecords D config env rules pools ++ tokenRecords D config env rules assets) :
    StoresOne m := by
  rcases List.mem_append.1 hm with hm | hm
  · obtain ⟨c, -, rfl⟩ := List.mem_map.1 hm
    exact storesOne_ingestPool _ _ _ _ _
  · obtain ⟨c, -, rfl⟩ := List.mem_map.1 hm
    exact storesOne_ingestToken _ _ _ _ _

theorem storesNone_priceRecords (D : RustDecimal) (config : Config) (env : RunEnv)
    (pools : List LiquidityPool) : ∀ m ∈ priceRecords D config env pools, StoresNone m := by
  intro m hm
  unfold priceRecords at hm
  split_ifs at hm
  · obtain rfl := List.mem_singleton.1 hm
    exact storesNone_pricesRecord _ _ _
  · simp at hm

theorem mem_batchRecords {m : Proc (Tx World) Error (Option PendingAlert)} :
    m ∈ batchRecords D config env rules pools assets ↔
      m ∈ priceRecords D config env pools ∨
        m ∈ poolRecords D config env rules pools ++ tokenRecords D config env rules assets := by
  simp only [batchRecords, List.mem_append]
  tauto

/-- A batch none of whose pools and tokens would be stored by itself. -/
theorem alone_of_not_through
    (h : ∀ m ∈ poolRecords D config env rules pools ++ tokenRecords D config env rules assets,
      ¬ Through m w) :
    SameSnapshots w (alone D config env rules pools assets w).1 ∧
      (alone D config env rules pools assets w).2 = [] := by
  refine isolatedAll_of_not_through (fun m hm => ?_) (refl w)
  rcases mem_batchRecords.1 hm with hm | hm
  · exact .inl (storesNone_priceRecords _ _ _ _ m hm)
  · exact .inr ⟨storesOne_of_mem hm, h m hm⟩

/-- Where the batch stores nothing, no pool or token would be stored by itself. -/
theorem not_through_of_alone (h : SameSnapshots w (alone D config env rules pools assets w).1) :
    ∀ m ∈ poolRecords D config env rules pools ++ tokenRecords D config env rules assets,
      ¬ Through m w := by
  intro m hm
  refine not_through_of_snapshots_eq (fun m hm => ?_) (refl w) h.snapshots_eq m
    (mem_batchRecords.2 (.inr hm)) (storesOne_of_mem hm)
  rcases mem_batchRecords.1 hm with hm | hm
  · exact .inl (storesNone_priceRecords _ _ _ _ m hm)
  · exact .inr (storesOne_of_mem hm)

/-! ### The rest of the cycle -/

/-- No new snapshots, and no new alerts of pools or tokens. -/
def NoDrops (w w' : World) : Prop :=
  SameSnapshots w w' ∧ ∃ new, w'.db.alerts = w.db.alerts ++ new ∧ new.filter (·.isDrop) = []

instance : IsPreorder World NoDrops where
  refl w := ⟨refl w, [], by simp, rfl⟩
  trans w₁ w₂ w₃ := by
    rintro ⟨hs, new, hn, hd⟩ ⟨hs', new', hn', hd'⟩
    exact ⟨IsTrans.trans _ _ _ hs hs', new ++ new', by rw [hn', hn, List.append_assoc], by
      rw [List.filter_append, hd, hd']; rfl⟩

theorem AlertsGrow.sameSnapshots (h : AlertsGrow w w') : SameSnapshots w w' := by
  obtain ⟨new, seq, h⟩ := h
  exact ⟨by rw [h], by rw [h]⟩

/-- Recording alerts of the other kinds adds none of a pool or token. -/
theorem recordAll_noDrops {record : ℕ → RecordEnv} {webhook : WebhookConfig}
    (h : ∀ a ∈ pending, a.kind = "whale_payment") (w : World) :
    NoDrops w (recordAll record webhook pending w).2 := by
  obtain ⟨new, hnew, hsub, -⟩ := recordAll_alerts record webhook pending w
  refine ⟨(within_recordAll record webhook pending w).sameSnapshots, new, hnew, ?_⟩
  rw [List.filter_eq_nil_iff]
  intro a ha
  obtain ⟨b, hb, hab⟩ := List.mem_map.1 (hsub.subset (List.mem_map_of_mem ha))
  have hkind : a.kind = "whale_payment" := (congrArg (·.1) hab).symm.trans (h b hb)
  simp [AlertRow.isDrop, hkind]

theorem rowAlert_kind {threshold : F64} {row : WhaleTransactionRow} {a : PendingAlert}
    (h : rowAlert D threshold rules row = some a) : a.kind = "whale_payment" := by
  unfold rowAlert whaleAlert at h
  obtain ⟨severity, -, h⟩ := Option.bind_eq_some_iff.1 h
  rw [← Option.some.inj h]

/-- The payments of a cycle leave the snapshots and their alerts alone. -/
theorem ingestPayments_noDrops (env : PaymentsEnv) (w : World) :
    NoDrops w (ingestPayments D config env rules w).2 := by
  obtain ⟨hcommit, hkinds⟩ : NoDrops w (commitPayments D config env rules w).2 ∧
      ∀ pending, (commitPayments D config env rules w).1 = .ret pending →
        ∀ a ∈ pending, a.kind = "whale_payment" := by
    rcases commitPayments_cases D config env rules w with
      ⟨hw, hpending⟩ | ⟨newest, rest, -, -, heq⟩ | ⟨c, payments, last, rows, found, -, -, -, hreads,
        heq⟩
    · rw [hw]
      refine ⟨refl w, fun pending hret => ?_⟩
      simp [hpending pending hret]
    · rw [heq]
      refine ⟨⟨⟨rfl, rfl⟩, [], (List.append_nil _).symm, rfl⟩, fun pending hret => ?_⟩
      simp [← Outcome.ret.inj hret]
    · rw [heq]
      refine ⟨⟨⟨rfl, rfl⟩, [], (List.append_nil _).symm, rfl⟩, fun pending hret a ha => ?_⟩
      obtain rfl := Outcome.ret.inj hret
      obtain ⟨row, -, hrow⟩ := hreads.row_of_alert ha
      exact rowAlert_kind hrow
  unfold ingestPayments
  exact Proc.related_bind hcommit fun pending hret => recordAll_noDrops (hkinds pending hret) _

/-! ### The cycle -/

theorem Committed.runOnce_eq (h : Committed D config env w rules pools assets pending w₁) :
    runOnce D config env w = (do
      recordAll env.record config.webhook pending
      ingestPayments D config env.payments rules) w₁ := by
  unfold runOnce
  rw [h.fetchedPools, h.fetchedAssets, Proc.bind_apply, Proc.lift_apply]
  simp only
  rw [Proc.bind_apply, Proc.lift_apply]
  simp only
  rw [Proc.bind_apply, h.loaded]
  simp only
  rw [Proc.bind_apply, h.commit]

/-- What follows the record loop of a cycle leaves the snapshots and their alerts alone. -/
theorem Committed.noDrops (h : Committed D config env w rules pools assets pending w₁) :
    NoDrops (recordAll env.record config.webhook pending w₁).2 (runOnce D config env w).2 := by
  rw [h.runOnce_eq]
  exact Proc.related_bind (refl _) fun u _ => ingestPayments_noDrops env.payments _

/-- The batch that was committed. -/
theorem Committed.body (h : Committed D config env w rules pools assets pending w₁) :
    ∃ t, collectAll (batchRecords D config env rules pools assets) [] ⟨w, false⟩ =
        (.ret pending, t) ∧ w₁ = if t.aborted then w else t.view := by
  have hcommit := h.commit
  rw [commitBatch] at hcommit
  rcases transaction_cases env.start env.commit .db (batchBody D config env rules pools assets) w
    with ⟨a, t, -, -, hb, ht⟩ | ⟨hne, -⟩
  · rw [ht] at hcommit
    obtain ⟨rfl, rfl⟩ : a = pending ∧ (if t.aborted then w else t.view) = w₁ := by
      simpa using hcommit
    rw [batchBody_eq] at hb
    exact ⟨t, hb, rfl⟩
  · exact absurd (by rw [hcommit]) (hne pending)

/-- **The commit**: the transaction is rolled back by a statement that failed, or it leaves what
each record leaves by itself. -/
theorem Committed.cases (h : Committed D config env w rules pools assets pending w₁) :
    (∃ m ∈ batchRecords D config env rules pools assets, Breaks m) ∧ w₁ = w ∨
      (∀ m ∈ batchRecords D config env rules pools assets, ¬ Breaks m) ∧
        w₁ = (alone D config env rules pools assets w).1 ∧
        pending = (alone D config env rules pools assets w).2 := by
  obtain ⟨t, hbody, rfl⟩ := h.body
  rcases collectAll_ret (record_batchRecords D config env rules pools assets) hbody with
    ⟨hbreaks, ha⟩ | ⟨hbreaks, rfl, hfound⟩
  · exact .inl ⟨hbreaks, if_pos ha⟩
  · exact .inr ⟨hbreaks, rfl, hfound⟩

variable (D config env rules pools assets) in
/-- The batch leaves the alerts alone. -/
theorem sameAlerts_batchRecords : ∀ m ∈ batchRecords D config env rules pools assets,
    Proc.Within (Tx.Via SameAlerts) m :=
  within_batchRecords _ _ _ _ _ _ (fun _ _ => upsertPool_alerts _ _) (fun _ _ => rfl)
    (fun _ _ => upsertToken_alerts _ _) (fun _ _ => rfl) (fun _ _ _ _ _ => rfl)

theorem alone_alerts :
    (alone D config env rules pools assets w).1.db.alerts = w.db.alerts :=
  isolatedAll_via (sameAlerts_batchRecords D config env rules pools assets) (w, [])

theorem poolAlert_kind {lp : LiquidityPool} {assetA assetB : PoolReserve} {thresholdPct : Decimal}
    {previous : Option Decimal} {totalShares : Decimal} {a : PendingAlert}
    (h : poolAlert D lp assetA assetB thresholdPct previous totalShares = some (some a)) :
    a.kind = "liquidity_drop" := by
  cases previous with
  | none => simp [poolAlert] at h
  | some before =>
    rcases poolAlert_cases h with ⟨-, hnone⟩ | ⟨drop, b, -, hb, hkind, -⟩
    · simp at hnone
    · exact Option.some.inj hb ▸ hkind

theorem tokenAlert_kind {asset : AssetRecord} {thresholdPct : Decimal} {previous : Option ℤ}
    {a : PendingAlert} (h : tokenAlert D asset thresholdPct previous = some (some a)) :
    a.kind = "holder_drop" := by
  cases previous with
  | none => simp [tokenAlert] at h
  | some before =>
    rcases tokenAlert_cases h with ⟨-, hnone⟩ | ⟨drop, b, -, hb, hkind, -⟩
    · simp at hnone
    · exact Option.some.inj hb ▸ hkind

/-- A pool or token that goes through finds an alert of its kind, if any. -/
theorem kind_of_record : ∀ m ∈ batchRecords D config env rules pools assets, ∀ s a,
    (m ⟨s, false⟩).1 = .ret (some a) → a.kind = "liquidity_drop" ∨ a.kind = "holder_drop" := by
  refine forall_batchRecords assets (fun calls lp s a h => ?_) (fun s a h => ?_)
    fun calls asset s a h => ?_
  · rw [ingestPool_eq] at h
    obtain ⟨r, -, hfound⟩ := snapshotOf_found h
    exact .inl (poolAlert_kind hfound)
  · -- a price finds nothing
    obtain ⟨u, -, hu⟩ := Proc.bind_fst_eq_ret.1 h
    exact absurd (Outcome.ret.inj hu) (by simp)
  · rw [ingestToken_eq] at h
    obtain ⟨r, -, hfound⟩ := snapshotOf_found h
    exact .inr (tokenAlert_kind hfound)

/-- The alerts recorded for a batch are all of pools and tokens. -/
theorem filter_isDrop {new : List AlertRow}
    (h : (new.map (·.content)).Sublist
      ((alone D config env rules pools assets w).2.map (·.content))) :
    new.filter (·.isDrop) = new := by
  rw [List.filter_eq_self]
  intro a ha
  obtain ⟨b, hb, hab⟩ := List.mem_map.1 (h.subset (List.mem_map_of_mem ha))
  have hkind : a.kind = b.kind := congrArg (·.1) hab.symm
  rcases found_of_mem_isolatedAll hb with hb | ⟨m, hm, s, hs⟩
  · simp at hb
  · rcases kind_of_record m hm s b hs with hb | hb
    · simp [AlertRow.isDrop, hkind, hb]
    · simp [AlertRow.isDrop, hkind, hb]

/-- **One bad record.**  A cycle that reaches past its commit leaves the snapshots and alerts of
the records that do not fail by themselves exactly if no statement of a record fails, or no pool
or token would be stored by itself anyway, and the alerts of these records are all recorded. -/
theorem Committed.isolates_iff (h : Committed D config env w rules pools assets pending w₁) :
    Isolates D config env rules pools assets w (runOnce D config env w).2.db ↔
      ((∀ m ∈ batchRecords D config env rules pools assets, ¬ Breaks m) ∨
          ∀ m ∈ poolRecords D config env rules pools ++ tokenRecords D config env rules assets,
            ¬ Through m w) ∧
        AllRecorded env.record config.webhook
          (alone D config env rules pools assets w).2.zipIdx w₁ := by
  obtain ⟨hpay, extra, hextra, hnodrops⟩ := h.noDrops
  have hrecord := (within_recordAll env.record config.webhook pending w₁).sameSnapshots
  have hsame : SameSnapshots w₁ (runOnce D config env w).2 := IsTrans.trans _ _ _ hrecord hpay
  obtain ⟨new, hnew, hsub, hall⟩ := recordAll_alerts env.record config.webhook pending w₁
  have halerts : ∀ {db : Db}, w₁.db.alerts = db.alerts →
      (runOnce D config env w).2.db.alerts = db.alerts ++ (new ++ extra) := by
    intro db hdb
    rw [hextra, hnew, hdb, List.append_assoc]
  have hfilter : (new ++ extra).filter (·.isDrop) = new.filter (·.isDrop) := by
    rw [List.filter_append, hnodrops, List.append_nil]
  rcases h.cases with ⟨⟨m, hm, hb⟩, rfl⟩ | ⟨hb, rfl, rfl⟩
  · -- rolled back: the snapshots are those of `w`, and alerts of the batch may be recorded
    have hbreaks : ¬ ∀ m ∈ batchRecords D config env rules pools assets, ¬ Breaks m :=
      fun hno => hno m hm hb
    simp only [hbreaks, false_or]
    constructor
    · intro hi
      have hthrough : SameSnapshots w₁ (alone D config env rules pools assets w₁).1 :=
        ⟨hi.poolSnapshots.symm.trans hsame.1, hi.tokenSnapshots.symm.trans hsame.2⟩
      have hno := not_through_of_alone hthrough
      refine ⟨hno, ?_⟩
      rw [(alone_of_not_through hno).2]
      trivial
    · rintro ⟨hno, -⟩
      obtain ⟨halone, hnone⟩ := alone_of_not_through hno
      have hpending : pending = [] := by
        obtain ⟨t, hbody, -⟩ := h.body
        have hprefix := collectAll_prefix (record_batchRecords _ _ _ _ _ _) hbody
        exact List.prefix_nil.1 (hnone ▸ hprefix)
      subst hpending
      obtain rfl : new = [] := by simpa using hsub
      exact ⟨hsame.1.trans halone.1.symm, hsame.2.trans halone.2.symm, extra, by
        simpa using halerts rfl, by rw [hnodrops, hnone]; rfl⟩
  · -- committed: the snapshots are right, and the alerts are those that were inserted
    have hself := filter_isDrop hsub
    constructor
    · intro hi
      obtain ⟨new', hnew', hcontent⟩ := hi.alerts
      refine ⟨.inl hb, hall.1 ?_⟩
      have hnew'' : new' = new ++ extra := by
        have heq := halerts (alone_alerts (w := w))
        rw [hnew'] at heq
        exact List.append_cancel_left heq
      rw [hnew'', hfilter, hself] at hcontent
      exact hcontent
    · rintro ⟨-, hrec⟩
      refine ⟨hsame.1, hsame.2, new ++ extra, halerts alone_alerts, ?_⟩
      rw [hfilter, hself]
      exact hall.2 hrec

end Lumina

/-! ### A batch of two pools -/

namespace Lumina.Sample

/-- The exact arithmetic, with the amounts of the sample pools. -/
def shares : RustDecimal := .exact fun text =>
  if text = "5000.0000000" then some 5000 else if text = "1000.0000000" then some 1000 else none

def poolOf (id totalShares : String) (reserves : List PoolReserve) : LiquidityPool where
  id := id
  feeBp := 30
  totalTrustlines := "12"
  totalShares := totalShares
  reserves := reserves

/-- A pool whose shares fell to a fifth, another pool, and one that Horizon reports without its
reserves. -/
def shrunkPool : LiquidityPool :=
  poolOf "67260c4c1807b262ff851b0a3fe141194936bb0215b2f77447f1df11998eabb9" "1000.0000000"
    [⟨"native", "1000.0000000"⟩,
      ⟨"USDC:GA5ZSEJYB37JRC5AVCIA5MOP4RHTM335X2KGX3IHOJAPP5RE34K4KZVN", "1000.0000000"⟩]

def otherPool : LiquidityPool :=
  poolOf "a468d41d8e9b8f3c7209651608b74b7db7ac9952dcae0cdf24871d1d9c7b0088" "5000.0000000"
    [⟨"native", "5000.0000000"⟩,
      ⟨"AQUA:GBNZILSTVQZ4R7IKQDGHYGY2QXL5QOFJYQMXPKWRRM5PAV7Y4M67AQUA", "1000.0000000"⟩]

def barePool : LiquidityPool :=
  poolOf "a468d41d8e9b8f3c7209651608b74b7db7ac9952dcae0cdf24871d1d9c7b0088" "5000.0000000" []

/-- The world in which the shares of the first pool were 5000. -/
def watched : World := { World.empty with
  db := insertPoolSnapshot ⟨1767225600000000, shrunkPool.id, 5000, 5000, 5000, 12⟩
    (upsertPool ⟨shrunkPool.id, "native",
      "USDC:GA5ZSEJYB37JRC5AVCIA5MOP4RHTM335X2KGX3IHOJAPP5RE34K4KZVN", 30⟩ Db.empty) }

/-- A Horizon with one page of records. -/
def onePage {T : Type} (records : List T) : Server T := fun _ _ _ =>
  .success (some ⟨records, none⟩)

/-- A cycle five seconds later in which every call goes through, but perhaps the insertion of
the second pool's snapshot. -/
def polled (pools : List LiquidityPool) (insert : Fault) : RunEnv where
  now := 1767225605000000
  pools := onePage pools
  assets := onePage []
  rules := .ok
  start := .ok
  pool i := ⟨0, .ok, .ok, if i = 1 then insert else .ok⟩
  prices := ⟨.err .http, .insertion, .ok, fun _ _ => .ok⟩
  token _ := ⟨0, .ok, .ok, .ok⟩
  commit := .ok
  record _ := .clean 1767225605000000
  payments := { paymentsEnv with server := onePage [] }

/-- The alert of the first pool. -/
def shrunkAlert : PendingAlert :=
  { kind := "liquidity_drop"
    severity := .critical
    message := [.str "Liquidity drop: pool ", .str shrunkPool.id, .str " (", .str "native",
      .str "/", .str "USDC:GA5ZSEJYB37JRC5AVCIA5MOP4RHTM335X2KGX3IHOJAPP5RE34K4KZVN",
      .str ") total shares fell ", .dec1 80, .str "% (", .dec 5000, .str " -> ", .dec 1000,
      .str ")"]
    details := [("pool_id", some [.str shrunkPool.id]), ("asset_a", some [.str "native"]),
      ("asset_b", some [.str "USDC:GA5ZSEJYB37JRC5AVCIA5MOP4RHTM335X2KGX3IHOJAPP5RE34K4KZVN"]),
      ("shares_before", some [.dec 5000]), ("shares_now", some [.dec 1000]),
      ("drop_pct", some [.dec 80])] }

theorem committed_polled {pools : List LiquidityPool} {insert : Fault}
    (hpools : Horizon.liquidityPools (onePage pools) Config.default.horizonUrl 10 = .ret pools)
    (hcommit : (commitBatch shares Config.default (polled pools insert) [] pools [] watched).1 =
      .ret [shrunkAlert]) :
    Committed shares Config.default (polled pools insert) watched [] pools [] [shrunkAlert]
      (commitBatch shares Config.default (polled pools insert) [] pools [] watched).2 where
  fetchedPools := hpools
  fetchedAssets := rfl
  loaded := rfl
  commit := Prod.ext hcommit rfl

/-- The insertion of the second pool's snapshot fails: the first pool's snapshot is not stored,
and its alert is recorded. -/
theorem failed_insert_not_isolated :
    (∃ pending w₁, Committed shares Config.default (polled [shrunkPool, otherPool] .fail) watched
      [] [shrunkPool, otherPool] [] pending w₁) ∧
    (runOnce shares Config.default (polled [shrunkPool, otherPool] .fail)
      watched).2.db.poolSnapshots = watched.db.poolSnapshots ∧
    ((runOnce shares Config.default (polled [shrunkPool, otherPool] .fail) watched).2.db.alerts.map
      fun a => (a.kind, a.details)) = [(shrunkAlert.kind, shrunkAlert.details)] ∧
    ¬ Isolates shares Config.default (polled [shrunkPool, otherPool] .fail) []
      [shrunkPool, otherPool] [] watched
      (runOnce shares Config.default (polled [shrunkPool, otherPool] .fail) watched).2.db := by
  have hrows : (runOnce shares Config.default (polled [shrunkPool, otherPool] .fail)
      watched).2.db.poolSnapshots = watched.db.poolSnapshots := by decide +kernel
  refine ⟨⟨_, _, committed_polled (by decide +kernel) (by decide +kernel)⟩, hrows,
    by decide +kernel, fun h => ?_⟩
  have halone := h.poolSnapshots
  rw [hrows] at halone
  exact absurd (congrArg List.length halone) (by decide +kernel)

/-- The second pool has no reserves: only the second pool is skipped. -/
theorem bare_pool_isolated :
    Isolates shares Config.default (polled [shrunkPool, barePool] .ok) [] [shrunkPool, barePool] []
      watched (runOnce shares Config.default (polled [shrunkPool, barePool] .ok) watched).2.db := by
  have h : Committed shares Config.default (polled [shrunkPool, barePool] .ok) watched []
      [shrunkPool, barePool] [] [shrunkAlert] _ :=
    committed_polled (by decide +kernel) (by decide +kernel)
  refine h.isolates_iff.2 ⟨.inl fun m hm => ?_, ?_⟩
  · rcases mem_batchRecords.1 hm with hm | hm
    · simp [priceRecords, Config.default] at hm
    · rcases List.mem_append.1 hm with hm | hm
      · obtain ⟨⟨lp, i⟩, -, rfl⟩ := List.mem_map.1 hm
        have hfault : ((polled [shrunkPool, barePool] .ok).pool i).fault = .ok := by
          simp [polled, SnapshotEnv.fault]
        rw [ingestPool_eq, breaks_snapshotOf_iff, hfault]
        simp
      · simp [tokenRecords] at hm
  · have hfound : (alone shares Config.default (polled [shrunkPool, barePool] .ok) []
        [shrunkPool, barePool] [] watched).2 = [shrunkAlert] := by decide +kernel
    rw [hfound]
    exact ⟨rfl, .inl rfl, trivial⟩

end Lumina.Sample
