import Lumina.Alerts.Delivery
import Lumina.Sql.Retained
import Lumina.System.Writes

/-!
# The history is only added to

Neither process takes back what it has written about the network, and the retention jobs take out
old snapshots only: otherwise the tables of the ingester only grow, and of an alert only its
acknowledgement ever changes (`system_history`).

## Main definitions

* `AlertRow.said` : an alert without its acknowledgement.
* `System.History` : a later state has all of an earlier one, except what was dropped.
* `SystemEvent.Drops`, `Dropped` : what a retention job drops, or a run.
-/

namespace Lumina

open Relation

/-- An alert without its acknowledgement. -/
def AlertRow.said (a : AlertRow) : AlertRow := { a with acknowledgedAt := none }

/-- The later database has all rows of the earlier one in their order, and then more, except the
snapshots of the times that were dropped from their table. -/
structure Db.Extends (dropped : RetainedTable → Time → Prop) (db db' : Db) : Prop where
  pools : db.pools <+: db'.pools
  poolSnapshots : Sql.Grows (fun r => dropped .poolSnapshots r.time) (fun _ => True)
    db.poolSnapshots db'.poolSnapshots
  tokens : db.tokens <+: db'.tokens
  tokenSnapshots : Sql.Grows (fun r => dropped .tokenSnapshots r.time) (fun _ => True)
    db.tokenSnapshots db'.tokenSnapshots
  assetPrices : db.assetPrices <+: db'.assetPrices
  whaleTransactions : db.whaleTransactions <+: db'.whaleTransactions
  lendingPositions : db.lendingPositions <+: db'.lendingPositions
  alerts : db.alerts.map (·.said) <+: db'.alerts.map (·.said)

/-- A later state has all of an earlier one, except what was dropped, and the messages sent since
come after it. -/
structure System.History (dropped : RetainedTable → Time → Prop) (s s' : System) : Prop where
  db : s.store.db.Extends dropped s'.store.db
  posts : s.posts <+: s'.posts
  notified : s.notified <+: s'.notified

variable {webhook : WebhookConfig} {dropped dropped' : RetainedTable → Time → Prop} {w w' : World}
  {db db' db'' : Db} {s s' s'' : System}

theorem Db.Extends.refl (db : Db) : db.Extends dropped db := by
  constructor <;> first | exact List.prefix_refl _ | exact .refl _

theorem Db.Extends.trans (h : db.Extends dropped db') (h' : db'.Extends dropped db'') :
    db.Extends dropped db'' where
  pools := h.pools.trans h'.pools
  poolSnapshots := h.poolSnapshots.trans h'.poolSnapshots
  tokens := h.tokens.trans h'.tokens
  tokenSnapshots := h.tokenSnapshots.trans h'.tokenSnapshots
  assetPrices := h.assetPrices.trans h'.assetPrices
  whaleTransactions := h.whaleTransactions.trans h'.whaleTransactions
  lendingPositions := h.lendingPositions.trans h'.lendingPositions
  alerts := h.alerts.trans h'.alerts

theorem Db.Extends.mono (hdropped : ∀ table time, dropped table time → dropped' table time)
    (h : db.Extends dropped db') : db.Extends dropped' db' :=
  { h with
    poolSnapshots := h.poolSnapshots.mono (fun _ => hdropped _ _) fun _ => id
    tokenSnapshots := h.tokenSnapshots.mono (fun _ => hdropped _ _) fun _ => id }

/-- A database whose rows about the network are the same, up to acknowledgements. -/
theorem Db.Extends.of_eq (hpools : db'.pools = db.pools)
    (hpoolSnapshots : db'.poolSnapshots = db.poolSnapshots) (htokens : db'.tokens = db.tokens)
    (htokenSnapshots : db'.tokenSnapshots = db.tokenSnapshots)
    (hprices : db'.assetPrices = db.assetPrices)
    (hwhales : db'.whaleTransactions = db.whaleTransactions)
    (hpositions : db'.lendingPositions = db.lendingPositions)
    (halerts : db'.alerts.map (·.said) = db.alerts.map (·.said)) : db.Extends dropped db' where
  pools := by rw [hpools]
  poolSnapshots := .of_eq hpoolSnapshots
  tokens := by rw [htokens]
  tokenSnapshots := .of_eq htokenSnapshots
  assetPrices := by rw [hprices]
  whaleTransactions := by rw [hwhales]
  lendingPositions := by rw [hpositions]
  alerts := by rw [halerts]

namespace System

theorem History.trans (h : s.History dropped s') (h' : s'.History dropped s'') :
    s.History dropped s'' :=
  ⟨h.db.trans h'.db, h.posts.trans h'.posts, h.notified.trans h'.notified⟩

theorem History.refl (s : System) : s.History dropped s :=
  ⟨.refl _, List.prefix_refl _, List.prefix_refl _⟩

theorem History.mono (hdropped : ∀ table time, dropped table time → dropped' table time)
    (h : s.History dropped s') : s.History dropped' s' :=
  ⟨h.db.mono hdropped, h.posts, h.notified⟩

end System

/-! ### One write -/

/-- A change of the acknowledgements says the same. -/
theorem map_said_eq (l : List AlertRow) (f : AlertRow → AlertRow) (hf : ∀ a, (f a).said = a.said) :
    (l.map f).map (·.said) = l.map (·.said) := by
  rw [List.map_map]
  exact List.map_congr_left fun a _ => hf a

theorem IngestWrite.extends (h : IngestWrite webhook w w') : w.db.Extends dropped w'.db := by
  cases h with
  | pool row =>
    unfold upsertPool
    split_ifs
    · exact .refl _
    · exact { Db.Extends.refl w.db with pools := List.prefix_append _ _ }
  | poolSnapshot row =>
    exact { Db.Extends.refl w.db with poolSnapshots := .snoc trivial }
  | token row =>
    unfold upsertToken
    split_ifs
    · exact .refl _
    · exact { Db.Extends.refl w.db with tokens := List.prefix_append _ _ }
  | tokenSnapshot row =>
    exact { Db.Extends.refl w.db with tokenSnapshots := .snoc trivial }
  | price now asset priceUsd source =>
    exact { Db.Extends.refl w.db with assetPrices := List.prefix_append _ _ }
  | whale row =>
    unfold insertWhaleTransaction
    split_ifs
    · exact .refl _
    · exact { Db.Extends.refl w.db with whaleTransactions := List.prefix_append _ _ }
  | position row =>
    exact { Db.Extends.refl w.db with lendingPositions := List.prefix_append _ _ }
  | cursor key value => exact .of_eq rfl rfl rfl rfl rfl rfl rfl rfl
  | alert env a _ htells =>
    rw [record_db]
    split_ifs
    · refine { Db.Extends.refl w.db with alerts := ?_ }
      rw [insertAlert, List.map_append]
      exact List.prefix_append _ _
    · exact .refl _

theorem IngestWrite.messages (h : IngestWrite webhook w w') :
    w.posts <+: w'.posts ∧ w.notified <+: w'.notified := by
  cases h with
  | alert env a _ htells =>
    by_cases hok : env.insertAlert = .ok
    · rw [record_eq hok]
      exact ⟨List.prefix_append _ _, List.prefix_append _ _⟩
    · rw [record_of_not_inserted hok]
      exact ⟨List.prefix_refl _, List.prefix_refl _⟩
  | _ => exact ⟨List.prefix_refl _, List.prefix_refl _⟩

theorem ApiWrite.extends {s s' : Store} (h : ApiWrite s s') : s.db.Extends dropped s'.db := by
  have hack : ∀ f : AlertRow → AlertRow, (∀ a, (f a).said = a.said) →
      s.db.Extends dropped { s.db with alerts := s.db.alerts.map f } := fun f hf =>
    .of_eq rfl rfl rfl rfl rfl rfl rfl (map_said_eq _ f hf)
  cases h with
  | acknowledge now id => exact hack _ fun a => by split_ifs <;> rfl
  | unacknowledge id => exact hack _ fun a => by split_ifs <;> rfl
  | acknowledgeAll now ids => exact hack _ fun a => by split_ifs <;> rfl
  | insertChannel body hvalid =>
    unfold insertAlertChannel
    dsimp only
    split_ifs <;> exact .of_eq rfl rfl rfl rfl rfl rfl rfl rfl
  | upsertItem now body hvalid =>
    unfold upsertWatchlistItem
    dsimp only
    split <;> exact .refl _
  | _ => exact .of_eq rfl rfl rfl rfl rfl rfl rfl rfl

/-- A job takes out rows before its limit. -/
theorem RetentionJob.extends (job : RetentionJob) (db : Db) :
    db.Extends (fun table time => table = job.table ∧ time < job.limit) (job.drop db) := by
  obtain ⟨table, now, lag⟩ := job
  have hlimit : ∀ limit time : Time, decide (limit ≤ time) = false → time < limit :=
    fun limit time h => not_le.1 (of_decide_eq_false h)
  have hrest := @Db.Extends.refl
    (fun t time => t = table ∧ time < (RetentionJob.mk table now lag).limit) db
  cases table with
  | poolSnapshots =>
    exact { hrest with
      poolSnapshots := .of_thinned (.of_filter (fun _ h => ⟨rfl, hlimit _ _ h⟩) _) }
  | tokenSnapshots =>
    exact { hrest with
      tokenSnapshots := .of_thinned (.of_filter (fun _ h => ⟨rfl, hlimit _ _ h⟩) _) }

/-! ### Runs -/

/-- What an event drops: a retention job what is before its limit. -/
def SystemEvent.Drops : SystemEvent → RetainedTable → Time → Prop
  | .cycle _, _, _ => False
  | .request _ _, _, _ => False
  | .retention job, table, time => table = job.table ∧ time < job.limit

/-- The events of a run drop rows of the table with the time. -/
def Dropped (es : List SystemEvent) (table : RetainedTable) (time : Time) : Prop :=
  ∃ e ∈ es, e.Drops table time

namespace System

theorem Step.history (h : Step webhook s s') : ∃ dropped, s.History dropped s' := by
  cases h with
  | ingest h => exact ⟨fun _ _ => False, h.extends, h.messages.1, h.messages.2⟩
  | api h => exact ⟨fun _ _ => False, h.extends, List.prefix_refl _, List.prefix_refl _⟩
  | retention job => exact ⟨_, job.extends _, List.prefix_refl _, List.prefix_refl _⟩

theorem Step.notified (h : Step webhook s s') : s.notified <+: s'.notified := by
  obtain ⟨_, h⟩ := h.history
  exact h.notified

theorem history_of_reaches (h : ReflTransGen (Step webhook) s s') :
    s.History (fun _ _ => True) s' := by
  induction h with
  | refl => exact .refl s
  | tail _ hstep ih =>
    obtain ⟨dropped, hstep⟩ := hstep.history
    exact ih.trans (hstep.mono fun _ _ _ => trivial)

theorem step_history (P : Deployment) (s : System) (e : SystemEvent) :
    s.History e.Drops (s.step P e) := by
  cases e with
  | cycle env =>
    have hwrites := @within_ingestCycle P.server.decimal P.codec P.config env s.world
    have hcycle : ∀ w, IngestWrites P.config.webhook s.world w →
        s.History (SystemEvent.cycle env).Drops (s.withWorld w) := by
      intro w h
      induction h with
      | refl => exact .refl s
      | tail _ hwrite ih => exact ih.trans ⟨hwrite.extends, hwrite.messages.1, hwrite.messages.2⟩
    exact hcycle _ hwrites
  | request env req =>
    have hrequest : ∀ store, ApiWrites s.store store →
        s.History (SystemEvent.request env req).Drops { s with store := store } := by
      intro store h
      induction h with
      | refl => exact .refl s
      | tail _ hwrite ih =>
        exact ih.trans ⟨hwrite.extends, List.prefix_refl _, List.prefix_refl _⟩
    exact hrequest _ (writes_serve P.server P.extract env req s.store)
  | retention job => exact ⟨job.extends _, List.prefix_refl _, List.prefix_refl _⟩

end System

/-- **Nothing that was written about the network is taken back**, by any run of cycles, requests
and retention jobs from any state, except the snapshots that the jobs drop: each is before the
limit of a job of the run, so more than 180 days old at the job. -/
theorem system_history (P : Deployment) (s : System) (es : List SystemEvent) :
    s.History (Dropped es) (Trace.run (System.step P) s es) := by
  induction es generalizing s with
  | nil => exact .refl s
  | cons e es ih =>
    refine (((System.step_history P s e).mono fun _ _ h => ?_).trans ((ih _).mono fun _ _ h => ?_))
    · exact ⟨e, List.mem_cons_self, h⟩
    · obtain ⟨e', he', h⟩ := h
      exact ⟨e', List.mem_cons_of_mem _ he', h⟩

end Lumina
