import Lumina.System.History

/-!
# Keys and references

In every state that the two processes reach, the tables are as the queries take them: a snapshot
belongs to a pool or token that is listed, a payment, a channel name and a watchlist key occur
once, and the rows that have an id are in the order of their ids, which the next one will exceed
(`system_keyed`).  The tables of tokens and token snapshots have no foreign key, and `alerts` no
unique id, so these are facts about the program and not about the schema.

## Main definitions

* `Numbered` : ids drawn from a sequence.
* `Db.Keyed`, `Store.Keyed` : the keys and references of the tables.
-/

namespace Lumina

open Relation

/-- Ids in the order in which a sequence gave them out, with the one it gives next. -/
def Numbered (ids : List ℕ) (next : ℕ) : Prop := ids.Pairwise (· < ·) ∧ ∀ id ∈ ids, id < next

section Numbered

variable {ids ids' : List ℕ} {next : ℕ}

theorem numbered_nil : Numbered [] next := ⟨.nil, nofun⟩

/-- A row that takes the next id. -/
theorem Numbered.push (h : Numbered ids next) : Numbered (ids ++ [next]) (next + 1) := by
  refine ⟨List.pairwise_append.2 ⟨h.1, List.pairwise_singleton _ _, fun id hid n hn => ?_⟩, ?_⟩
  · rw [List.mem_singleton.1 hn]
    exact h.2 id hid
  · intro id hid
    rcases List.mem_append.1 hid with hid | hid
    · exact (h.2 id hid).trans (Nat.lt_succ_self next)
    · rw [List.mem_singleton.1 hid]
      exact Nat.lt_succ_self next

/-- An id that is given out and not used. -/
theorem Numbered.skip (h : Numbered ids next) : Numbered ids (next + 1) :=
  ⟨h.1, fun id hid => (h.2 id hid).trans (Nat.lt_succ_self next)⟩

theorem Numbered.sublist (h : Numbered ids next) (hsub : ids'.Sublist ids) :
    Numbered ids' next :=
  ⟨h.1.sublist hsub, fun id hid => h.2 id (hsub.subset hid)⟩

theorem Numbered.nodup (h : Numbered ids next) : ids.Nodup := h.1.imp fun hlt => hlt.ne

end Numbered

/-- The keys and references of the tables that the ingester writes, and the ids of the rules and
channels. -/
structure Db.Keyed (db : Db) : Prop where
  poolIds : (db.pools.map (·.poolId)).Nodup
  poolOf : ∀ x ∈ db.poolSnapshots, ∃ p ∈ db.pools, p.poolId = x.poolId
  tokens : db.tokens.Nodup
  tokenOf : ∀ x ∈ db.tokenSnapshots, ⟨x.assetCode, x.assetIssuer⟩ ∈ db.tokens
  operations : (db.whaleTransactions.map fun x => (x.opId, x.time)).Nodup
  alertIds : Numbered (db.alerts.map (·.id)) db.alertSeq

/-- The keys of the tables that the API writes. -/
structure Store.Keyed (s : Store) : Prop where
  db : s.db.Keyed
  channelIds : Numbered (s.db.alertChannels.map (·.id)) s.alertChannelSeq
  channelNames : (s.db.alertChannels.map (·.name)).Nodup
  ruleIds : Numbered (s.db.alertRules.map (·.id)) s.alertRuleSeq
  itemIds : Numbered (s.watchlistItems.map (·.id)) s.watchlistSeq
  itemKeys : (s.watchlistItems.map fun x => (x.itemType, x.itemKey)).Nodup

variable {webhook : WebhookConfig} {w w' : World} {db : Db}

theorem nodup_snoc {α : Type} {l : List α} {a : α} (h : l.Nodup) (ha : a ∉ l) :
    (l ++ [a]).Nodup := by
  rw [← List.concat_eq_append]
  exact List.Nodup.concat ha h

/-! ### The ingester -/

theorem Db.Keyed.upsertPool (h : db.Keyed) (row : PoolRow) : (upsertPool row db).Keyed := by
  unfold Lumina.upsertPool
  split_ifs with hany
  · exact h
  · refine { h with poolIds := ?_, poolOf := fun x hx => ?_ }
    · rw [List.map_append]
      refine nodup_snoc h.poolIds fun hmem => hany ?_
      obtain ⟨p, hp, hid⟩ := List.mem_map.1 hmem
      exact List.any_eq_true.2 ⟨p, hp, decide_eq_true hid⟩
    · obtain ⟨p, hp, hid⟩ := h.poolOf x hx
      exact ⟨p, List.mem_append_left _ hp, hid⟩

theorem Db.Keyed.upsertToken (h : db.Keyed) (row : TokenRow) : (upsertToken row db).Keyed := by
  unfold Lumina.upsertToken
  split_ifs with hmem
  · exact h
  · exact { h with
      tokens := nodup_snoc h.tokens hmem
      tokenOf := fun x hx => List.mem_append_left _ (h.tokenOf x hx) }

theorem Db.Keyed.insertWhaleTransaction (h : db.Keyed) (row : WhaleTransactionRow) :
    (insertWhaleTransaction row db).2.Keyed := by
  unfold Lumina.insertWhaleTransaction
  split_ifs with hany
  · exact h
  · refine { h with operations := ?_ }
    rw [List.map_append]
    refine nodup_snoc h.operations fun hmem => hany ?_
    obtain ⟨x, hx, heq⟩ := List.mem_map.1 hmem
    exact List.any_eq_true.2 ⟨x, hx, by simpa using heq⟩

theorem IngestWrite.keyed (h : IngestWrite webhook w w') (hw : w.db.Keyed) : w'.db.Keyed := by
  cases h with
  | pool row => exact hw.upsertPool row
  | poolSnapshot row _ hpool =>
    refine { hw with poolOf := fun x hx => ?_ }
    rcases List.mem_append.1 hx with hx | hx
    · exact hw.poolOf x hx
    · rwa [List.mem_singleton.1 hx]
  | token row => exact hw.upsertToken row
  | tokenSnapshot row _ htoken =>
    refine { hw with tokenOf := fun x hx => ?_ }
    rcases List.mem_append.1 hx with hx | hx
    · exact hw.tokenOf x hx
    · rwa [List.mem_singleton.1 hx]
  | whale row => exact hw.insertWhaleTransaction row
  | alert env a _ htells =>
    rw [record_db]
    split_ifs
    · refine { hw with alertIds := ?_ }
      rw [insertAlert, List.map_append]
      exact hw.alertIds.push
    · exact hw
  | _ => exact { hw with }

/-- The ingester writes neither rules nor channels. -/
theorem IngestWrite.config_eq (h : IngestWrite webhook w w') :
    w'.db.alertRules = w.db.alertRules ∧ w'.db.alertChannels = w.db.alertChannels := by
  cases h with
  | pool row =>
    unfold upsertPool
    split_ifs <;> exact ⟨rfl, rfl⟩
  | token row =>
    unfold upsertToken
    split_ifs <;> exact ⟨rfl, rfl⟩
  | whale row =>
    unfold insertWhaleTransaction
    split_ifs <;> exact ⟨rfl, rfl⟩
  | alert env a _ htells =>
    rw [record_db]
    split_ifs <;> exact ⟨rfl, rfl⟩
  | _ => exact ⟨rfl, rfl⟩

/-! ### The API -/

theorem map_map_eq {α β : Type} {l : List α} {f : α → α} {g : α → β} (h : ∀ a, g (f a) = g a) :
    (l.map f).map g = l.map g := by
  rw [List.map_map]
  exact List.map_congr_left fun a _ => h a

theorem ApiWrite.keyed {s s' : Store} (h : ApiWrite s s') (hs : s.Keyed) : s'.Keyed := by
  have hack : ∀ f : AlertRow → AlertRow, (∀ a, (f a).id = a.id) →
      Store.Keyed { s with db := { s.db with alerts := s.db.alerts.map f } } := by
    intro f hf
    refine { hs with db := { hs.db with alertIds := ?_ } }
    rw [map_map_eq hf]
    exact hs.db.alertIds
  cases h with
  | acknowledge now id => exact hack _ fun a => by split_ifs <;> rfl
  | unacknowledge id => exact hack _ fun a => by split_ifs <;> rfl
  | acknowledgeAll now ids => exact hack _ fun a => by split_ifs <;> rfl
  | insertChannel body hvalid =>
    unfold insertAlertChannel
    dsimp only
    split_ifs with hany
    · exact { hs with channelIds := hs.channelIds.skip }
    · refine { hs with db := { hs.db with }, channelIds := ?_, channelNames := ?_ }
      · rw [List.map_append]
        exact hs.channelIds.push
      · rw [List.map_append]
        refine nodup_snoc hs.channelNames fun hmem => hany ?_
        obtain ⟨c, hc, hname⟩ := List.mem_map.1 hmem
        exact List.any_eq_true.2 ⟨c, hc, decide_eq_true hname⟩
  | deleteChannel id =>
    have hsub := List.filter_sublist (p := fun c : AlertChannelRow => c.id ≠ id)
      (l := s.db.alertChannels)
    exact { hs with
      db := { hs.db with }
      channelIds := hs.channelIds.sublist (hsub.map _)
      channelNames := hs.channelNames.sublist (hsub.map _) }
  | insertRule body hvalid =>
    refine { hs with db := { hs.db with }, ruleIds := ?_ }
    rw [insertAlertRule, List.map_append]
    exact hs.ruleIds.push
  | updateRule id threshold enabled hpos =>
    refine { hs with db := { hs.db with }, ruleIds := ?_ }
    rw [updateAlertRule, map_map_eq fun r => by split_ifs <;> rfl]
    exact hs.ruleIds
  | deleteRule id =>
    exact { hs with
      db := { hs.db with }
      ruleIds := hs.ruleIds.sublist (List.filter_sublist.map _) }
  | upsertItem now body hvalid =>
    unfold upsertWatchlistItem
    dsimp only
    split
    · refine { hs with itemIds := ?_, itemKeys := ?_ }
      · rw [map_map_eq fun r => by split_ifs <;> rfl]
        exact hs.itemIds.skip
      · rw [map_map_eq fun r => by split_ifs <;> rfl]
        exact hs.itemKeys
    · rename_i hnone
      refine { hs with itemIds := ?_, itemKeys := ?_ }
      · rw [List.map_append]
        exact hs.itemIds.push
      · rw [List.map_append]
        refine nodup_snoc hs.itemKeys fun hmem => ?_
        obtain ⟨x, hx, hkey⟩ := List.mem_map.1 hmem
        exact List.find?_eq_none.1 hnone x hx (by simpa using hkey)
  | deleteItem id =>
    have hsub := List.filter_sublist (p := fun x : WatchlistItemRow => x.id ≠ id)
      (l := s.watchlistItems)
    exact { hs with
      itemIds := hs.itemIds.sublist (hsub.map _)
      itemKeys := hs.itemKeys.sublist (hsub.map _) }
  | cache redis => exact { hs with }

/-! ### Reachable states -/

theorem keyed_empty : Store.empty.Keyed where
  db :=
    { poolIds := .nil
      poolOf := nofun
      tokens := .nil
      tokenOf := nofun
      operations := .nil
      alertIds := numbered_nil }
  channelIds := numbered_nil
  channelNames := .nil
  ruleIds := numbered_nil
  itemIds := numbered_nil
  itemKeys := .nil

/-- The ids and names of rules and channels that the ingester leaves alone. -/
theorem Store.Keyed.withDb {s : Store} (h : s.Keyed) (hdb : db.Keyed)
    (hrules : db.alertRules = s.db.alertRules) (hchannels : db.alertChannels = s.db.alertChannels) :
    Store.Keyed { s with db := db } where
  db := hdb
  channelIds := by
    rw [hchannels]
    exact h.channelIds
  channelNames := by
    rw [hchannels]
    exact h.channelNames
  ruleIds := by
    rw [hrules]
    exact h.ruleIds
  itemIds := h.itemIds
  itemKeys := h.itemKeys

/-- **Keys and references hold in every state reached**, whatever the order of the writes. -/
theorem System.Reachable.keyed {s : System} (h : Reachable webhook s) : s.store.Keyed := by
  refine @invariant _ _ (fun s => s.store.Keyed) h keyed_empty fun s s' hstep hs => ?_
  cases hstep with
  | ingest hwrite => exact hs.withDb (hwrite.keyed hs.db) hwrite.config_eq.1 hwrite.config_eq.2
  | api hwrite => exact hwrite.keyed hs
  | retention job =>
    rcases job.drop_cases s.store.db with ⟨rows, hrows, hdb⟩ | ⟨rows, hrows, hdb⟩
    · rw [retain, hdb]
      exact hs.withDb { hs.db with poolOf := fun x hx => hs.db.poolOf x (hrows.subset hx) } rfl rfl
    · rw [retain, hdb]
      exact hs.withDb { hs.db with tokenOf := fun x hx => hs.db.tokenOf x (hrows.subset hx) } rfl
        rfl

/-- After any run of cycles, requests and retention jobs from an empty system, keys and references
hold. -/
theorem system_keyed (P : Deployment) (es : List SystemEvent) :
    (Trace.run (System.step P) System.empty es).store.Keyed :=
  (System.Reachable.run .refl es).keyed

end Lumina
