import Lumina.Model.Queries

/-!
# The API

What a request handler works on and what it answers.  The API reads and writes the database of
the ingester, and keeps a table of its own, the watchlist, and a cache in Redis.  A handler is a
process over that store; it turns every error of a call into an answer.

## Main definitions

* `Store` : the tables, their sequences and the cache.
* `Response`, `Body` : the answers.
* `Store.fetch`, `Store.exec` : one awaited query or statement.
* `answer` : the answer to the outcome of a call.
-/

namespace Lumina

/-- A row of `watchlist_items`. -/
structure WatchlistItemRow where
  id : ℕ
  itemType : String
  itemKey : String
  label : String
  createdAt : Time
  deriving DecidableEq

/-- An entry of the cache. -/
structure CacheEntry where
  raw : String
  writtenAt : Time
  expiresAt : Time
  deriving DecidableEq

/-- What the API runs on. -/
structure Store where
  db : Db
  watchlistItems : List WatchlistItemRow
  /-- The sequences behind the ids of `alert_channels`, `alert_rules` and `watchlist_items`. -/
  alertChannelSeq : ℕ
  alertRuleSeq : ℕ
  watchlistSeq : ℕ
  /-- Redis, by key. -/
  redis : String → Option CacheEntry

/-- A store without rows. -/
def Store.empty : Store where
  db := Db.empty
  watchlistItems := []
  alertChannelSeq := 1
  alertRuleSeq := 1
  watchlistSeq := 1
  redis := fun _ => none

/-- One awaited query. -/
def Store.fetch {α : Type} (f : Fault) (q : Store → α) : Proc Store Error α :=
  Proc.await f .db fun s => (q s, s)

/-- One awaited statement, with the value it reports. -/
def Store.exec {α : Type} (f : Fault) (u : Store → α × Store) : Proc Store Error α :=
  Proc.await f .db u

/-! ### Answers -/

/-- A bucket of the liquidation summary. -/
structure LiquidationRiskBucket where
  riskLevel : String
  positionCount : ℕ
  totalDebt : Decimal
  deriving DecidableEq

/-- The body of an answer. -/
inductive Body where
  | empty
  /-- `{ "error": text }` -/
  | error (text : String)
  /-- `{ "error": e.to_string() }` -/
  | failed (e : Error)
  /-- `{ "status": text }` -/
  | status (text : String)
  /-- `{ "acknowledged": count }` -/
  | acknowledged (count : ℕ)
  /-- The counters in the text format of Prometheus. -/
  | metrics
  /-- The stream of live events. -/
  | events
  | tvl (points : List TvlPoint)
  | pools (rows : List PoolWithLatest)
  | poolTrends (rows : List PoolTrend)
  | poolHistory (rows : List PoolSnapshotRow)
  | tokens (rows : List TokenWithLatest)
  | tokenTrends (rows : List TokenTrend)
  | tokenHistory (rows : List TokenSnapshotRow)
  | whaleTransactions (rows : List WhaleTransactionUsd)
  | search (rows : List SearchResultRow)
  | liquidations (summary : List LiquidationRiskBucket) (positions : List LendingPositionRow)
      (note : String)
  | alerts (rows : List AlertRow)
  | alertChannel (row : AlertChannelRow)
  | alertChannels (rows : List AlertChannelRow)
  | alertRule (row : AlertRuleRow)
  | alertRules (rows : List AlertRuleRow)
  | watchlistItem (row : WatchlistItemRow)
  | watchlistItems (rows : List WatchlistItemRow)
  deriving DecidableEq

structure Response where
  status : ℕ
  body : Body
  deriving DecidableEq

def Response.json (body : Body) : Response := ⟨200, body⟩

def Response.created (body : Body) : Response := ⟨201, body⟩

def Response.noContent : Response := ⟨204, .empty⟩

def Response.notFound : Response := ⟨404, .empty⟩

def badRequest (message : String) : Response := ⟨400, .error message⟩

/-- `err`. -/
def err (e : Error) : Response := ⟨500, .failed e⟩

/-- `match m.await { Ok(a) => ok(a), Err(e) => err(e) }`. -/
def answer {α : Type} (m : Proc Store Error α) (ok : α → Response) : Proc Store Error Response := do
  match ← m.attempt with
  | .ok a => return ok a
  | .error e => return err e

/-- The answer to a statement is that of its value, or an error that has changed nothing. -/
theorem answer_exec_ret {α : Type} {f : Fault} {u : Store → α × Store} {ok : α → Response}
    {s s' : Store} {resp : Response} (h : answer (Store.exec f u) ok s = (.ret resp, s')) :
    resp = ok (u s).1 ∧ s' = (u s).2 ∨ resp = err .db ∧ s' = s := by
  cases f with
  | ok =>
    simp only [answer, Store.exec, Proc.bind_apply, Proc.attempt_apply, Proc.await_ok,
      Proc.pure_apply, Prod.mk.injEq, Outcome.ret.injEq] at h
    exact .inl ⟨h.1.symm, h.2.symm⟩
  | fail =>
    simp only [answer, Store.exec, Proc.bind_apply, Proc.attempt_apply, Proc.await_fail,
      Proc.pure_apply, Prod.mk.injEq, Outcome.ret.injEq] at h
    exact .inr ⟨h.1.symm, h.2.symm⟩
  | stop =>
    simp [answer, Store.exec, Proc.bind_apply, Proc.attempt_apply] at h

/-- The answer of a handler that changed or removed the row it was asked for, or found none. -/
def foundOrNot (found : Bool) : Response := if found then .noContent else .notFound

end Lumina
