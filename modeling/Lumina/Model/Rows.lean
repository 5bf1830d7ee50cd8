import Lumina.Model.Decimal
import Lumina.Proc.Transaction
import Mathlib.Logic.Function.Basic

/-!
# The database

The tables that the ingester reads and writes, one list of rows for each, and the state it runs
on: the database and the messages it has sent out.  A row is appended where it is inserted; the
order of a table's list is the physical order of its rows and no query may rely on it.

## Main definitions

* `LendingPositionRow`, `WhaleTransactionRow`, … : the rows.
* `Db` : the tables, `World` : the database and the outgoing messages.
* `fetch`, `exec` : one awaited query or statement outside a transaction, `Tx.fetch`, `Tx.exec` :
  the same inside one.
-/

namespace Lumina

/-- A `TIMESTAMPTZ`, in microseconds. -/
abbrev Time := ℤ

/-- The errors of the ingester.  They are only ever logged. -/
inductive Error where
  /-- A statement failed. -/
  | db
  /-- A request failed. -/
  | http
  /-- `Decimal::from_str` failed. -/
  | decimal
  /-- An error with a text of the program's own. -/
  | msg (text : String)
  deriving DecidableEq

/-- A piece of a formatted text. -/
inductive Piece where
  | str (s : String)
  /-- `{d}` -/
  | dec (d : Decimal)
  /-- `{d:.1}` -/
  | dec1 (d : Decimal)
  | int (n : ℤ)
  deriving DecidableEq

/-- A text made by `format!`, with the values it prints. -/
abbrev Text := List Piece

/-- A JSON object: its fields in order, each a text or `null`. -/
abbrev Json := List (String × Option Text)

/-- A row of `alert_rules`. -/
structure AlertRuleRow where
  id : ℕ
  name : String
  ruleType : String
  assetCode : Option String
  assetIssuer : Option String
  threshold : Decimal
  enabled : Bool
  deriving DecidableEq

/-- A row of `alert_channels`. -/
structure AlertChannelRow where
  id : ℕ
  name : String
  kind : String
  url : String
  minSeverity : String
  enabled : Bool
  deriving DecidableEq

/-- A row of `pools`. -/
structure PoolRow where
  poolId : String
  assetA : String
  assetB : String
  feeBp : ℤ
  deriving DecidableEq

/-- A row of `pool_snapshots`. -/
structure PoolSnapshotRow where
  time : Time
  poolId : String
  reserveA : Decimal
  reserveB : Decimal
  totalShares : Decimal
  trustlineCount : ℤ
  deriving DecidableEq

/-- A row of `tokens`. -/
structure TokenRow where
  assetCode : String
  assetIssuer : String
  deriving DecidableEq

/-- A row of `token_snapshots`. -/
structure TokenSnapshotRow where
  time : Time
  assetCode : String
  assetIssuer : String
  amount : Decimal
  numAccounts : ℤ
  numClaimableBalances : ℤ
  deriving DecidableEq

/-- A row of `asset_prices`. -/
structure AssetPriceRow where
  time : Time
  assetCode : String
  assetIssuer : String
  priceUsd : Decimal
  priceSource : String
  deriving DecidableEq

/-- A row of `whale_transactions`. -/
structure WhaleTransactionRow where
  time : Time
  opId : String
  txHash : String
  sourceAccount : String
  destAccount : Option String
  assetCode : String
  assetIssuer : Option String
  amount : Decimal
  deriving DecidableEq

/-- A row of `lending_positions`. -/
structure LendingPositionRow where
  time : Time
  protocol : String
  poolContract : String
  account : String
  collateralAsset : String
  collateralAmount : Decimal
  debtAsset : String
  debtAmount : Decimal
  ltv : Option Decimal
  healthFactor : Option Decimal
  deriving DecidableEq

/-- A row of `alerts`. -/
structure AlertRow where
  id : ℕ
  time : Time
  kind : String
  severity : String
  message : Text
  details : Json
  acknowledgedAt : Option Time
  deriving DecidableEq

/-- The database. -/
structure Db where
  alertRules : List AlertRuleRow
  alertChannels : List AlertChannelRow
  pools : List PoolRow
  poolSnapshots : List PoolSnapshotRow
  tokens : List TokenRow
  tokenSnapshots : List TokenSnapshotRow
  assetPrices : List AssetPriceRow
  whaleTransactions : List WhaleTransactionRow
  lendingPositions : List LendingPositionRow
  alerts : List AlertRow
  /-- The sequence behind `alerts.id`. -/
  alertSeq : ℕ
  /-- `ingest_state`, by key. -/
  ingestState : String → Option String

/-- A database without rows. -/
def Db.empty : Db where
  alertRules := []
  alertChannels := []
  pools := []
  poolSnapshots := []
  tokens := []
  tokenSnapshots := []
  assetPrices := []
  whaleTransactions := []
  lendingPositions := []
  alerts := []
  alertSeq := 1
  ingestState := fun _ => none

/-- A message posted to a webhook: its address and the one field of its body. -/
structure Post where
  url : String
  field : String
  body : Text
  deriving DecidableEq

/-- What a run of the ingester leaves behind. -/
structure World where
  db : Db
  /-- The webhook messages delivered. -/
  posts : List Post
  /-- The live events published with `pg_notify`: kind, severity, message and time. -/
  notified : List (String × String × Text × Time)

/-- The world before the first cycle. -/
def World.empty : World := ⟨Db.empty, [], []⟩

/-- One awaited query. -/
def fetch {α : Type} (f : Fault) (q : Db → α) : Proc World Error α :=
  Proc.await f .db fun w => (q w.db, w)

/-- One awaited statement. -/
def exec (f : Fault) (u : Db → Db) : Proc World Error Unit :=
  Proc.await f .db fun w => ((), { w with db := u w.db })

/-- A query that returns has read the database, and nothing is changed. -/
theorem fetch_fst_eq_ret {α : Type} {f : Fault} {q : Db → α} {w : World} {a : α} :
    (fetch f q w).1 = .ret a ↔ f = .ok ∧ q w.db = a := by
  cases f <;> simp [fetch]

@[simp] theorem fetch_snd {α : Type} (f : Fault) (q : Db → α) (w : World) :
    (fetch f q w).2 = w := by
  cases f <;> rfl

section Within

variable {R : World → World → Prop} [IsPreorder World R] {f : Fault}

theorem within_fetch {α : Type} {q : Db → α} : Proc.Within R (fetch f q) :=
  Proc.within_await fun w => refl w

theorem within_exec {u : Db → Db} (h : ∀ w : World, R w { w with db := u w.db }) :
    Proc.Within R (exec f u) :=
  Proc.within_await h

end Within

namespace Tx

/-- One query of a transaction. -/
def fetch {α : Type} (f : Fault) (q : Db → α) : Proc (Tx World) Error α :=
  statement f .db fun w => (q w.db, w)

/-- One statement of a transaction, with the value it reports. -/
def execReturning {α : Type} (f : Fault) (u : Db → α × Db) : Proc (Tx World) Error α :=
  statement f .db fun w => ((u w.db).1, { w with db := (u w.db).2 })

/-- One statement of a transaction. -/
def exec (f : Fault) (u : Db → Db) : Proc (Tx World) Error Unit :=
  execReturning f fun db => ((), u db)

variable {R : World → World → Prop} [IsPreorder World R] {f : Fault}

theorem within_fetch {α : Type} {q : Db → α} : Proc.Within (Tx.Via R) (fetch f q) :=
  within_statement fun w => refl w

theorem within_exec {u : Db → Db} (h : ∀ w : World, R w { w with db := u w.db }) :
    Proc.Within (Tx.Via R) (exec f u) :=
  within_statement h

end Tx

/-! ### Ingestion checkpoints -/

/-- `get_ingest_cursor`. -/
def getIngestCursor (key : String) (db : Db) : Option String := db.ingestState key

/-- `set_ingest_cursor`. -/
def setIngestCursor (key value : String) (db : Db) : Db :=
  { db with ingestState := Function.update db.ingestState key (some value) }

end Lumina
