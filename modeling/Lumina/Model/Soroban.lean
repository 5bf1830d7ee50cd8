import Lumina.Model.Config
import Lumina.Sql.Latest
import Mathlib.Data.List.Sort

/-!
# The lending ingester

Blend pools emit contract events.  One cycle of the ingester fetches the events after its
cursor from the Soroban RPC, page by page, turns each position event into a new row of
`lending_positions`, and moves the cursor.

The XDR and address formats and the time format come from libraries; they are the parameter
`Codec`.

## Main definitions

* `ScVal`, `walkScVal` : the decoded values, and the addresses and amounts found in them.
* `getEvents` : the walk along the RPC's pages.
* `decodeEvent`, `nextPosition`, `storeEvent`, `processEvent` : one event.
* `ingestLendingCycle` : one cycle.
-/

namespace Lumina

/-! ### Events -/

/-- The address kinds. -/
inductive ScAddress where
  | account (ed25519 : List UInt8)
  | contract (hash : List UInt8)
  | other
  deriving DecidableEq

/-- A decoded value; `other` stands for the kinds that the ingester does not look at. -/
inductive ScVal where
  | symbol (sym : ByteArray)
  | address (addr : ScAddress)
  | i128 (hi : Int64) (lo : UInt64)
  | vec (v : Option (List ScVal))
  | map (m : Option (List (ScVal × ScVal)))
  | other

/-- The formats that libraries read and write. -/
structure Codec where
  /-- `ScVal::from_xdr_base64`. -/
  fromXdrBase64 : String → Option ScVal
  /-- The text form of an account key. -/
  accountStrkey : List UInt8 → String
  /-- The text form of a contract address. -/
  contractStrkey : List UInt8 → String
  /-- Parsing of a `DateTime<Utc>`. -/
  parseTime : String → Option Time

/-- An event as the RPC reports it, `value` being its XDR text in either shape. -/
structure RpcEvent where
  id : String
  contractId : String
  topic : List String
  value : String
  ledgerClosedAt : String
  deriving DecidableEq

/-- A page of events with the RPC's own cursor. -/
structure GetEventsResult where
  events : List RpcEvent
  cursor : Option String
  deriving DecidableEq

/-- The parameters of a `getEvents` request. -/
structure EventsRequest where
  startLedger : Option ℕ
  cursor : Option String
  limit : ℕ
  contractIds : List String
  deriving DecidableEq

/-- The Soroban RPC, as one cycle sees it: its answer to the `n`-th `getEvents` request. -/
abbrev EventsRpc := ℕ → EventsRequest → Outcome Error GetEventsResult

def eventsCursorKey : String := "blend_events_cursor"

def maxEventPages : ℕ := 10

def pageLimit : ℕ := 200

def coldStartLedgerLookback : ℕ := 250

/-- The pages after `cursor`, at most the given number of them; `n` have been read before. -/
def getEventsFrom (rpc : EventsRpc) (startLedger : Option ℕ) (contractIds : List String) :
    ℕ → ℕ → Option String → Outcome Error (List RpcEvent × Option String)
  | 0, _, cursor => .ret ([], cursor)
  | maxPages + 1, n, cursor => do
    -- `expect`: a request without a cursor needs a start ledger
    let start ← if cursor.isNone then do
        let ledger ← Outcome.orPanic startLedger
        pure (some ledger)
      else pure none
    let result ← rpc n ⟨start, cursor, pageLimit, contractIds⟩
    match result.cursor with
    -- a page without a cursor leaves the cursor where it was
    | none => return (result.events, cursor)
    | some next =>
      -- a short page is the last
      if result.events.length < pageLimit then return (result.events, some next)
      else do
        let (rest, last) ← getEventsFrom rpc startLedger contractIds maxPages (n + 1) (some next)
        return (result.events ++ rest, last)

/-- One page of the walk: it is the last, or the walk goes on from its cursor. -/
theorem getEventsFrom_succ {rpc : EventsRpc} {startLedger : Option ℕ} {contractIds : List String}
    {maxPages n : ℕ} {cursor next : Option String}
    {events : List RpcEvent}
    (h : getEventsFrom rpc startLedger contractIds (maxPages + 1) n cursor = .ret (events, next)) :
    ∃ start page, rpc n ⟨start, cursor, pageLimit, contractIds⟩ = .ret page ∧
      (cursor = none → start = startLedger) ∧
      (page.cursor = none ∧ events = page.events ∧ next = cursor ∨
        page.cursor = next ∧ events = page.events ∨
        ∃ c rest, page.cursor = some c ∧ events = page.events ++ rest ∧
          getEventsFrom rpc startLedger contractIds maxPages (n + 1) (some c) =
            .ret (rest, next)) := by
  have hpage : ∀ start, (do
        let page ← rpc n ⟨start, cursor, pageLimit, contractIds⟩
        match page.cursor with
        | none => return (page.events, cursor)
        | some c =>
          if page.events.length < pageLimit then return (page.events, some c)
          else do
            let (rest, last) ← getEventsFrom rpc startLedger contractIds maxPages (n + 1) (some c)
            return (page.events ++ rest, last)) = Outcome.ret (events, next) →
      ∃ page, rpc n ⟨start, cursor, pageLimit, contractIds⟩ = .ret page ∧
        (page.cursor = none ∧ events = page.events ∧ next = cursor ∨
          page.cursor = next ∧ events = page.events ∨
          ∃ c rest, page.cursor = some c ∧ events = page.events ++ rest ∧
            getEventsFrom rpc startLedger contractIds maxPages (n + 1) (some c) =
              .ret (rest, next)) := by
    intro start h
    obtain ⟨page, hr, h⟩ := Outcome.bind_eq_ret.1 h
    refine ⟨page, hr, ?_⟩
    cases hc : page.cursor with
    | none =>
      obtain ⟨rfl, rfl⟩ : page.events = events ∧ cursor = next := by simpa [hc] using h
      exact .inl ⟨rfl, rfl, rfl⟩
    | some c =>
      simp only [hc] at h
      split_ifs at h with hshort
      · obtain ⟨rfl, rfl⟩ : page.events = events ∧ some c = next := by simpa using h
        exact .inr (.inl ⟨rfl, rfl⟩)
      · obtain ⟨⟨rest, last⟩, hrest, h⟩ := Outcome.bind_eq_ret.1 h
        obtain ⟨rfl, rfl⟩ : page.events ++ rest = events ∧ last = next := by simpa using h
        exact .inr (.inr ⟨c, rest, rfl, rfl, hrest⟩)
  unfold getEventsFrom at h
  cases cursor with
  | none =>
    obtain ⟨ledger, hl, h⟩ := Outcome.bind_eq_ret.1 h
    obtain ⟨page, hp, hcases⟩ := hpage (some ledger) h
    refine ⟨some ledger, page, hp, ?_, hcases⟩
    intro _
    cases startLedger with
    | none => simp at hl
    | some l => exact congrArg some (by simpa using hl.symm)
  | some c =>
    obtain ⟨page, hp, hcases⟩ := hpage none h
    exact ⟨none, page, hp, by simp, hcases⟩

/-- The events after the resume cursor, or from the start ledger, with the cursor after them. -/
def getEvents (rpc : EventsRpc) (startLedger : Option ℕ) (resumeCursor : Option String)
    (contractIds : List String) (maxPages : ℕ) :
    Outcome Error (List RpcEvent × Option String) :=
  getEventsFrom rpc startLedger contractIds maxPages 0 resumeCursor

/-! ### Decoding -/

def formatScAddress (X : Codec) : ScAddress → String
  | .account bytes => X.accountStrkey bytes
  | .contract bytes => X.contractStrkey bytes
  | .other => "unsupported-address-kind"

def scValSymbol : ScVal → Option String
  | .symbol sym => String.fromUTF8? sym
  | _ => none

def scValAddressString (X : Codec) : ScVal → Option String
  | .address addr => some (formatScAddress X addr)
  | _ => none

/-- `((hi as i128) << 64) | (lo as i128)`. -/
def i128Value (hi : Int64) (lo : UInt64) : ℤ :=
  ((hi.toBitVec.signExtend 128) <<< 64 ||| lo.toBitVec.setWidth 128).toInt

/-- The addresses and amounts collected so far. -/
abbrev Found := List String × List ℤ

mutual

/-- Collects the addresses and amounts anywhere inside a value. -/
def walkScVal (X : Codec) : ScVal → Found → Found
  | .address addr, (addresses, amounts) => (addresses ++ [formatScAddress X addr], amounts)
  | .i128 hi lo, (addresses, amounts) => (addresses, amounts ++ [i128Value hi lo])
  | .vec (some vec), found => walkScVec X vec found
  | .map (some map), found => walkScMap X map found
  | _, found => found

def walkScVec (X : Codec) : List ScVal → Found → Found
  | [], found => found
  | v :: vec, found => walkScVec X vec (walkScVal X v found)

def walkScMap (X : Codec) : List (ScVal × ScVal) → Found → Found
  | [], found => found
  | (key, val) :: map, found => walkScMap X map (walkScVal X val (walkScVal X key found))

end

/-- The requests that move collateral or debt. -/
inductive PositionEvent where
  | supplyCollateral
  | withdrawCollateral
  | borrow
  | repay
  deriving DecidableEq

def classify (eventName : String) : Option PositionEvent :=
  if eventName = "supply_collateral" then some .supplyCollateral
  else if eventName = "withdraw_collateral" then some .withdrawCollateral
  else if eventName = "borrow" then some .borrow
  else if eventName = "repay" then some .repay
  else none

/-- What is read out of a position event. -/
structure Decoded where
  kind : PositionEvent
  reserveAsset : String
  account : String
  amount : Decimal
  time : Time
  deriving DecidableEq

def amountScale : ℕ := 7

/-- The event, `none` where it is not a position event or says too little. -/
def decodeEvent (D : RustDecimal) (X : Codec) (event : RpcEvent) :
    Outcome Error (Option Decoded) := do
  let topics ← Outcome.ofOption (.msg "bad topic xdr") (event.topic.mapM X.fromXdrBase64)
  let value ← Outcome.ofOption (.msg "bad value xdr") (X.fromXdrBase64 event.value)
  match topics.head?.bind scValSymbol with
  | none => return none
  | some eventName =>
  match classify eventName with
  | none => return none
  | some kind =>
  let reserveAsset := (topics[1]?.bind (scValAddressString X)).getD "unknown"
  let (addresses, amounts) := walkScVec X (topics.drop 1 ++ [value]) ([], [])
  match addresses.find? (· ≠ reserveAsset) with
  | none => return none
  | some account =>
  match amounts.max? with
  | none => return none
  | some rawAmount => do
    let amount ← Outcome.orPanic (D.fromI128WithScale rawAmount amountScale)
    let time ← Outcome.ofOption (.msg "bad ledgerClosedAt") (X.parseTime event.ledgerClosedAt)
    return some ⟨kind, reserveAsset, account, amount, time⟩

/-! ### Positions -/

/-- The assets and amounts of a position. -/
structure Holdings where
  collateralAsset : String
  collateralAmount : Decimal
  debtAsset : String
  debtAmount : Decimal
  deriving DecidableEq

/-- A position without a row. -/
def Holdings.empty : Holdings := ⟨"", 0, "", 0⟩

/-- The holdings of a row. -/
def LendingPositionRow.holdings (l : LendingPositionRow) : Holdings :=
  ⟨l.collateralAsset, l.collateralAmount, l.debtAsset, l.debtAmount⟩

/-- The holdings after an event; `none` is the panic of the arithmetic. -/
def Holdings.apply (D : RustDecimal) (h : Holdings) (e : Decoded) : Option Holdings :=
  match e.kind with
  | .supplyCollateral => do
    let amount ← D.add h.collateralAmount e.amount
    return { h with collateralAsset := e.reserveAsset, collateralAmount := amount }
  | .withdrawCollateral => do
    -- the asset of the event is not compared with that of the position
    let amount ← D.sub h.collateralAmount e.amount
    return { h with collateralAmount := max amount 0 }
  | .borrow => do
    let amount ← D.add h.debtAmount e.amount
    return { h with debtAsset := e.reserveAsset, debtAmount := amount }
  | .repay => do
    let amount ← D.sub h.debtAmount e.amount
    return { h with debtAmount := max amount 0 }

/-- The row that an event adds after the latest one; `none` is the panic of the arithmetic. -/
def nextPosition (D : RustDecimal) (prices : PriceMap) (poolContract : String)
    (latest : Option LendingPositionRow) (e : Decoded) : Option LendingPositionRow := do
  let h ← ((latest.map (·.holdings)).getD Holdings.empty).apply D e
  let (ltv, healthFactor) ← computeLendingRisk D h.collateralAmount (prices h.collateralAsset)
    h.debtAmount (prices h.debtAsset)
  return ⟨e.time, "blend", poolContract, e.account, h.collateralAsset, h.collateralAmount,
    h.debtAsset, h.debtAmount, ltv, healthFactor⟩

/-- The rows of one position, each with its place in the table. -/
def lendingRows (protocol poolContract account : String) (db : Db) :
    List (LendingPositionRow × ℕ) :=
  db.lendingPositions.zipIdx.filter fun r =>
    r.1.protocol = protocol && r.1.poolContract = poolContract && r.1.account = account

/-- The newest row of a position, with its place in the table. -/
def latestLendingRow (tie : ℕ) (protocol poolContract account : String) (db : Db) :
    Option (LendingPositionRow × ℕ) :=
  Sql.latest tie (·.1.time) (lendingRows protocol poolContract account db)

/-- `latest_lending_position`. -/
def latestLendingPosition (tie : ℕ) (protocol poolContract account : String) (db : Db) :
    Option LendingPositionRow :=
  (latestLendingRow tie protocol poolContract account db).map (·.1)

/-- The rows of `list_lending_positions`, each with its place in the table. -/
def listLendingRows (tie : String × String × String → ℕ) (db : Db) :
    List (LendingPositionRow × ℕ) :=
  Sql.distinctOn tie (fun r => (r.1.protocol, r.1.poolContract, r.1.account)) (·.1.time)
    db.lendingPositions.zipIdx

/-- `list_lending_positions`, up to the order of the positions. -/
def listLendingPositions (tie : String × String × String → ℕ) (db : Db) :
    List LendingPositionRow :=
  (listLendingRows tie db).map (·.1)

/-- `insert_lending_position`. -/
def insertLendingPosition (row : LendingPositionRow) (db : Db) : Db :=
  { db with lendingPositions := db.lendingPositions ++ [row] }

/-! ### Escalation -/

/-- The first `n` bytes of a text, `none` off a character boundary. -/
def takeBytes : ℕ → List Char → Option (List Char)
  | 0, _ => some []
  | _ + 1, [] => none
  | n + 1, c :: cs =>
    if c.utf8Size ≤ n + 1 then (takeBytes (n + 1 - c.utf8Size) cs).map (c :: ·) else none

/-- A text without its first `n` bytes, `none` off a character boundary. -/
def dropBytes : ℕ → List Char → Option (List Char)
  | 0, cs => some cs
  | _ + 1, [] => none
  | n + 1, c :: cs =>
    if c.utf8Size ≤ n + 1 then dropBytes (n + 1 - c.utf8Size) cs else none

/-- An abbreviated address; `none` is the panic of a slice off a character boundary. -/
def short (s : String) : Option String :=
  if s.utf8ByteSize ≤ 12 then some s
  else do
    let head ← takeBytes 6 s.toList
    let tail ← dropBytes (s.utf8ByteSize - 4) s.toList
    return String.ofList head ++ "…" ++ String.ofList tail

/-- The band of a row's LTV, where it has one. -/
def LendingPositionRow.level (bands : LtvBands) (l : LendingPositionRow) : Option RiskLevel :=
  l.ltv.map fun v => riskLevelWithBands v bands

/-- The LTV and band of a new row that crossed upwards into `HIGH` or `CRITICAL`. -/
def escalation (bands : LtvBands) (latest : Option LendingPositionRow)
    (row : LendingPositionRow) : Option (Decimal × RiskLevel) :=
  row.ltv.bind fun ltv =>
    let level := riskLevelWithBands ltv bands
    if level.alertable &&
        ((latest.bind (·.level bands)).all fun prev => riskRank prev < riskRank level)
    then some (ltv, level)
    else none

/-- The alert of a new row, if it escalated; the outer option is the panic of `short`. -/
def lendingAlert (bands : LtvBands) (latest : Option LendingPositionRow)
    (row : LendingPositionRow) : Option (Option PendingAlert) :=
  match escalation bands latest row with
  | none => some none
  | some (ltv, level) => do
    let account ← short row.account
    let contract ← short row.poolContract
    return some
      { kind := "liquidation_risk"
        severity := severityForRiskLevel level
        message := [.str "Blend position ", .str account, .str " in pool ", .str contract,
          .str " crossed into ", .str level.asStr, .str " risk (LTV ", .dec1 ltv, .str "%)"]
        details := [("account", some [.str row.account]),
          ("pool_contract", some [.str row.poolContract]),
          ("ltv", some [.dec ltv]),
          ("health_factor", row.healthFactor.map fun h => [.dec h]),
          ("risk_level", some [.str level.asStr])] }

/-! ### One event -/

/-- The environment of `processEvent`. -/
structure EventEnv where
  /-- The choice of the database among the latest rows that tie. -/
  tie : ℕ
  latest : Fault
  insert : Fault
  record : RecordEnv

section Process

variable (D : RustDecimal) (X : Codec) (config : Config) (prices : PriceMap) (bands : LtvBands)

/-- The part of `processEvent` up to the insertion: the new row's alert, if it escalated, or
`none` where no row is written. -/
def storeEvent (env : EventEnv) (event : RpcEvent) :
    Proc World Error (Option (Option PendingAlert)) := do
  match ← Proc.lift (decodeEvent D X event) with
  | none => return none
  | some e => do
    let latest ← fetch env.latest
      (latestLendingPosition env.tie "blend" event.contractId e.account)
    let row ← Proc.lift (.orPanic (nextPosition D prices event.contractId latest e))
    exec env.insert (insertLendingPosition row)
    let alert ← Proc.lift (.orPanic (lendingAlert bands latest row))
    return some alert

/-- Writes the row of one event and records its alert; whether a row was written. -/
def processEvent (env : EventEnv) (event : RpcEvent) : Proc World Error Bool := do
  match ← storeEvent D X prices bands env event with
  | none => return false
  | some none => return true
  | some (some alert) => do
    -- an error of the recording is logged
    let _ ← (record env.record config.webhook alert).attempt
    return true

end Process

/-! ### One cycle -/

/-- The environment of `ingestLendingCycle`. -/
structure LendingEnv where
  rules : Fault
  getCursor : Fault
  latestLedger : Outcome Error ℕ
  rpc : EventsRpc
  event : ℕ → EventEnv
  setCursor : Fault

/-- `list_alert_rules`. -/
def listAlertRules (db : Db) : List AlertRuleRow :=
  db.alertRules.insertionSort fun a b => a.id ≤ b.id

/-- The rules, or none of them where they cannot be read. -/
def loadRules (f : Fault) : Proc World Error (List AlertRuleRow) := do
  match ← (fetch f listAlertRules).attempt with
  | .ok rules => return rules
  | .error _ => return []

/-- The loop over the fetched events; an error of one event is logged and skipped. -/
def processEvents (D : RustDecimal) (X : Codec) (config : Config) (prices : PriceMap)
    (bands : LtvBands) (env : ℕ → EventEnv) (events : List RpcEvent) : Proc World Error Unit :=
  events.zipIdx.foldlM (fun _ (event, i) => do
    -- an event that fails is logged and skipped
    let _ ← (processEvent D X config prices bands (env i) event).attempt) ()

/-- One cycle of the lending ingester. -/
def ingestLendingCycle (D : RustDecimal) (X : Codec) (config : Config) (env : LendingEnv)
    (contractIds : List String) : Proc World Error Unit := do
  let prices := config.blendAssetPricesUsd D
  let rules ← loadRules env.rules
  let bands := resolveLtvBands rules
  let cursor ← fetch env.getCursor (getIngestCursor eventsCursorKey)
  let startLedger ← match cursor with
    | some _ => pure none
    | none => do
      let sequence ← Proc.lift env.latestLedger
      pure (some (sequence - coldStartLedgerLookback))
  let (events, nextCursor) ←
    Proc.lift (getEvents env.rpc startLedger cursor contractIds maxEventPages)
  -- each event commits on its own; the cursor is written after all of them
  processEvents D X config prices bands env.event events
  match nextCursor with
  | none => pure ()
  | some nextCursor => exec env.setCursor (setIngestCursor eventsCursorKey nextCursor)

end Lumina
