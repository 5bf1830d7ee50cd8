import Lumina.Model.Soroban

/-!
# What an event says

Decoding an event reads its name, its reserve, its account and its greatest amount, and only then
scales the amount and reads the time (`decodeEvent_eq`).  Up to there it skips the event or
returns an error; the scaling is the one operation of it that can panic (`decodeEvent_eq_panic`).

## Main definitions

* `RawEvent`, `readEvent`, `rawEvent` : a position event before its amount is scaled.
-/

namespace Lumina

/-- A position event before its amount is scaled. -/
structure RawEvent where
  kind : PositionEvent
  reserveAsset : String
  account : String
  rawAmount : ℤ
  deriving DecidableEq

/-- What decoded topics and a value say, `none` where they are no position event or say too
little. -/
def readEvent (X : Codec) (topics : List ScVal) (value : ScVal) : Option RawEvent := do
  let eventName ← topics.head?.bind scValSymbol
  let kind ← classify eventName
  let reserveAsset := (topics[1]?.bind (scValAddressString X)).getD "unknown"
  let found := walkScVec X (topics.drop 1 ++ [value]) ([], [])
  let account ← found.1.find? (· ≠ reserveAsset)
  let rawAmount ← found.2.max?
  return ⟨kind, reserveAsset, account, rawAmount⟩

/-- What an event says. -/
def rawEvent (X : Codec) (event : RpcEvent) : Option RawEvent := do
  let topics ← event.topic.mapM X.fromXdrBase64
  let value ← X.fromXdrBase64 event.value
  readEvent X topics value

variable {D : RustDecimal} {X : Codec} {event : RpcEvent} {e : Decoded} {r : RawEvent}

/-- The scaling of the amount and the reading of the time come last. -/
theorem decodeEvent_eq : decodeEvent D X event = (do
    let topics ← Outcome.ofOption (.msg "bad topic xdr") (event.topic.mapM X.fromXdrBase64)
    let value ← Outcome.ofOption (.msg "bad value xdr") (X.fromXdrBase64 event.value)
    match readEvent X topics value with
    | none => return none
    | some r => do
      let amount ← Outcome.orPanic (D.fromI128WithScale r.rawAmount amountScale)
      let time ← Outcome.ofOption (.msg "bad ledgerClosedAt") (X.parseTime event.ledgerClosedAt)
      return some ⟨r.kind, r.reserveAsset, r.account, amount, time⟩) := by
  unfold decodeEvent
  congr 1
  funext topics
  congr 1
  funext value
  unfold readEvent
  cases topics.head?.bind scValSymbol with
  | none => rfl
  | some eventName =>
    simp only [Option.bind_eq_bind, Option.bind_some]
    cases classify eventName with
    | none => rfl
    | some kind =>
      simp only [Option.bind_some]
      cases (walkScVec X (topics.drop 1 ++ [value]) ([], [])).1.find?
          (· ≠ (topics[1]?.bind (scValAddressString X)).getD "unknown") with
      | none => rfl
      | some account =>
        cases (walkScVec X (topics.drop 1 ++ [value]) ([], [])).2.max? with
        | none => rfl
        | some rawAmount => rfl

/-- A position event is scaled and its time read. -/
theorem decodeEvent_of_raw (h : rawEvent X event = some r) :
    decodeEvent D X event = (do
      let amount ← Outcome.orPanic (D.fromI128WithScale r.rawAmount amountScale)
      let time ← Outcome.ofOption (.msg "bad ledgerClosedAt") (X.parseTime event.ledgerClosedAt)
      return some ⟨r.kind, r.reserveAsset, r.account, amount, time⟩) := by
  obtain ⟨topics, htopics, h⟩ := Option.bind_eq_some_iff.1 h
  obtain ⟨value, hvalue, h⟩ := Option.bind_eq_some_iff.1 h
  rw [decodeEvent_eq, htopics, hvalue, Outcome.ofOption_some, Outcome.ret_bind,
    Outcome.ofOption_some, Outcome.ret_bind, h]

/-- Anything else is skipped, or an error. -/
theorem decodeEvent_of_none (h : rawEvent X event = none) :
    decodeEvent D X event = .ret none ∨ ∃ u, decodeEvent D X event = .err u := by
  rw [decodeEvent_eq]
  cases htopics : event.topic.mapM X.fromXdrBase64 with
  | none => exact .inr ⟨_, rfl⟩
  | some topics =>
    cases hvalue : X.fromXdrBase64 event.value with
    | none => exact .inr ⟨_, rfl⟩
    | some value =>
      have hread : readEvent X topics value = none := by
        simpa [rawEvent, htopics, hvalue] using h
      rw [Outcome.ofOption_some, Outcome.ret_bind, Outcome.ofOption_some, Outcome.ret_bind, hread]
      exact .inl rfl

/-- **A decoded event** is the scaled reading of a position event. -/
theorem decodeEvent_eq_ret : decodeEvent D X event = .ret (some e) ↔
    ∃ r, rawEvent X event = some r ∧ D.fromI128WithScale r.rawAmount amountScale = some e.amount ∧
      X.parseTime event.ledgerClosedAt = some e.time ∧ e.kind = r.kind ∧
      e.reserveAsset = r.reserveAsset ∧ e.account = r.account := by
  cases hr : rawEvent X event with
  | none =>
    rcases @decodeEvent_of_none D X event hr with h | ⟨u, h⟩
    · simp [h]
    · simp [h]
  | some r =>
    rw [decodeEvent_of_raw hr]
    cases hamount : D.fromI128WithScale r.rawAmount amountScale with
    | none => simp [hamount]
    | some amount =>
      cases X.parseTime event.ledgerClosedAt with
      | none => simp
      | some time =>
        cases e
        simp only [Outcome.orPanic_some, Outcome.ret_bind, Outcome.ofOption_some, Outcome.pure_eq,
          Outcome.ret.injEq, Option.some.injEq, Decoded.mk.injEq, exists_eq_left', hamount]
        grind

/-- **The one panic of decoding** is the scaling of an amount that is too large. -/
theorem decodeEvent_eq_panic : decodeEvent D X event = .panic ↔
    ∃ r, rawEvent X event = some r ∧ D.fromI128WithScale r.rawAmount amountScale = none := by
  cases hr : rawEvent X event with
  | none =>
    rcases @decodeEvent_of_none D X event hr with h | ⟨u, h⟩
    · simp [h]
    · simp [h]
  | some r =>
    rw [decodeEvent_of_raw hr]
    cases hamount : D.fromI128WithScale r.rawAmount amountScale with
    | none => simp [hamount]
    | some amount =>
      cases X.parseTime event.ledgerClosedAt with
      | none => simp [hamount]
      | some time => simp [hamount]

end Lumina
