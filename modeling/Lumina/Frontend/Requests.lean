import Lumina.Api.CacheRun
import Lumina.Model.Client

/-!
# What the dashboard asks is what the API answers

Every call of the dashboard without a body is read by the router as the request that it is meant to
be (`apiCall_parsed`): whatever the texts in it are, a search text with separators, accents or
apostrophes included, they are escaped, sent, cut apart and read back as they were.  The two
exceptions are as in the source: the id of a pool is sent as it is, and an empty text is not sent.

## Main definitions

* `ApiCall.Sendable` : what a call needs to arrive.
* `ApiCall.parts` : the segments and the fields of a call, before they are escaped.
-/

namespace Lumina

open Percent

/-! ### Escaping -/

theorem uriComponentKeeps_ascii (c : Char) (h : uriComponentKeeps c = true) : c.toNat < 128 := by
  have hbelow : ∀ hi : UInt32, hi.toNat < 128 → c.val ≤ hi → c.val.toNat < 128 :=
    fun hi hhi hle => lt_of_le_of_lt (UInt32.le_iff_toNat_le.1 hle) hhi
  unfold uriComponentKeeps at h
  rcases Bool.or_eq_true_iff.1 h with h | h
  · rcases Bool.or_eq_true_iff.1 (show (c.isAlpha || c.isDigit) = true from h) with h | h
    · rcases Bool.or_eq_true_iff.1 (show (c.isUpper || c.isLower) = true from h) with h | h
      · exact hbelow 'Z'.val (by decide) (of_decide_eq_true h).2
      · exact hbelow 'z'.val (by decide) (of_decide_eq_true (Bool.and_eq_true_iff.1 h).2)
    · exact hbelow '9'.val (by decide) (of_decide_eq_true (Bool.and_eq_true_iff.1 h).2)
  · simp only [decide_eq_true_eq, List.mem_cons, List.not_mem_nil, or_false] at h
    rcases h with rfl | rfl | rfl | rfl | rfl | rfl | rfl | rfl | rfl <;> decide

theorem uriComponentKeeps_keeps : Form.Keeps uriComponentKeeps where
  ascii := uriComponentKeeps_ascii
  percent := by decide
  plus := by decide
  and := by decide
  equals := by decide

/-- What the browser keeps of it in a query. -/
def queryKeeps (c : Char) : Bool := uriComponentKeeps c && c ≠ apostrophe

theorem queryKeeps_keeps : Form.Keeps queryKeeps where
  ascii c h := uriComponentKeeps_ascii c (Bool.and_eq_true_iff.1 h).1
  percent := by decide
  plus := by decide
  and := by decide
  equals := by decide

theorem escapeAlso_encodeURIComponent (s : String) :
    escapeAlso 39 (encodeURIComponent s) = encode queryKeeps (utf8 s) :=
  escapeAlso_encode (by decide) (by decide) _

theorem encodeURIComponent_of_kept {s : String} (h : s.toList.all uriComponentKeeps = true) :
    encodeURIComponent s = s.toList := by
  have hs := encode_of_kept uriComponentKeeps_keeps.toKeeps (List.all_eq_true.1 h)
  rwa [String.ofList_toList] at hs

/-- A separator of an address is not in what is escaped. -/
theorem not_mem_encodeURIComponent {c : Char} (hc : uriComponentKeeps c = false)
    (hpercent : c ≠ '%') (hhex : hexValue c = none) (s : String) : c ∉ encodeURIComponent s :=
  not_mem_encode hc hpercent hhex _

/-! ### An address arrives -/

/-- The address of some segments and fields. -/
def Address.ofParts (segments : List String) (fields : List (String × String)) : Address where
  path := segments.map encodeURIComponent
  query := fields.map fun p => (encodeURIComponent p.1, encodeURIComponent p.2)

/-- The query that the server is sent. -/
def sentQuery (fields : List (String × String)) : String :=
  String.ofList (escapeAlso 39 (Form.fields (Address.ofParts [] fields).query))

section Arrives

variable {segments : List String} {fields : List (String × String)} {text : List UInt8 → String}

/-- **The fields arrive.** -/
theorem pairs_sentQuery (htext : ∀ s, text (utf8 s) = s) (fields : List (String × String)) :
    Form.pairs text (sentQuery fields).toList = fields := by
  have hplain : ∀ c s, queryKeeps c = false → c ≠ '%' → hexValue c = none →
      c ∉ encode queryKeeps (utf8 s) := fun c s hc hp hx => not_mem_encode hc hp hx _
  rw [sentQuery, String.toList_ofList, Form.escapeAlso_fields (by decide) (by decide),
    Address.ofParts, List.map_map, Form.pairs_fields, List.map_map]
  · have hid : ∀ p ∈ fields, (Form.readPart text (encode queryKeeps (utf8 p.1)),
        Form.readPart text (encode queryKeeps (utf8 p.2))) = p := by
      intro p _
      rw [Form.readPart_encode queryKeeps_keeps htext, Form.readPart_encode queryKeeps_keeps htext]
    refine (List.map_congr_left fun p hp => ?_).trans (List.map_id fields)
    simp only [Function.comp_apply, escapeAlso_encodeURIComponent]
    exact hid p hp
  · intro p hp
    obtain ⟨kv, -, rfl⟩ := List.mem_map.1 hp
    simp only [Function.comp_apply, escapeAlso_encodeURIComponent]
    exact ⟨hplain _ _ (by decide) (by decide) (by decide),
      hplain _ _ (by decide) (by decide) (by decide),
      hplain _ _ (by decide) (by decide) (by decide)⟩

theorem path_eq_intercalate (l : List (List Char)) :
    l.flatMap (fun segment => '/' :: segment) = List.intercalate ['/'] ([] :: l) := by
  induction l with
  | nil => rfl
  | cons s l ih =>
    rw [List.flatMap_cons, ih]
    cases l with
    | nil => simp
    | cons s' l => simp

/-- The path is cut at its slashes. -/
theorem splitOn_path (segments : List String) :
    (((segments.map encodeURIComponent).flatMap fun segment => '/' :: segment).splitOn '/').tail =
      segments.map encodeURIComponent := by
  rw [path_eq_intercalate, List.splitOn_intercalate '/' ?_ (List.cons_ne_nil _ _)]
  · rfl
  · intro l hl
    rcases List.mem_cons.1 hl with rfl | hl
    · exact List.not_mem_nil
    · obtain ⟨s, -, rfl⟩ := List.mem_map.1 hl
      exact not_mem_encodeURIComponent (by decide) (by decide) (by decide) s

theorem mapM_decode (segments : List String) :
    (segments.map encodeURIComponent).mapM (fun segment => ofUtf8? (decode segment)) =
      some segments := by
  induction segments with
  | nil => rfl
  | cons s segments ih =>
    have hs : ofUtf8? (decode (encodeURIComponent s)) = some s := by
      rw [encodeURIComponent, decode_encode uriComponentKeeps_keeps.toKeeps, ofUtf8?_utf8]
    rw [List.map_cons, List.mapM_cons, hs, ih]
    rfl

/-- **An address arrives** as its segments and its fields. -/
theorem ofAddress?_ofParts (method : Method) (headers : HeaderMap)
    (hdot : "." ∉ segments) (hdots : ".." ∉ segments) (fields : List (String × String)) :
    Request.ofAddress? method headers (Address.ofParts segments fields).text =
      some ⟨method, segments, sentQuery fields, headers, []⟩ := by
  have hpath : '?' ∉ (segments.map encodeURIComponent).flatMap fun segment => '/' :: segment := by
    intro h
    obtain ⟨l, hl, hmem⟩ := List.mem_flatMap.1 h
    obtain ⟨s, -, rfl⟩ := List.mem_map.1 hl
    rcases List.mem_cons.1 hmem with heq | hmem
    · exact absurd heq (by decide)
    · exact not_mem_encodeURIComponent (by decide) (by decide) (by decide) s hmem
  have hparts : (Text.cut '?' (Address.ofParts segments fields).text).getD
      ((Address.ofParts segments fields).text, []) =
        ((segments.map encodeURIComponent).flatMap (fun segment => '/' :: segment),
          Form.fields (Address.ofParts segments fields).query) := by
    unfold Address.text
    split_ifs with hnil
    · rw [List.append_nil, hnil, show (Address.ofParts segments fields).path =
        segments.map encodeURIComponent from rfl, Text.cut_of_not_mem hpath]
      rfl
    · rw [show (Address.ofParts segments fields).path = segments.map encodeURIComponent from rfl,
        Text.cut_append hpath]
      rfl
  unfold Request.ofAddress?
  simp only [hparts, splitOn_path, mapM_decode, Option.bind_eq_bind, Option.bind_some]
  rw [if_neg (by simp [hdot, hdots])]
  rfl

end Arrives

/-! ### The calls -/

namespace ApiCall

/-- A whole number that a number of the page holds exactly. -/
def IsSafeInteger (n : ℤ) : Prop := -2 ^ 53 < n ∧ n < 2 ^ 53

/-- A segment that is not resolved by the browser. -/
def IsSegment (s : String) : Prop := s ≠ "" ∧ s ≠ "." ∧ s ≠ ".."

instance : DecidablePred IsSegment := fun s =>
  inferInstanceAs (Decidable (s ≠ "" ∧ s ≠ "." ∧ s ≠ ".."))

/-- What a call needs to arrive: numbers that are exact, texts that may be segments, an id of a pool
without separators, and an amount that is read as `amount`. -/
def Sendable (parseF64 : String → Option F64) (amount : F64) : ApiCall → Prop
  | tvl hours => IsSafeInteger hours
  | pools limit offset => IsSafeInteger limit ∧ IsSafeInteger offset
  | poolHistory poolId hours =>
    IsSegment poolId ∧ poolId.toList.all uriComponentKeeps = true ∧ IsSafeInteger hours
  | poolsTrending hours => IsSafeInteger hours
  | tokens limit offset => IsSafeInteger limit ∧ IsSafeInteger offset
  | tokensTrending hours => IsSafeInteger hours
  | tokenHistory assetCode assetIssuer hours =>
    IsSegment assetCode ∧ IsSegment assetIssuer ∧ IsSafeInteger hours
  | whaleTransactions minAmount limit _ =>
    minAmount.toList.all uriComponentKeeps = true ∧ parseF64 minAmount = some amount ∧
      IsSafeInteger limit
  | liquidations => True
  | alerts limit _ => IsSafeInteger limit
  | acknowledgeAlert id => IsSafeInteger id
  | unacknowledgeAlert id => IsSafeInteger id
  | search _ limit => IsSafeInteger limit
  | alertChannels => True
  | deleteAlertChannel id => IsSafeInteger id
  | alertRules => True
  | deleteAlertRule id => IsSafeInteger id
  | watchlist => True
  | removeFromWatchlist id => IsSafeInteger id

/-- A field that is left out where there is no text, or an empty one. -/
def optionalPair (key : String) (value : Option String) : List (String × String) :=
  ((given value).map fun v => (key, v)).toList

/-- The segments of a call. -/
def segments : ApiCall → List String
  | tvl _ => ["tvl"]
  | pools _ _ => ["pools"]
  | poolHistory poolId _ => ["pools", poolId, "history"]
  | poolsTrending _ => ["pools", "trending"]
  | tokens _ _ => ["tokens"]
  | tokensTrending _ => ["tokens", "trending"]
  | tokenHistory assetCode assetIssuer _ => ["tokens", assetCode, assetIssuer, "history"]
  | whaleTransactions _ _ _ => ["transactions", "whales"]
  | liquidations => ["liquidations"]
  | alerts _ _ => ["alerts"]
  | acknowledgeAlert id => ["alerts", toString id, "ack"]
  | unacknowledgeAlert id => ["alerts", toString id, "ack"]
  | search _ _ => ["search"]
  | alertChannels => ["alert-channels"]
  | deleteAlertChannel id => ["alert-channels", toString id]
  | alertRules => ["alert-rules"]
  | deleteAlertRule id => ["alert-rules", toString id]
  | watchlist => ["watchlist"]
  | removeFromWatchlist id => ["watchlist", toString id]

/-- The fields of a call. -/
def fields : ApiCall → List (String × String)
  | tvl hours => [("hours", toString hours)]
  | pools limit offset => [("limit", toString limit), ("offset", toString offset)]
  | poolHistory _ hours => [("hours", toString hours)]
  | poolsTrending hours => [("hours", toString hours)]
  | tokens limit offset => [("limit", toString limit), ("offset", toString offset)]
  | tokensTrending hours => [("hours", toString hours)]
  | tokenHistory _ _ hours => [("hours", toString hours)]
  | whaleTransactions minAmount limit account =>
    [("min_amount", minAmount), ("limit", toString limit)] ++ optionalPair "account" account
  | alerts limit opts =>
    [("limit", toString limit)] ++ optionalPair "kind" opts.kind ++
      optionalPair "pool_id" opts.poolId ++ optionalPair "asset_code" opts.assetCode ++
      optionalPair "asset_issuer" opts.assetIssuer ++
      if opts.unacknowledged then [("unacknowledged", "true")] else []
  | search q limit => [("q", q), ("limit", toString limit)]
  | _ => []

theorem number_eq (n : ℤ) : number n = encodeURIComponent (toString n) := by
  refine (encodeURIComponent_of_kept ?_).symm
  have hdigits : ∀ m : ℕ, (Nat.toDigits 10 m).all uriComponentKeeps = true := by
    intro m
    refine List.all_eq_true.2 fun c hc => ?_
    have hdigit := Nat.isDigit_of_mem_toDigits (by decide) (by decide) hc
    simp [uriComponentKeeps, Char.isAlphanum, hdigit]
  rw [toList_toString_int]
  split_ifs
  · exact hdigits _
  · rw [List.all_cons, hdigits, Bool.and_true]
    decide

/-- The words of the templates. -/
def words : List String :=
  ["tvl", "pools", "history", "trending", "tokens", "transactions", "whales", "liquidations",
    "alerts", "ack", "search", "alert-channels", "alert-rules", "watchlist", "hours", "limit",
    "offset", "min_amount", "account", "kind", "pool_id", "asset_code", "asset_issuer",
    "unacknowledged", "true", "q"]

/-- The words of the templates are not escaped. -/
theorem word_eq : ∀ w ∈ words, w.toList = encodeURIComponent w := by
  have hkept : ∀ w ∈ words, w.toList.all uriComponentKeeps = true := by decide +kernel
  exact fun w hw => (encodeURIComponent_of_kept (hkept w hw)).symm

theorem optional_eq {key : String} (hkey : key ∈ words) (value : Option String) :
    optional key value = (optionalPair key value).map fun p =>
      (encodeURIComponent p.1, encodeURIComponent p.2) := by
  unfold optional optionalPair given
  cases value with
  | none => rfl
  | some v =>
    by_cases hv : v = ""
    · subst hv
      rfl
    · rw [Option.filter_some, if_pos (by simpa using hv)]
      dsimp only
      rw [if_neg hv, field, word_eq key hkey]
      rfl

/-- **The address of a call** is that of its segments and its fields. -/
theorem address_eq {parseF64 : String → Option F64} {amount : F64} {call : ApiCall}
    (h : call.Sendable parseF64 amount) :
    call.address = Address.ofParts call.segments call.fields := by
  have hw := word_eq
  simp only [words, List.forall_mem_cons, List.not_mem_nil, false_imp_iff,
    implies_true, and_true] at hw
  cases call with
  | poolHistory poolId hours =>
    simp only [address, segments, fields, Address.ofParts, List.map_cons, List.map_nil,
      field, number_eq, hw]
    rw [encodeURIComponent_of_kept h.2.1]
  | whaleTransactions minAmount limit account =>
    simp only [address, segments, fields, Address.ofParts, List.map_cons, List.map_nil,
      List.map_append, field, number_eq, hw]
    rw [← encodeURIComponent_of_kept h.1, optional_eq (by decide)]
  | alerts limit opts =>
    have hflag : (if opts.unacknowledged then [field "unacknowledged" "true".toList] else []) =
        (if opts.unacknowledged then [("unacknowledged", "true")] else []).map fun p =>
          (encodeURIComponent p.1, encodeURIComponent p.2) := by
      split_ifs
      · simp only [field, hw, List.map_cons, List.map_nil]
      · rfl
    rw [address, segments, fields, Address.ofParts, hflag, optional_eq (by decide),
      optional_eq (by decide), optional_eq (by decide), optional_eq (by decide)]
    simp only [List.map_append, List.map_cons, List.map_nil, field, number_eq, hw]
  | _ =>
    simp only [address, segments, fields, Address.ofParts, List.map_cons, List.map_nil,
      field, number_eq, hw]

/-! ### The router reads it -/

theorem parseDigits_toDigits (m : ℕ) : parseDigits (Nat.toDigits 10 m) = some m := by
  have hfold : ∀ (l : List Char) (n : ℕ), (∀ c ∈ l, c.isDigit = true) →
      l.foldlM (fun n c => if c.isDigit then some (10 * n + (c.toNat - '0'.toNat)) else none) n =
        some (Nat.ofDigitChars 10 l n) := by
    intro l
    induction l with
    | nil => exact fun n _ => rfl
    | cons c l ih =>
      intro n h
      obtain ⟨hc, hl⟩ := List.forall_mem_cons.1 h
      rw [List.foldlM_cons, if_pos hc]
      exact ih _ hl
  rw [parseDigits, if_neg Nat.toDigits_ne_nil, hfold _ 0 fun c hc =>
    Nat.isDigit_of_mem_toDigits (by decide) (by decide) hc, Nat.ofDigitChars_ten_toDigits]

/-- **A number is read back.** -/
theorem parseI64_toString {n : ℤ} (h : IsSafeInteger n) : parseI64 (toString n) = some n := by
  obtain ⟨hlo, hhi⟩ := h
  have hrange : (some n).filter (fun n => -2 ^ 63 ≤ n && n < 2 ^ 63) = some n := by
    rw [Option.filter_some, if_pos]
    rw [Bool.and_eq_true, decide_eq_true_eq, decide_eq_true_eq]
    omega
  have hsign : ∀ c, c.isDigit = false → ∀ (m : ℕ) (rest : List Char),
      Nat.toDigits 10 m ≠ c :: rest := by
    intro c hc m rest heq
    exact not_mem_toDigits hc m (heq ▸ List.mem_cons_self)
  unfold parseI64
  rw [toList_toString_int]
  split_ifs with hn
  · split
    · rename_i rest heq
      exact absurd heq (hsign '-' (by decide) _ rest)
    · rename_i rest heq
      exact absurd heq (hsign '+' (by decide) _ rest)
    · rw [parseDigits_toDigits]
      show Option.filter _ (some (n.toNat : ℤ)) = some n
      rw [Int.toNat_of_nonneg hn]
      exact hrange
  · show Option.filter _ (Option.map (fun m : ℤ => -m)
      (do let a ← parseDigits (Nat.toDigits 10 (-n).toNat); pure (a : ℤ))) = some n
    rw [parseDigits_toDigits]
    show Option.filter _ (some (-((-n).toNat : ℤ))) = some n
    rw [Int.toNat_of_nonneg (by omega), neg_neg]
    exact hrange

/-! ### The fields are looked up -/

section Fields

variable {fields : List (String × String)} {key : String}

/-- Of fields that are given once, the one of a name is read. -/
theorem queryField_eq (h : (fields.map Prod.fst).Nodup) :
    queryField fields key = .ok (fields.lookup key) := by
  have hfilter : fields.filter (fun p => p.1 = key) =
      ((fields.lookup key).map fun v => (key, v)).toList := by
    induction fields with
    | nil => rfl
    | cons p fields ih =>
      obtain ⟨hp, hrest⟩ := List.nodup_cons.1 h
      by_cases hkey : p.1 = key
      · subst hkey
        have hnone : fields.filter (fun q => q.1 = p.1) = [] := by
          refine List.filter_eq_nil_iff.2 fun q hq heq => hp ?_
          exact of_decide_eq_true heq ▸ List.mem_map_of_mem hq
        rw [List.filter_cons_of_pos (by simp), hnone, List.lookup_cons_self]
        rfl
      · rw [List.filter_cons_of_neg (by simpa using hkey), ih hrest, List.lookup_cons,
          beq_false_of_ne (Ne.symm hkey)]
  unfold queryField
  rw [hfilter]
  cases fields.lookup key <;> rfl

theorem parsedField_eq {α : Type} {parse : String → Option α} (h : (fields.map Prod.fst).Nodup)
    {value : String} {a : α} (hvalue : fields.lookup key = some value) (ha : parse value = some a) :
    parsedField parse fields key = .ok (some a) := by
  unfold parsedField
  rw [queryField_eq h, hvalue]
  dsimp only [bind, Except.bind]
  rw [ha]
  rfl

theorem parsedField_none {α : Type} {parse : String → Option α}
    (h : (fields.map Prod.fst).Nodup) (hvalue : fields.lookup key = none) :
    parsedField parse fields key = .ok none := by
  unfold parsedField
  rw [queryField_eq h, hvalue]
  rfl

theorem lookup_optionalPair (key' : String) (value : Option String) :
    (optionalPair key' value).lookup key = if key = key' then given value else none := by
  unfold optionalPair
  cases given value with
  | none => split_ifs <;> rfl
  | some v =>
    rw [Option.map_some, Option.toList_some, List.lookup_cons, List.lookup_nil]
    split_ifs with hkey
    · rw [hkey, beq_self_eq_true]
    · rw [beq_false_of_ne hkey]

theorem map_fst_optionalPair (value : Option String) :
    ((optionalPair key value).map Prod.fst).Sublist [key] := by
  unfold optionalPair
  cases given value with
  | none => exact List.nil_sublist _
  | some v => exact List.Sublist.refl _

end Fields

/-- A call gives a field once. -/
theorem nodup_fields (call : ApiCall) : (call.fields.map Prod.fst).Nodup := by
  cases call with
  | whaleTransactions minAmount limit account =>
    have hkeys : (["min_amount", "limit"] ++ ["account"]).Nodup := by decide
    refine hkeys.sublist ?_
    rw [fields, List.map_append]
    exact (List.Sublist.refl _).append (map_fst_optionalPair account)
  | alerts limit opts =>
    have hflag : ((if opts.unacknowledged then [("unacknowledged", "true")] else []).map
        Prod.fst).Sublist ["unacknowledged"] := by
      split_ifs
      · exact List.Sublist.refl _
      · exact List.nil_sublist _
    have hkeys : (["limit"] ++ ["kind"] ++ ["pool_id"] ++ ["asset_code"] ++ ["asset_issuer"] ++
        ["unacknowledged"]).Nodup := by decide
    refine hkeys.sublist ?_
    simp only [fields, List.map_append]
    exact (((((List.Sublist.refl _).append (map_fst_optionalPair _)).append
      (map_fst_optionalPair _)).append (map_fst_optionalPair _)).append
      (map_fst_optionalPair _)).append hflag
  | _ => simp [fields]

theorem toString_isSegment (n : ℤ) : IsSegment (toString n) := by
  have hkept : ∀ c ∈ (toString n).toList, c = '-' ∨ c.isDigit = true := by
    rw [toList_toString_int]
    intro c hc
    split_ifs at hc
    · exact .inr (Nat.isDigit_of_mem_toDigits (by decide) (by decide) hc)
    · rcases List.mem_cons.1 hc with hc | hc
      · exact .inl hc
      · exact .inr (Nat.isDigit_of_mem_toDigits (by decide) (by decide) hc)
  have hne : (toString n).toList ≠ [] := by
    rw [toList_toString_int]
    split_ifs
    · exact Nat.toDigits_ne_nil
    · exact List.cons_ne_nil _ _
  refine ⟨fun h => hne (h ▸ rfl), fun h => ?_, fun h => ?_⟩ <;>
    exact absurd (hkept '.' (h ▸ List.mem_cons_self)) (by decide)

theorem segments_isSegment {parseF64 : String → Option F64} {amount : F64} {call : ApiCall}
    (h : call.Sendable parseF64 amount) : ∀ s ∈ call.segments, IsSegment s := by
  have hw : ∀ w ∈ words, IsSegment w := by decide +kernel
  simp only [words, List.forall_mem_cons, List.not_mem_nil, false_imp_iff,
    implies_true, and_true] at hw
  cases call with
  | poolHistory poolId hours => simp [segments, hw, h.1]
  | tokenHistory assetCode assetIssuer hours => simp [segments, hw, h.1, h.2.1]
  | _ =>
    simp only [segments, List.forall_mem_cons, List.not_mem_nil, false_imp_iff, implies_true,
      and_true, hw, toString_isSegment]

/-! ### The router reads it -/

section Reads

variable {X : Extract} {text : List UInt8 → String} {parseF64 : String → Option F64}
  {amount : F64}

/-- The request of a call. -/
def request (call : ApiCall) (headers : HeaderMap) : Request :=
  ⟨call.method, call.segments, sentQuery call.fields, headers, []⟩

theorem ofAddress?_call {call : ApiCall} (h : call.Sendable parseF64 amount)
    (headers : HeaderMap) :
    Request.ofAddress? call.method headers call.address.text = some (call.request headers) := by
  have hsegments := segments_isSegment h
  rw [address_eq h, ofAddress?_ofParts call.method headers (fun hmem => (hsegments _ hmem).2.1 rfl)
    fun hmem => (hsegments _ hmem).2.2 rfl]
  rfl

theorem parsedField_number {call : ApiCall} {key : String} {n : ℤ} (hn : IsSafeInteger n)
    (hvalue : call.fields.lookup key = some (toString n)) :
    parsedField parseI64 call.fields key = .ok (some n) :=
  parsedField_eq (nodup_fields call) hvalue (parseI64_toString hn)

theorem pairs_request (hX : X.ReadsQueries text parseF64) (call : ApiCall)
    (headers : HeaderMap) :
    Form.pairs text (call.request headers).query.toList = call.fields :=
  pairs_sentQuery hX.utf8 _

theorem range_request (hX : X.ReadsQueries text parseF64) {call : ApiCall} {hours : ℤ}
    (hhours : IsSafeInteger hours) (hvalue : call.fields.lookup "hours" = some (toString hours))
    (headers : HeaderMap) : X.range (call.request headers) = .ok ⟨some hours⟩ := by
  rw [hX.range, pairs_request hX]
  dsimp only
  rw [parsedField_number hhours hvalue]
  rfl

theorem page_request (hX : X.ReadsQueries text parseF64) {call : ApiCall} {limit offset : ℤ}
    (hlimit : IsSafeInteger limit) (hoffset : IsSafeInteger offset)
    (hfields : call.fields = [("limit", toString limit), ("offset", toString offset)])
    (headers : HeaderMap) :
    X.page (call.request headers) = .ok ⟨some limit, some offset⟩ := by
  rw [hX.page, pairs_request hX]
  dsimp only
  rw [parsedField_number hlimit (show call.fields.lookup "limit" = _ by rw [hfields]; rfl),
    parsedField_number hoffset (show call.fields.lookup "offset" = _ by rw [hfields]; rfl)]
  rfl

theorem search_request (hX : X.ReadsQueries text parseF64) (q : String) {limit : ℤ}
    (hlimit : IsSafeInteger limit) (headers : HeaderMap) :
    X.search ((search q limit).request headers) = .ok ⟨some q, some limit⟩ := by
  rw [hX.search, pairs_request hX]
  dsimp only
  rw [queryField_eq (nodup_fields _), parsedField_number hlimit (by rfl)]
  rfl

theorem whales_request (hX : X.ReadsQueries text parseF64) {minAmount : String} {limit : ℤ}
    (hamount : parseF64 minAmount = some amount) (hlimit : IsSafeInteger limit)
    (account : Option String) (headers : HeaderMap) :
    X.whales ((whaleTransactions minAmount limit account).request headers) =
      .ok ⟨some amount, some limit, given account⟩ := by
  have haccount : (whaleTransactions minAmount limit account).fields.lookup "account" =
      given account :=
    lookup_optionalPair "account" account
  rw [hX.whales, pairs_request hX]
  dsimp only
  rw [parsedField_eq (nodup_fields _) (by rfl) hamount, parsedField_number hlimit (by rfl),
    queryField_eq (nodup_fields _), haccount]
  rfl

theorem alerts_request (hX : X.ReadsQueries text parseF64) {limit : ℤ}
    (hlimit : IsSafeInteger limit) (opts : AlertsOptions) (headers : HeaderMap) :
    X.alerts ((alerts limit opts).request headers) =
      .ok (⟨some limit, given opts.kind, given opts.poolId, given opts.assetCode,
        given opts.assetIssuer, false⟩, if opts.unacknowledged then some true else none) := by
  have hlookup : ∀ key, (alerts limit opts).fields.lookup key =
      (([("limit", toString limit)] : List _).lookup key).or
        ((if key = "kind" then given opts.kind else none).or
        ((if key = "pool_id" then given opts.poolId else none).or
        ((if key = "asset_code" then given opts.assetCode else none).or
        ((if key = "asset_issuer" then given opts.assetIssuer else none).or
        ((if opts.unacknowledged then [("unacknowledged", "true")] else []).lookup key))))) := by
    intro key
    simp only [fields, List.lookup_append, lookup_optionalPair, Option.or_assoc]
  have hnodup := nodup_fields (alerts limit opts)
  have hflag : parsedField parseBool (alerts limit opts).fields "unacknowledged" =
      .ok (if opts.unacknowledged then some true else none) := by
    have hvalue := hlookup "unacknowledged"
    simp only [List.lookup_cons, List.lookup_nil] at hvalue
    cases hun : opts.unacknowledged with
    | true => exact parsedField_eq hnodup (by rw [hvalue, hun]; rfl) (by rfl)
    | false => exact parsedField_none hnodup (by rw [hvalue, hun]; rfl)
  rw [hX.alerts, pairs_request hX]
  dsimp only
  rw [parsedField_number hlimit (by rfl), hflag]
  simp only [queryField_eq hnodup, hlookup]
  cases hun : opts.unacknowledged <;> simp [List.lookup_cons] <;> rfl

/-- A request of a call is read as what its route reads. -/
theorem parseRequest_call (hX : X.ReadsQueries text parseF64) {call : ApiCall}
    (h : call.Sendable parseF64 amount) (headers : HeaderMap) :
    parseRequest X (call.request headers) = call.asks amount := by
  have hempty : "" ∉ (call.request headers).path := fun hmem =>
    (segments_isSegment h _ hmem).1 rfl
  have hoptions : (call.request headers).method ≠ .options := by
    cases call <;> exact Method.noConfusion
  have hid : ∀ {id : ℤ} (f : ℤ → Parsed), IsSafeInteger id →
      Parsed.ofId (toString id) f = f id := by
    intro id f hid
    rw [Parsed.ofId, parseI64_toString hid]
  rw [parseRequest, if_neg hoptions, if_neg hempty]
  cases call with
  | tvl hours =>
    show parseRequest.onGet _ (.ofExtract (X.range _) (.read <| .tvl ·)) = _
    rw [range_request hX h (by rfl)]
    rfl
  | pools limit offset =>
    show parseRequest.onGet _ (.ofExtract (X.page _) (.read <| .pools ·)) = _
    rw [page_request hX h.1 h.2 (by rfl)]
    rfl
  | poolHistory poolId hours =>
    show parseRequest.onGet _ (.ofExtract (X.range _) (.read <| .poolHistory poolId ·)) = _
    rw [range_request hX h.2.2 (by rfl)]
    rfl
  | poolsTrending hours =>
    show parseRequest.onGet _ (.ofExtract (X.range _) (.read <| .poolsTrending ·)) = _
    rw [range_request hX h (by rfl)]
    rfl
  | tokens limit offset =>
    show parseRequest.onGet _ (.ofExtract (X.page _) (.read <| .tokens ·)) = _
    rw [page_request hX h.1 h.2 (by rfl)]
    rfl
  | tokensTrending hours =>
    show parseRequest.onGet _ (.ofExtract (X.range _) (.read <| .tokensTrending ·)) = _
    rw [range_request hX h (by rfl)]
    rfl
  | tokenHistory assetCode assetIssuer hours =>
    have hrange := @range_request X text parseF64 hX (tokenHistory assetCode assetIssuer hours)
      hours h.2.2 (by rfl) headers
    simp only [request, segments] at hrange ⊢
    rw [hrange]
    rfl
  | whaleTransactions minAmount limit account =>
    show parseRequest.onGet _ (.ofExtract (X.whales _) (.read <| .whaleTransactions ·)) = _
    rw [whales_request hX h.2.1 h.2.2]
    rfl
  | alerts limit opts =>
    show parseRequest.onGet _ (.ofExtract (X.alerts _) fun q =>
        .read (.alerts { q.1 with unacknowledged := q.2.getD false })) = _
    rw [alerts_request hX h]
    cases hun : opts.unacknowledged <;> simp [hun, asks, Parsed.ofExtract] <;> rfl
  | acknowledgeAlert id => exact hid (.write <| .acknowledgeAlert ·) h
  | unacknowledgeAlert id => exact hid (.write <| .unacknowledgeAlert ·) h
  | search q limit =>
    show parseRequest.onGet _ (.ofExtract (X.search _) (.read <| .search ·)) = _
    rw [search_request hX q h]
    rfl
  | deleteAlertChannel id => exact hid (.write <| .deleteAlertChannel ·) h
  | deleteAlertRule id => exact hid (.write <| .deleteAlertRule ·) h
  | removeFromWatchlist id => exact hid (.write <| .deleteWatchlistItem ·) h
  | liquidations => rfl
  | alertChannels => rfl
  | alertRules => rfl
  | watchlist => rfl

end Reads

end ApiCall

namespace Sample

/-- The texts of UTF-8. -/
def readText (bytes : List UInt8) : String := (ofUtf8? bytes).getD ""

def readAmount (s : String) : Option F64 := (parseI64 s).map fun n => .finite n

/-- Reads every query. -/
def readsQueries : Extract where
  range req := do
    let fields := Form.pairs readText req.query.toList
    return ⟨← parsedField parseI64 fields "hours"⟩
  page req := do
    let fields := Form.pairs readText req.query.toList
    return ⟨← parsedField parseI64 fields "limit", ← parsedField parseI64 fields "offset"⟩
  search req := do
    let fields := Form.pairs readText req.query.toList
    return ⟨← queryField fields "q", ← parsedField parseI64 fields "limit"⟩
  whales req := do
    let fields := Form.pairs readText req.query.toList
    return ⟨← parsedField readAmount fields "min_amount", ← parsedField parseI64 fields "limit",
      ← queryField fields "account"⟩
  alerts req := do
    let fields := Form.pairs readText req.query.toList
    return (⟨← parsedField parseI64 fields "limit", ← queryField fields "kind",
      ← queryField fields "pool_id", ← queryField fields "asset_code",
      ← queryField fields "asset_issuer", false⟩, ← parsedField parseBool fields "unacknowledged")
  ackBulk _ := .error .unprocessable
  newAlertChannel _ := .error .unprocessable
  newAlertRule _ := .error .unprocessable
  updateAlertRule _ := .error .unprocessable
  newWatchlistItem _ := .error .unprocessable

theorem readsQueries_reads : readsQueries.ReadsQueries readText readAmount where
  utf8 s := by rw [readText, ofUtf8?_utf8, Option.getD_some]
  range _ := rfl
  page _ := rfl
  search _ := rfl
  whales _ := rfl
  alerts _ := rfl

end Sample

end Lumina
