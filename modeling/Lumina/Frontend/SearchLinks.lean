import Lumina.Frontend.Requests
import Lumina.Model.Pages

/-!
# A hit of the search opens its item

A hit is a pool, a token or an account of the database.  Its link leads to the page of that item,
and each request of the page is read by the router as one about that item (`search_opens`): the key
of a token is packed by the query and cut again by the page, the link is escaped and decoded by the
pages' router, and the address of a request once more by the API's.

## Main definitions

* `IsStellarId` : the ids of Stellar.
* `Opens` : what the page of a hit is.
-/

namespace Lumina

open Percent

/-! ### Ids -/

/-- An id of a pool, a code of an asset or an address: letters and digits. -/
def IsStellarId (s : String) : Prop := s ≠ "" ∧ s.toList.all Char.isAlphanum = true

instance : DecidablePred IsStellarId := fun s =>
  inferInstanceAs (Decidable (s ≠ "" ∧ s.toList.all Char.isAlphanum = true))

theorem IsStellarId.not_mem {s : String} (h : IsStellarId s) {c : Char}
    (hc : c.isAlphanum = false) : c ∉ s.toList :=
  fun hmem => Bool.false_ne_true (hc.symm.trans (List.all_eq_true.1 h.2 c hmem))

theorem IsStellarId.isSegment {s : String} (h : IsStellarId s) : ApiCall.IsSegment s := by
  have hdot : '.' ∉ s.toList := h.not_mem (by decide)
  refine ⟨h.1, ?_, ?_⟩ <;> rintro rfl <;> exact hdot List.mem_cons_self

theorem IsStellarId.kept {s : String} (h : IsStellarId s) :
    s.toList.all uriComponentKeeps = true := by
  refine List.all_eq_true.2 fun c hc => ?_
  rw [uriComponentKeeps, List.all_eq_true.1 h.2 c hc, Bool.true_or]

/-! ### Links -/

/-- The link of some segments. -/
def hrefOf (segments : List String) : List Char :=
  (segments.map encodeURIComponent).flatMap fun segment => '/' :: segment

/-- **A link leads to the page of its segments.** -/
theorem ofHref?_hrefOf {segments : List String} (h : ∀ s ∈ segments, ApiCall.IsSegment s) :
    AppPage.ofHref? (hrefOf segments) = AppPage.ofPath? segments := by
  have hdot : ¬ ("." ∈ segments ∨ ".." ∈ segments) := by
    rintro (hmem | hmem)
    · exact (h _ hmem).2.1 rfl
    · exact (h _ hmem).2.2 rfl
  have hempty : ¬ ("" ∈ segments ∧ segments ≠ [""]) := fun hmem => (h _ hmem.1).1 rfl
  unfold AppPage.ofHref? hrefOf
  simp only [splitOn_path, mapM_decode, Option.bind_eq_bind, Option.bind_some]
  rw [if_neg hdot, if_neg hempty]

theorem searchResultHref_pool (title : String) (subtitle : Option String) (poolId : String) :
    searchResultHref ⟨"pool", title, subtitle, poolId⟩ = some (hrefOf ["pools", poolId]) := by
  have hword : encodeURIComponent "pools" = "pools".toList := by decide +kernel
  rw [hrefOf, List.map_cons, hword]
  simp [searchResultHref]

theorem searchResultHref_token (title : String) (subtitle : Option String) {code : String}
    (hcode : ':' ∉ code.toList) (issuer : String) :
    searchResultHref ⟨"token", title, subtitle, code ++ ":" ++ issuer⟩ =
      some (hrefOf ["tokens", code, issuer]) := by
  have hword : encodeURIComponent "tokens" = "tokens".toList := by decide +kernel
  rw [hrefOf, List.map_cons, hword]
  simp [searchResultHref, Text.cut_append hcode]

theorem searchResultHref_account (title : String) (subtitle : Option String) (address : String) :
    searchResultHref ⟨"account", title, subtitle, address⟩ =
      some (hrefOf ["accounts", address]) := by
  have hword : encodeURIComponent "accounts" = "accounts".toList := by decide +kernel
  rw [hrefOf, List.map_cons, hword]
  simp [searchResultHref]

/-! ### A hit -/

/-- The tables hold ids of Stellar. -/
structure Db.StellarIds (db : Db) : Prop where
  pools : ∀ p ∈ db.pools, IsStellarId p.poolId
  tokens : ∀ t ∈ db.tokens, IsStellarId t.assetCode ∧ IsStellarId t.assetIssuer
  sources : ∀ w ∈ db.whaleTransactions, IsStellarId w.sourceAccount
  dests : ∀ w ∈ db.whaleTransactions, ∀ dest ∈ w.destAccount, IsStellarId dest

/-- The page shows the pool, the token or the account that the hit shows. -/
def Opens (db : Db) (hit : SearchResultRow) (page : AppPage) : Prop :=
  (∃ p ∈ db.pools, hit.title = p.assetA ++ "/" ++ p.assetB ∧ hit.subtitle = some p.poolId ∧
    page = .poolDetail p.poolId) ∨
  (∃ t ∈ db.tokens, hit.title = t.assetCode ∧ hit.subtitle = some t.assetIssuer ∧
    page = .tokenDetail t.assetCode t.assetIssuer) ∨
  ∃ w ∈ db.whaleTransactions, (w.sourceAccount = hit.title ∨ w.destAccount = some hit.title) ∧
    hit.subtitle = none ∧ page = .accountActivity hit.title

theorem mem_searchPart {env : SearchEnv} {column : SearchResultRow → String} {limit : ℤ}
    {rows : List SearchResultRow} {hit : SearchResultRow}
    (h : hit ∈ searchPart env column limit rows) : hit ∈ rows :=
  (env.visit.perm rows).mem_iff.1 ((List.perm_insertionSort _ _).mem_iff.1 (List.mem_of_mem_take h))

/-- A hit leads to the page of what was found. -/
theorem search_href {db : Db} (hids : db.StellarIds) {env : SearchEnv} {pattern : String}
    {limit : ℤ} {hit : SearchResultRow} (h : hit ∈ search env pattern limit db) :
    ∃ href page, searchResultHref hit = some href ∧ AppPage.ofHref? href = some page ∧
      Opens db hit page := by
  have hwords : ∀ w ∈ ["pools", "tokens", "accounts"], ApiCall.IsSegment w := by decide
  simp only [List.forall_mem_cons, List.not_mem_nil, false_imp_iff, implies_true,
    and_true] at hwords
  obtain ⟨hpools, htokens, haccounts⟩ := hwords
  simp only [search, List.mem_append] at h
  rcases h with (h | h) | h
  · -- a pool: its key is its id
    obtain ⟨p, hp, rfl⟩ := List.mem_map.1 (mem_searchPart h)
    have hp := List.mem_of_mem_filter hp
    refine ⟨_, .poolDetail p.poolId, searchResultHref_pool _ _ _, ?_, .inl ⟨p, hp, rfl, rfl, rfl⟩⟩
    rw [ofHref?_hrefOf (by simp [hpools, (hids.pools p hp).isSegment])]
    rfl
  · -- a token: its key is cut at its colon, which no code has
    obtain ⟨t, ht, rfl⟩ := List.mem_map.1 (mem_searchPart h)
    have ht := List.mem_of_mem_filter ht
    obtain ⟨hcode, hissuer⟩ := hids.tokens t ht
    refine ⟨_, .tokenDetail t.assetCode t.assetIssuer,
      searchResultHref_token _ _ (hcode.not_mem (by decide)) _, ?_,
      .inr (.inl ⟨t, ht, rfl, rfl, rfl⟩)⟩
    rw [ofHref?_hrefOf (by simp [htokens, hcode.isSegment, hissuer.isSegment])]
    rfl
  · -- an account: the source or the destination of a payment
    obtain ⟨account, haccount, rfl⟩ := List.mem_map.1 (mem_searchPart h)
    have hpayment : ∃ w ∈ db.whaleTransactions,
        (w.sourceAccount = account ∨ w.destAccount = some account) ∧ IsStellarId account := by
      rcases List.mem_append.1 (List.mem_dedup.1 haccount) with hmem | hmem
      · obtain ⟨w, hw, rfl⟩ := List.mem_map.1 (List.mem_of_mem_filter hmem)
        exact ⟨w, hw, .inl rfl, hids.sources w hw⟩
      · obtain ⟨w, hw, hdest⟩ := List.mem_filterMap.1 (List.mem_of_mem_filter hmem)
        exact ⟨w, hw, .inr hdest, hids.dests w hw account hdest⟩
    obtain ⟨w, hw, hside, hid⟩ := hpayment
    refine ⟨_, .accountActivity account, searchResultHref_account _ _ _, ?_,
      .inr (.inr ⟨w, hw, hside, rfl, rfl⟩)⟩
    rw [ofHref?_hrefOf (by simp [haccounts, hid.isSegment])]
    rfl

/-- What the page of a hit asks arrives. -/
theorem Opens.sendable {db : Db} (hids : db.StellarIds) {hit : SearchResultRow} {page : AppPage}
    (h : Opens db hit page) {parseF64 : String → Option F64} {zero : F64}
    (hzero : parseF64 "0" = some zero) {hours : ℤ} (hhours : ApiCall.IsSafeInteger hours)
    {call : ApiCall} (hcall : call ∈ page.calls hours) : call.Sendable parseF64 zero := by
  have hsafe : ∀ n : ℤ, 0 ≤ n → n ≤ 2000 → ApiCall.IsSafeInteger n := fun n h0 h1 => by
    constructor <;> omega
  rcases h with ⟨p, hp, -, -, rfl⟩ | ⟨t, ht, -, -, rfl⟩ | ⟨w, -, -, -, rfl⟩
  · simp only [AppPage.calls, List.mem_cons, List.not_mem_nil, or_false] at hcall
    have hid := hids.pools p hp
    rcases hcall with rfl | rfl | rfl
    · exact ⟨hsafe _ (by decide) (by decide), hsafe _ (by decide) (by decide)⟩
    · exact ⟨hid.isSegment, hid.kept, hhours⟩
    · exact hsafe _ (by decide) (by decide)
  · simp only [AppPage.calls, List.mem_cons, List.not_mem_nil, or_false] at hcall
    obtain ⟨hcode, hissuer⟩ := hids.tokens t ht
    rcases hcall with rfl | rfl
    · exact ⟨hcode.isSegment, hissuer.isSegment, hhours⟩
    · exact hsafe _ (by decide) (by decide)
  · simp only [AppPage.calls, List.mem_cons, List.not_mem_nil, or_false] at hcall
    subst hcall
    exact ⟨by decide +kernel, hzero, hsafe _ (by decide) (by decide)⟩

/-- **A hit of the search opens its item**: its link leads to the page of the pool, the token or the
account that it shows, and everything the page asks is read as asked about that item. -/
theorem search_opens {X : Extract} {text : List UInt8 → String} {parseF64 : String → Option F64}
    {zero : F64} (hX : X.ReadsQueries text parseF64) (hzero : parseF64 "0" = some zero) {db : Db}
    (hids : db.StellarIds) {env : SearchEnv} {pattern : String} {limit : ℤ} {hit : SearchResultRow}
    (h : hit ∈ search env pattern limit db) :
    ∃ href page, searchResultHref hit = some href ∧ AppPage.ofHref? href = some page ∧
      Opens db hit page ∧
      ∀ hours, ApiCall.IsSafeInteger hours → ∀ call ∈ page.calls hours, ∀ headers,
        ∃ req, Request.ofAddress? call.method headers call.address.text = some req ∧
          parseRequest X req = call.asks zero := by
  obtain ⟨href, page, hhref, hpage, hopens⟩ := search_href hids h
  refine ⟨href, page, hhref, hpage, hopens, fun hours hhours call hcall headers => ?_⟩
  have hsend := hopens.sendable hids hzero hhours hcall
  exact ⟨call.request headers, ApiCall.ofAddress?_call hsend headers,
    ApiCall.parseRequest_call hX hsend headers⟩

namespace Sample

def usdcHit : SearchResultRow := ⟨"token", "USDC", some "GA5Z", "USDC:GA5Z"⟩

def usdcDb : Db := { Db.empty with tokens := [⟨"USDC", "GA5Z"⟩] }

def anySearch : SearchEnv := ⟨fun _ _ => true, fun _ _ => true, Sql.Visit.stored⟩

theorem usdc_opens :
    ∃ href page, searchResultHref usdcHit = some href ∧ AppPage.ofHref? href = some page ∧
      Opens usdcDb usdcHit page ∧
      ∀ hours, ApiCall.IsSafeInteger hours → ∀ call ∈ page.calls hours, ∀ headers,
        ∃ req, Request.ofAddress? call.method headers call.address.text = some req ∧
          parseRequest readsQueries req = call.asks (.finite 0) := by
  have hids : usdcDb.StellarIds := by
    refine ⟨by simp [usdcDb, Db.empty], ?_, by simp [usdcDb, Db.empty],
      by simp [usdcDb, Db.empty]⟩
    intro t ht
    obtain rfl := List.mem_singleton.1 ht
    exact ⟨by decide +kernel, by decide +kernel⟩
  have hzero : readAmount "0" = some (.finite 0) := by decide +kernel
  have hhit : usdcHit ∈ search anySearch "%us%" 8 usdcDb := by decide +kernel
  exact search_opens readsQueries_reads hzero hids hhit

end Sample

end Lumina
