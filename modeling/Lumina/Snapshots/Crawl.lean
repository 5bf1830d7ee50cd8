import Lumina.Payments.Log

/-!
# The walk along a listing

Horizon lists the pools and the assets in pages that are linked to each other.  A page is fetched
exactly if one of its five attempts brings it and every attempt before may be tried again
(`getPage_ret_iff`).  The walk along a listing returns exactly if all pages that it needs are
fetched, and what it returns is then the whole beginning of the listing that it asked for
(`getAllPages_ret_iff`): no page is left out and none is read twice.

## Main definitions

* `Attempt.retryable` : an attempt after which there is another.
* `Fetched` : the attempts at one page bring it.
* `Lists` : a server that lists records in pages of one size.
-/

namespace Lumina

variable {T : Type}

/-- An attempt after which there is another. -/
def Attempt.retryable : Attempt T → Bool
  | .success _ => false
  | .status code => Horizon.retryableStatus code
  | .error retryable => retryable
  | .stop => false

namespace Horizon

variable {answers : ℕ → Attempt T} {left attempt : ℕ} {page : Page T}

/-! ### One page -/

theorem getPageFrom_of_success (h : answers attempt = .success (some page)) :
    getPageFrom answers left attempt = .ret page := by
  unfold getPageFrom
  rw [h]

theorem getPageFrom_of_retryable (h : (answers attempt).retryable = true) :
    getPageFrom answers (left + 1) attempt = getPageFrom answers left (attempt + 1) := by
  rw [getPageFrom]
  cases ha : answers attempt with
  | success page => simp [ha, Attempt.retryable] at h
  | status code => exact if_pos (by rwa [ha] at h)
  | error retryable => exact if_pos (by rwa [ha] at h)
  | stop => simp [ha, Attempt.retryable] at h

/-- An attempt that brings no page and is the last. -/
theorem getPageFrom_ne_ret (hne : answers attempt ≠ .success (some page))
    (h : left = 0 ∨ (answers attempt).retryable = false) :
    getPageFrom answers left attempt ≠ .ret page := by
  unfold getPageFrom
  cases ha : answers attempt with
  | success p =>
    cases p with
    | none => simp
    | some p =>
      rw [ha] at hne
      simpa using hne
  | status code =>
    rcases h with rfl | h
    · simp
    · rw [ha] at h
      cases left with
      | zero => simp
      | succ left => simp [show retryableStatus code = false from h]
  | error retryable =>
    rcases h with rfl | h
    · simp
    · rw [ha] at h
      cases left with
      | zero => simp
      | succ left => simp [show retryable = false from h]
  | stop => simp

theorem getPageFrom_ret_iff :
    getPageFrom answers left attempt = .ret page ↔ ∃ k ≤ left,
      answers (attempt + k) = .success (some page) ∧
        ∀ j < k, (answers (attempt + j)).retryable = true := by
  induction left generalizing attempt with
  | zero =>
    constructor
    · intro h
      by_contra hno
      refine getPageFrom_ne_ret (fun ha => hno ⟨0, le_rfl, ha, ?_⟩) (.inl rfl) h
      omega
    · rintro ⟨k, hk, ha, -⟩
      obtain rfl : k = 0 := by omega
      exact getPageFrom_of_success ha
  | succ left ih =>
    cases hr : (answers attempt).retryable with
    | true =>
      rw [getPageFrom_of_retryable hr, ih]
      constructor
      · rintro ⟨k, hk, ha, hbefore⟩
        refine ⟨k + 1, by omega, ?_, fun j hj => ?_⟩
        · rwa [Nat.add_assoc, Nat.add_comm 1] at ha
        · cases j with
          | zero => exact hr
          | succ j =>
            have hj' := hbefore j (by omega)
            rwa [Nat.add_assoc, Nat.add_comm 1] at hj'
      · rintro ⟨k, hk, ha, hbefore⟩
        cases k with
        | zero =>
          rw [Nat.add_zero] at ha
          simp [ha, Attempt.retryable] at hr
        | succ k =>
          refine ⟨k, by omega, ?_, fun j hj => ?_⟩
          · rwa [Nat.add_assoc, Nat.add_comm 1]
          · rw [Nat.add_assoc, Nat.add_comm 1]
            exact hbefore (j + 1) (by omega)
    | false =>
      constructor
      · intro h
        by_contra hno
        refine getPageFrom_ne_ret (fun ha => hno ⟨0, by omega, ha, ?_⟩) (.inr hr) h
        omega
      · rintro ⟨k, hk, ha, hbefore⟩
        cases k with
        | zero => exact getPageFrom_of_success ha
        | succ k =>
          have h0 := hbefore 0 (by omega)
          rw [Nat.add_zero, hr] at h0
          exact absurd h0 Bool.false_ne_true

/-- **A page is fetched** exactly if one of the attempts brings it, and every attempt before may be
tried again. -/
theorem getPage_ret_iff : getPage answers = .ret page ↔ ∃ k, 1 ≤ k ∧ k ≤ maxRetries ∧
    answers k = .success (some page) ∧ ∀ j, 1 ≤ j → j < k → (answers j).retryable = true := by
  rw [getPage, getPageFrom_ret_iff]
  constructor
  · rintro ⟨k, hk, ha, hbefore⟩
    refine ⟨1 + k, by omega, by unfold maxRetries at *; omega, ha, fun j hj hjk => ?_⟩
    obtain ⟨j, rfl⟩ := Nat.exists_eq_add_of_le hj
    exact hbefore j (by omega)
  · rintro ⟨k, hk, hle, ha, hbefore⟩
    obtain ⟨k, rfl⟩ := Nat.exists_eq_add_of_le hk
    refine ⟨k, by unfold maxRetries at *; omega, ha, fun j hj => ?_⟩
    exact hbefore (1 + j) (by omega) (by omega)

/-- The attempts at a page bring it. -/
def Fetched (answers : ℕ → Attempt T) : Prop := ∃ k, 1 ≤ k ∧ k ≤ maxRetries ∧
  (∃ page, answers k = .success (some page)) ∧
    ∀ j, 1 ≤ j → j < k → (answers j).retryable = true

theorem fetched_iff : Fetched answers ↔ ∃ page, getPage answers = .ret page := by
  simp only [getPage_ret_iff]
  constructor
  · rintro ⟨k, hk, hle, ⟨page, ha⟩, hbefore⟩
    exact ⟨page, k, hk, hle, ha, hbefore⟩
  · rintro ⟨page, k, hk, hle, ha, hbefore⟩
    exact ⟨k, hk, hle, ⟨page, ha⟩, hbefore⟩

/-! ### The walk -/

/-- A server that lists `all` in pages of `size`, the page number `n` at the address `url n`:
a page that has records is linked to the next one. -/
structure Lists (server : Server T) (all : List T) (size : ℕ) (url : ℕ → String) : Prop where
  records : ∀ n attempt page, server n (url n) attempt = .success (some page) →
    page.records = (all.drop (size * n)).take size
  next : ∀ n attempt page, server n (url n) attempt = .success (some page) →
    page.records ≠ [] → page.next = some (url (n + 1))

variable {server : Server T} {all records : List T} {size maxPages n : ℕ} {url : ℕ → String}

theorem Lists.of_getPage (h : Lists server all size url)
    (hp : getPage (server n (url n)) = .ret page) :
    page.records = (all.drop (size * n)).take size ∧
      (page.records ≠ [] → page.next = some (url (n + 1))) := by
  obtain ⟨k, -, -, ha, -⟩ := getPage_ret_iff.1 hp
  exact ⟨h.records n k page ha, h.next n k page ha⟩

/-- The records of a page and of the pages after it. -/
theorem take_page (all : List T) (size n maxPages : ℕ) :
    (all.drop (size * n)).take size ++ (all.drop (size * (n + 1))).take (size * maxPages) =
      (all.drop (size * n)).take (size * (maxPages + 1)) := by
  rw [Nat.mul_succ, Nat.mul_succ, Nat.add_comm (size * maxPages), List.take_add, List.drop_drop]

/-- The records of page `n` are none exactly from the end of the listing on. -/
theorem page_eq_nil_iff (hsize : 0 < size) :
    (all.drop (size * n)).take size = [] ↔ all.length ≤ size * n := by
  rw [List.take_eq_nil_iff, List.drop_eq_nil_iff]
  omega

theorem walkPages_of_empty (hp : getPage (server n (url n)) = .ret page)
    (hnil : page.records = []) : walkPages server (maxPages + 1) n (url n) = .ret [] := by
  rw [walkPages, hp, ← hnil]
  cases hn : page.next with
  | none => simp [hn]
  | some next => simp [hn, hnil]

theorem walkPages_of_linked (hp : getPage (server n (url n)) = .ret page)
    (hne : page.records ≠ []) (hnext : page.next = some (url (n + 1))) :
    walkPages server (maxPages + 1) n (url n) = (do
      let rest ← walkPages server maxPages (n + 1) (url (n + 1))
      return page.records ++ rest) := by
  rw [walkPages, hp]
  simp [hnext, List.length_pos_iff.2 hne]

/-- **The walk from page `n` on** returns exactly if the pages up to the first empty one are
fetched, and it returns their records. -/
theorem walkPages_ret_iff (h : Lists server all size url) (hsize : 0 < size) :
    walkPages server maxPages n (url n) = .ret records ↔
      records = (all.drop (size * n)).take (size * maxPages) ∧
        ∀ k < maxPages, k = 0 ∨ size * (n + k) < all.length + size →
          Fetched (server (n + k) (url (n + k))) := by
  induction maxPages generalizing n records with
  | zero =>
    rw [walkPages, Nat.mul_zero, List.take_zero]
    constructor
    · intro hret
      refine ⟨(Outcome.ret.inj hret).symm, ?_⟩
      omega
    · rintro ⟨rfl, -⟩
      rfl
  | succ maxPages ih =>
    by_cases hf : Fetched (server n (url n))
    · obtain ⟨page, hp⟩ := fetched_iff.1 hf
      obtain ⟨hrecords, hnext⟩ := h.of_getPage hp
      by_cases hnil : page.records = []
      · -- the listing ends before this page, and no further page is asked for
        have hend : all.length ≤ size * n := (page_eq_nil_iff hsize).1 (hrecords ▸ hnil)
        have hdrop : all.drop (size * n) = [] := List.drop_eq_nil_iff.2 hend
        rw [walkPages_of_empty hp hnil, hdrop, List.take_nil]
        constructor
        · intro hret
          refine ⟨(Outcome.ret.inj hret).symm, fun k _ hk => ?_⟩
          rcases Nat.eq_zero_or_pos k with rfl | hpos
          · exact hf
          · have hle : size * (n + 1) ≤ size * (n + k) := Nat.mul_le_mul_left _ (by omega)
            rw [Nat.mul_succ] at hle
            omega
        · rintro ⟨rfl, -⟩
          rfl
      · -- the walk goes on with the next page
        have hlt : ¬ all.length ≤ size * n := fun hend =>
          hnil (hrecords ▸ (page_eq_nil_iff hsize).2 hend)
        rw [walkPages_of_linked hp hnil (hnext hnil), Outcome.bind_eq_ret, ← take_page]
        constructor
        · rintro ⟨rest, hrest, hret⟩
          obtain ⟨rfl, hfetched⟩ := ih.1 hrest
          refine ⟨?_, fun k hk hasked => ?_⟩
          · rw [← hrecords]
            exact (Outcome.ret.inj hret).symm
          · cases k with
            | zero => exact hf
            | succ k =>
              have hlater := hasked.resolve_left (Nat.succ_ne_zero k)
              rw [← Nat.add_assoc, Nat.add_right_comm] at hlater ⊢
              exact hfetched k (by omega) (.inr hlater)
        · rintro ⟨rfl, hfetched⟩
          refine ⟨_, ih.2 ⟨rfl, fun k hk hasked => ?_⟩, by rw [hrecords]; rfl⟩
          have hnext := hfetched (k + 1) (by omega) (.inr ?_)
          · rwa [← Nat.add_assoc, Nat.add_right_comm] at hnext
          · rcases hasked with rfl | hasked
            · rw [Nat.zero_add, Nat.mul_succ]
              omega
            · rwa [← Nat.add_assoc, Nat.add_right_comm]
    · refine iff_of_false (fun hret => ?_) fun hret => ?_
      · rw [walkPages] at hret
        obtain ⟨page, hp, -⟩ := Outcome.bind_eq_ret.1 hret
        exact hf (fetched_iff.2 ⟨page, hp⟩)
      · exact hf (hret.2 0 (by omega) (.inl rfl))

/-- What a crawl returns is the beginning of the listing. -/
theorem Lists.getAllPages_eq {baseUrl path : String} {query : List (String × String)}
    (h : Lists server all size url) (hsize : 0 < size)
    (hurl : url 0 = buildUrl baseUrl path query)
    (hret : getAllPages server baseUrl path query maxPages = .ret records) :
    records = all.take (size * maxPages) := by
  rw [getAllPages, ← hurl, walkPages_ret_iff h hsize, Nat.mul_zero, List.drop_zero] at hret
  exact hret.1

/-- A crawl whose pages are all fetched returns the records of its pages. -/
theorem Lists.getAllPages_of_fetched {baseUrl path : String} {query : List (String × String)}
    (h : Lists server all size url) (hsize : 0 < size)
    (hurl : url 0 = buildUrl baseUrl path query)
    (hfetched : ∀ n < maxPages, Fetched (server n (url n))) :
    getAllPages server baseUrl path query maxPages = .ret (all.take (size * maxPages)) := by
  rw [getAllPages, ← hurl, walkPages_ret_iff h hsize, Nat.mul_zero, List.drop_zero]
  refine ⟨rfl, fun n hn _ => ?_⟩
  rw [Nat.zero_add]
  exact hfetched n hn

/-- **A crawl is all or nothing.**  It returns exactly if the pages that it asks for are fetched,
the first one and every page after one with records, and it returns the first records of the
listing, as many as its pages hold. -/
theorem getAllPages_ret_iff {baseUrl path : String} {query : List (String × String)}
    (h : Lists server all size url) (hsize : 0 < size)
    (hurl : url 0 = buildUrl baseUrl path query) :
    getAllPages server baseUrl path query maxPages = .ret records ↔
      records = all.take (size * maxPages) ∧
        ∀ n < maxPages, n = 0 ∨ size * (n - 1) < all.length → Fetched (server n (url n)) := by
  have hasked : ∀ n, (n = 0 ∨ size * (n - 1) < all.length) ↔
      n = 0 ∨ size * (0 + n) < all.length + size := by
    intro n
    cases n with
    | zero => simp
    | succ n => simp [Nat.mul_succ]
  rw [getAllPages, ← hurl, walkPages_ret_iff h hsize]
  simp only [Nat.mul_zero, List.drop_zero, Nat.zero_add, hasked]

end Horizon

end Lumina

/-! ### A server that lists three records -/

namespace Lumina.Sample

/-- The address of page `n`, of which the first is `first`. -/
def pageUrl (first : String) (n : ℕ) : String := if n = 0 then first else toString n

/-- A Horizon that lists records in linked pages. -/
def linked {T : Type} (all : List T) : Server T := fun n _ _ =>
  .success (some ⟨(all.drop (200 * n)).take 200, some (toString (n + 1))⟩)

theorem linked_lists {T : Type} (all : List T) (first : String) :
    Horizon.Lists (linked all) all 200 (pageUrl first) where
  records n attempt page h := by
    cases h
    rfl
  next n attempt page h _ := by
    cases h
    rfl

theorem crawled : Horizon.getAllPages (linked [7, 8, 9]) "" "/pools" [] 10 = .ret [7, 8, 9] := by
  refine (Horizon.getAllPages_ret_iff (linked_lists [7, 8, 9] "/pools") (by decide) rfl).2
    ⟨rfl, fun n _ _ => ⟨1, le_rfl, by decide, ⟨_, rfl⟩, fun j hj hlt => ?_⟩⟩
  omega

end Lumina.Sample
