import Lumina.Model.SearchBar
import Lumina.Trace.Basic

/-!
# The hits that the search bar shows

A response replaces the hits whatever the text in the box has become, and the hits stay until a
response replaces them.  `search_shown_iff` says in which runs the hits that are shown or opened
are nevertheless the answer to the text in the box; with the line for no match counted as an
answer too, in none in which a text is searched for.

## Main definitions

* `SearchBar.HitsShown`, `SearchBar.ResultsShown` : what is shown answers the text in the box.
* `SearchBar.HitOpened` : so does a hit that is opened.
* `SearchBar.Current` : the events that keep it so.
-/

namespace Lumina

open Lumina.Trace

namespace SearchBar

variable {Hit : Type} {s : SearchBar Hit}

/-- The hits that are shown are the answer to the text in the box. -/
def HitsShown (s : SearchBar Hit) : Prop :=
  s.showDropdown = true → s.displayLoading = false → s.displayResults ≠ [] →
    s.answered = some s.trimmed

/-- So are the results where there are none, which are shown as no match. -/
def ResultsShown (s : SearchBar Hit) : Prop :=
  s.showDropdown = true → s.displayLoading = false → s.answered = some s.trimmed

/-- A hit that an event opens is of the answer to the text in the box. -/
def HitOpened (s : SearchBar Hit) (e : SearchEvent Hit) : Prop :=
  ∀ hit, s.opens e = some hit → s.answered = some s.trimmed

/-- While the box is edited or opened and nothing is loading, the hits that it has are those of the
text then in it; hits arrive for the text in the box; and the key that opens a hit is not pressed
on the hits of another text while its own are loading. -/
def Current (s : SearchBar Hit) : SearchEvent Hit → Prop
  | .change value => isSearchable (jsTrim value) = true → s.loading = false → s.results ≠ [] →
    s.answered = some (jsTrim value)
  | .focus => s.searchable = true → s.loading = false → s.results ≠ [] →
    s.answered = some s.trimmed
  | .settled id (.ok rows) => ∀ q, s.request id = some q → s.showDropdown = true → rows ≠ [] →
    q.query = s.trimmed
  | .keyDown .enter => s.showDropdown = true → s.loading = true → s.results ≠ [] →
    s.answered = some s.trimmed
  | _ => True

/-! ### What is shown -/

theorem hitsShown_iff : s.HitsShown ↔ (s.isOpen = true → s.searchable = true →
    s.loading = false → s.results ≠ [] → s.answered = some s.trimmed) := by
  unfold HitsShown showDropdown displayLoading displayResults
  cases s.isOpen <;> cases s.searchable <;> simp

theorem displayResults_ne_nil :
    s.displayResults ≠ [] ↔ s.searchable = true ∧ s.results ≠ [] := by
  unfold displayResults
  cases s.searchable <;> simp

/-- There is a hit to open where there are hits. -/
theorem target_isSome (h : s.displayResults ≠ []) : s.target.isSome = true := by
  obtain ⟨hit, rest, hhits⟩ := List.exists_cons_of_ne_nil h
  unfold target
  rw [hhits, List.head?_cons]
  generalize (if s.activeIndex < 0 then none else (hit :: rest)[s.activeIndex.toNat]?) = o
  cases o <;> rfl

theorem hitsShown_of_closed (h : s.isOpen = false) : s.HitsShown := by
  rw [hitsShown_iff, h]
  exact fun hopen => absurd hopen Bool.false_ne_true

theorem hitsShown_go : s.go.HitsShown := hitsShown_of_closed rfl

/-- The key opens a hit wherever there are hits, shown or not. -/
theorem hitOpened_enter : s.HitOpened (.keyDown .enter) ↔
    (s.isOpen = true → s.searchable = true → s.results ≠ [] → s.answered = some s.trimmed) := by
  have hopens : s.opens (.keyDown .enter) =
      if !s.isOpen || s.displayResults.isEmpty then none else s.target := rfl
  unfold HitOpened
  rw [hopens]
  constructor
  · intro h hopen hsearch hne
    have hdisplay := displayResults_ne_nil.2 ⟨hsearch, hne⟩
    obtain ⟨hit, hhit⟩ := Option.isSome_iff_exists.1 (target_isSome hdisplay)
    exact h hit (by simp [hopen, hdisplay, hhit])
  · intro h hit hhit
    split_ifs at hhit with hclosed
    simp only [Bool.or_eq_true, Bool.not_eq_true', List.isEmpty_iff, not_or,
      Bool.not_eq_false] at hclosed
    obtain ⟨hsearch, hne⟩ := displayResults_ne_nil.1 hclosed.2
    exact h hclosed.1 hsearch hne

/-- A click opens a hit that is shown. -/
theorem HitsShown.click (h : s.HitsShown) (i : ℕ) : s.HitOpened (.click i) := by
  intro hit hhit
  have hopens : s.opens (.click i) =
      if s.showDropdown && !s.displayLoading then s.displayResults[i]? else none := rfl
  rw [hopens] at hhit
  split_ifs at hhit with hshown
  rw [Bool.and_eq_true, Bool.not_eq_true'] at hshown
  exact h hshown.1 hshown.2 (List.ne_nil_of_mem (List.mem_of_getElem? hhit))

/-- A key closes the dropdown, goes to a hit, or moves the mark. -/
theorem onKeyDown_cases (s : SearchBar Hit) (key : SearchKey) : s.onKeyDown key = s.go ∨
    s.onKeyDown key = { s with isOpen := false } ∨
      ∃ i, s.onKeyDown key = { s with activeIndex := i } := by
  unfold onKeyDown
  by_cases hclosed : (!s.isOpen || s.displayResults.isEmpty) = true
  · exact .inr (.inr ⟨s.activeIndex, if_pos hclosed⟩)
  · rw [if_neg hclosed]
    cases key with
    | arrowDown => exact .inr (.inr ⟨_, rfl⟩)
    | arrowUp => exact .inr (.inr ⟨_, rfl⟩)
    | enter =>
      by_cases htarget : s.target.isSome = true
      · exact .inl (if_pos htarget)
      · exact .inr (.inr ⟨s.activeIndex, if_neg htarget⟩)
    | escape => exact .inr (.inl rfl)

/-- The mouse moves the mark. -/
theorem mouseEnter_cases (s : SearchBar Hit) (i : ℕ) :
    ∃ j, s.step (.mouseEnter i) = { s with activeIndex := j } := by
  simp only [step]
  split_ifs
  · exact ⟨i, rfl⟩
  · exact ⟨s.activeIndex, rfl⟩

/-- A click goes to a hit or does nothing. -/
theorem click_cases (s : SearchBar Hit) (i : ℕ) :
    s.step (.click i) = s.go ∨ s.step (.click i) = s := by
  simp only [step]
  split_ifs
  · exact .inl rfl
  · exact .inr rfl

theorem hitsShown_settled (h : s.HitsShown) (id : ℕ) (result : Except Unit (List Hit)) :
    (s.step (.settled id result)).HitsShown ↔ s.Current (.settled id result) := by
  cases hq : s.request id with
  | none =>
    have hstep : s.step (.settled id result) = s := by simp only [step, hq]
    rw [hstep]
    refine iff_of_true h ?_
    cases result with
    | ok rows => exact fun q hq' => absurd (hq.symm.trans hq') (by simp)
    | error _ => trivial
  | some q =>
    cases result with
    | error _ =>
      simp only [step, hq, settle]
      exact iff_of_true (hitsShown_iff.2 fun _ _ _ hne => absurd rfl hne) trivial
    | ok rows =>
      have hcurrent : s.Current (.settled id (.ok rows)) ↔
          (s.showDropdown = true → rows ≠ [] → q.query = s.trimmed) := by
        simp [Current, hq]
      simp only [step, hq, settle]
      rw [hcurrent, hitsShown_iff]
      simp only [showDropdown, Bool.and_eq_true, and_imp, Option.some.injEq]
      exact forall₂_congr fun _ _ => forall_prop_of_true trivial

/-- While nothing is loading, what the key opens is shown. -/
theorem hitOpened_enter_iff (h : s.HitsShown) :
    s.HitOpened (.keyDown .enter) ↔ s.Current (.keyDown .enter) := by
  have hcurrent : s.Current (.keyDown .enter) ↔ (s.isOpen = true → s.searchable = true →
      s.loading = true → s.results ≠ [] → s.answered = some s.trimmed) := by
    simp only [Current, showDropdown, Bool.and_eq_true, and_imp]
  rw [hitOpened_enter, hcurrent]
  constructor
  · exact fun hall hopen hsearch _ => hall hopen hsearch
  · intro hall hopen hsearch
    cases hloading : s.loading with
    | true => exact hall hopen hsearch hloading
    | false => exact hitsShown_iff.1 h hopen hsearch hloading

/-- **One event** keeps what is shown and opened right exactly if it is current. -/
theorem hitsShown_step (h : s.HitsShown) (e : SearchEvent Hit) :
    (s.step e).HitsShown ∧ s.HitOpened e ↔ s.Current e := by
  have hnone : (∀ hit, s.opens e ≠ some hit) → s.HitOpened e := fun hn hit hhit =>
    absurd hhit (hn hit)
  cases e with
  | change value =>
    rw [and_iff_left (hnone (by simp [opens])), hitsShown_iff]
    exact forall_prop_of_true rfl
  | focus =>
    rw [and_iff_left (hnone (by simp [opens])), hitsShown_iff]
    exact forall_prop_of_true rfl
  | clickOutside =>
    exact iff_of_true ⟨hitsShown_of_closed rfl, hnone (by simp [opens])⟩ trivial
  | debounce =>
    refine iff_of_true ⟨?_, hnone (by simp [opens])⟩ trivial
    cases htimer : s.timer with
    | none => simpa only [step, htimer] using h
    | some query =>
      simp only [step, htimer]
      exact hitsShown_iff.2 fun _ _ hloading => absurd hloading.symm Bool.false_ne_true
  | settled id result =>
    rw [and_iff_left (hnone (by simp [opens]))]
    exact hitsShown_settled h id result
  | keyDown key =>
    have hstep : (s.step (.keyDown key)).HitsShown := by
      simp only [step]
      rcases s.onKeyDown_cases key with heq | heq | ⟨i, heq⟩
      · exact heq ▸ hitsShown_go
      · exact heq ▸ hitsShown_of_closed rfl
      · exact heq ▸ h
    rw [and_iff_right hstep]
    cases key with
    | arrowDown => exact iff_of_true (hnone (by simp [opens])) trivial
    | arrowUp => exact iff_of_true (hnone (by simp [opens])) trivial
    | escape => exact iff_of_true (hnone (by simp [opens])) trivial
    | enter => exact hitOpened_enter_iff h
  | mouseEnter i =>
    obtain ⟨j, heq⟩ := s.mouseEnter_cases i
    rw [heq]
    exact iff_of_true ⟨h, hnone (by simp [opens])⟩ trivial
  | click i =>
    refine iff_of_true ⟨?_, h.click i⟩ trivial
    rcases s.click_cases i with heq | heq
    · rw [heq]
      exact hitsShown_go
    · rwa [heq]

/-! ### Before the first search -/

/-- Nothing has been searched for. -/
structure Idle (s : SearchBar Hit) : Prop where
  searchable : s.searchable = false
  timer : s.timer = none
  inFlight : s.inFlight = []
  loading : s.loading = false
  answered : s.answered = none

theorem isSearchable_empty : isSearchable (jsTrim "") = false := by decide +kernel

theorem idle_mount : (mount : SearchBar Hit).Idle := ⟨isSearchable_empty, rfl, rfl, rfl, rfl⟩

theorem Idle.showDropdown (h : s.Idle) : s.showDropdown = false := by
  rw [SearchBar.showDropdown, h.searchable, Bool.and_false]

theorem Idle.resultsShown (h : s.Idle) : s.ResultsShown := by
  intro hshown
  rw [h.showDropdown] at hshown
  exact absurd hshown Bool.false_ne_true

/-- A text that is not searched for sets no timer. -/
theorem Idle.setQuery (h : s.Idle) {value : String}
    (hvalue : isSearchable (jsTrim value) = false) : (s.setQuery value).Idle where
  searchable := hvalue
  timer := by
    simp only [SearchBar.setQuery, hvalue, Bool.false_eq_true, if_false]
    split_ifs
    · exact h.timer
    · rfl
  inFlight := h.inFlight
  loading := h.loading
  answered := h.answered

theorem Idle.step (h : s.Idle) {e : SearchEvent Hit}
    (he : ∀ value, e = .change value → isSearchable (jsTrim value) = false) : (s.step e).Idle := by
  have hdisplay : s.displayResults = [] := if_neg (by simp [h.searchable])
  cases e with
  | change value =>
    have hquery := h.setQuery (he value rfl)
    simp only [SearchBar.step]
    generalize s.setQuery value = s' at hquery
    exact { hquery with }
  | focus => exact { h with }
  | clickOutside => exact { h with }
  | debounce => simpa only [SearchBar.step, h.timer] using h
  | settled id result => simpa [SearchBar.step, SearchBar.request, h.inFlight] using h
  | keyDown key => simpa [SearchBar.step, SearchBar.onKeyDown, hdisplay] using h
  | mouseEnter i => simpa [SearchBar.step, h.showDropdown] using h
  | click i => simpa [SearchBar.step, SearchBar.opens, h.showDropdown] using h

/-- The first text that is searched for shows no match before it is asked for. -/
theorem Idle.not_resultsShown (h : s.Idle) {value : String}
    (hvalue : isSearchable (jsTrim value) = true) :
    ¬ (s.step (.change value)).ResultsShown := by
  intro hshown
  have hdropdown : (s.step (.change value)).showDropdown = true := by
    simp [SearchBar.step, SearchBar.setQuery, SearchBar.showDropdown, SearchBar.searchable,
      SearchBar.trimmed, hvalue]
  have hloading : (s.step (.change value)).displayLoading = false := by
    simp [SearchBar.step, SearchBar.setQuery, displayLoading, h.loading]
  have hanswered : (s.step (.change value)).answered = none := h.answered
  exact Option.some_ne_none _ ((hshown hdropdown hloading).symm.trans hanswered)

theorem Idle.each_resultsShown (h : s.Idle) (es : List (SearchEvent Hit)) :
    Each SearchBar.step (fun s e => (s.step e).ResultsShown) s es ↔
      ∀ value, .change value ∈ es → isSearchable (jsTrim value) = false := by
  induction es generalizing s with
  | nil => simp
  | cons e es ih =>
    by_cases he : ∀ value, e = .change value → isSearchable (jsTrim value) = false
    · have hidle := h.step he
      rw [each_cons, and_iff_right hidle.resultsShown, ih hidle]
      refine forall_congr' fun value => ⟨fun hall hmem => ?_, fun hall hmem => ?_⟩
      · rcases List.mem_cons.1 hmem with heq | hmem
        · exact he value heq.symm
        · exact hall hmem
      · exact hall (List.mem_cons_of_mem _ hmem)
    · obtain ⟨value, he⟩ := not_forall.1 he
      obtain ⟨rfl, hvalue⟩ := Classical.not_imp.1 he
      have hvalue : isSearchable (jsTrim value) = true := by simpa using hvalue
      refine iff_of_false (fun hall => h.not_resultsShown hvalue hall.1) fun hall => ?_
      rw [hall value List.mem_cons_self] at hvalue
      exact Bool.false_ne_true hvalue

/-! ### Runs -/

/-- **The hits belong to the text in the box** in exactly the runs in which every event is current;
with the line for no match counted as an answer, in exactly those in which no text is typed that is
searched for. -/
theorem search_shown_iff (es : List (SearchEvent Hit)) :
    (Each step (fun s e => (s.step e).HitsShown ∧ s.HitOpened e) mount es ↔
      Each step Current mount es) ∧
    (Each step (fun s e => (s.step e).ResultsShown) mount es ↔
      ∀ value, .change value ∈ es → isSearchable (jsTrim value) = false) :=
  ⟨each_iff (hitsShown_of_closed rfl) fun _ e h => hitsShown_step h e,
    idle_mount.each_resultsShown es⟩

/-- What one event does to the results: they stay the answer that they were, or a response
arrives. -/
theorem answered_step {e : SearchEvent Hit} {query : String}
    (h : (s.step e).answered = some query) :
    (s.answered = some query ∧ (s.step e).results = s.results) ∨
      ∃ id q, e = .settled id (.ok (s.step e).results) ∧ s.request id = some q ∧
        q.query = query := by
  have hgo : s.go.answered = none := rfl
  cases e with
  | change value => exact .inl ⟨h, rfl⟩
  | focus => exact .inl ⟨h, rfl⟩
  | clickOutside => exact .inl ⟨h, rfl⟩
  | debounce =>
    cases htimer : s.timer with
    | none =>
      have hstep : s.step .debounce = s := by simp only [step, htimer]
      rw [hstep] at h ⊢
      exact .inl ⟨h, rfl⟩
    | some query =>
      simp only [step, htimer] at h ⊢
      exact .inl ⟨h, trivial⟩
  | settled id result =>
    cases hq : s.request id with
    | none =>
      have hstep : s.step (.settled id result) = s := by simp only [step, hq]
      rw [hstep] at h ⊢
      exact .inl ⟨h, rfl⟩
    | some q =>
      cases result with
      | error _ => simp [step, hq, settle] at h
      | ok rows =>
        simp only [step, hq, settle, Option.some.injEq] at h ⊢
        exact .inr ⟨id, q, rfl, hq, h⟩
  | keyDown key =>
    simp only [step] at h ⊢
    rcases s.onKeyDown_cases key with heq | heq | ⟨i, heq⟩
    · rw [heq, hgo] at h
      exact absurd h (by simp)
    · rw [heq] at h ⊢
      exact .inl ⟨h, rfl⟩
    · rw [heq] at h ⊢
      exact .inl ⟨h, rfl⟩
  | mouseEnter i =>
    obtain ⟨j, heq⟩ := s.mouseEnter_cases i
    rw [heq] at h ⊢
    exact .inl ⟨h, rfl⟩
  | click i =>
    rcases s.click_cases i with heq | heq
    · rw [heq, hgo] at h
      exact absurd h (by simp)
    · rw [heq] at h ⊢
      exact .inl ⟨h, rfl⟩

/-- **The results are the answer** to the text that `answered` says: the last response to arrive
was to a request for it. -/
theorem answered_settled {es : List (SearchEvent Hit)} {query : String}
    (h : (run step mount es).answered = some query) :
    ∃ (es₁ : List (SearchEvent Hit)) (id : ℕ) (q : SearchRequest) (es₂ : List (SearchEvent Hit)),
      es = es₁ ++ .settled id (.ok (run step mount es).results) :: es₂ ∧
      (run step mount es₁).request id = some q ∧ q.query = query := by
  induction es using List.reverseRecOn with
  | nil => exact absurd h (by simp [mount])
  | append_singleton es e ih =>
    rw [run_snoc] at h ⊢
    rcases answered_step h with ⟨hold, hresults⟩ | ⟨id, q, he, hq, hquery⟩
    · obtain ⟨es₁, id, q, es₂, heq, hq, hquery⟩ := ih hold
      refine ⟨es₁, id, q, es₂ ++ [e], ?_, hq, hquery⟩
      rw [hresults, ← List.cons_append, ← List.append_assoc, ← heq]
    · exact ⟨es, id, q, [], by rw [← he], hq, hquery⟩

end SearchBar

namespace Sample

/-- A search, and one more letter. -/
def oneMoreLetter : List (SearchEvent String) :=
  [.change "xlm", .debounce, .settled 0 (.ok ["XLM"]), .change "xlmx"]

/-- The hit of the search is shown for the longer text, and opened for it. -/
theorem oneMoreLetter_shown :
    (run SearchBar.step SearchBar.mount oneMoreLetter).trimmed = "xlmx" ∧
    (run SearchBar.step SearchBar.mount oneMoreLetter).displayResults = ["XLM"] ∧
    (run SearchBar.step SearchBar.mount oneMoreLetter).opens (.keyDown .enter) = some "XLM" ∧
    ¬ ∀ es : List (SearchEvent String), Each SearchBar.step
      (fun s e => (s.step e).HitsShown ∧ s.HitOpened e) SearchBar.mount es := by
  refine ⟨by decide +kernel, by decide +kernel, by decide +kernel, fun h => ?_⟩
  have hall : Each SearchBar.step (fun s e => (s.step e).HitsShown ∧ s.HitOpened e)
    SearchBar.mount (oneMoreLetter.take 3 ++ [.change "xlmx"]) := h _
  have hlast : (run SearchBar.step SearchBar.mount oneMoreLetter).HitsShown :=
    (each_snoc.1 hall).2.1
  have heq := hlast (by decide +kernel) (by decide +kernel) (by decide +kernel)
  exact absurd heq (by decide +kernel)

end Sample

end Lumina
