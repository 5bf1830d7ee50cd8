import Mathlib.Data.List.Nodup

/-!
# Separated values

A table is written with its fields separated by commas and its records by line feeds; a field that
contains a separator or a quote stands between quotes, with its quotes doubled.  The reader ends a
record at a line feed outside quotes, and takes a carriage return before it as a part of the line
end.  A field that is written without quotes and ends in a carriage return therefore loses it at
the end of a record, and that is the only difference (`read_write`).

## Main definitions

* `Dialect α` : the four special characters.
* `Dialect.cell`, `Dialect.write` : the text of a field, and of a table.
* `Dialect.read` : the table that a text is read as, if it is well formed.
* `Dialect.shown` : the table without the carriage returns that the reader takes as line ends.
-/

namespace Lumina

namespace Csv

variable {α : Type*}

/-- The special characters. -/
structure Dialect (α : Type*) where
  quote : α
  comma : α
  cr : α
  lf : α
  nodup : [quote, comma, cr, lf].Nodup

section Distinct

variable {d : Dialect α}

theorem Dialect.distinct : (d.quote ≠ d.comma ∧ d.quote ≠ d.cr ∧ d.quote ≠ d.lf) ∧
    (d.comma ≠ d.cr ∧ d.comma ≠ d.lf) ∧ d.cr ≠ d.lf := by
  have h := d.nodup
  simp only [List.nodup_cons, List.mem_cons, List.not_mem_nil, or_false, not_or,
    not_false_eq_true, List.nodup_nil, and_true] at h
  exact h

theorem Dialect.comma_ne_quote : d.comma ≠ d.quote := d.distinct.1.1.symm

theorem Dialect.lf_ne_quote : d.lf ≠ d.quote := d.distinct.1.2.2.symm

theorem Dialect.lf_ne_comma : d.lf ≠ d.comma := d.distinct.2.1.2.symm

theorem Dialect.cr_ne_quote : d.cr ≠ d.quote := d.distinct.1.2.1.symm

theorem Dialect.cr_ne_comma : d.cr ≠ d.comma := d.distinct.2.1.1.symm

theorem Dialect.cr_ne_lf : d.cr ≠ d.lf := d.distinct.2.2

end Distinct

/-- Where the reader stands in a field. -/
inductive Mode where
  /-- Before its first character. -/
  | start
  | plain
  | quoted
  /-- After a quote in a quoted field: its end, or the first of two. -/
  | closed
  deriving DecidableEq

/-- What has been read: the records, the fields of the next one, and the next field. -/
structure Reading (α : Type*) where
  records : List (List (List α))
  fields : List (List α)
  field : List α
  mode : Mode

namespace Reading

def init : Reading α := ⟨[], [], [], .start⟩

def push (s : Reading α) (c : α) (mode : Mode) : Reading α :=
  { s with field := s.field ++ [c], mode }

def endField (s : Reading α) : Reading α :=
  ⟨s.records, s.fields ++ [s.field], [], .start⟩

def endRecord (s : Reading α) : Reading α :=
  ⟨s.records ++ [s.fields ++ [s.field]], [], [], .start⟩

/-- The records at the end of the text.  Without a character since the last line end there is no
further record, and an open quote is an error. -/
def finish (s : Reading α) : Option (List (List (List α))) :=
  if s.mode = .quoted then none
  else if s.mode = .start ∧ s.fields = [] then some s.records
  else some (s.records ++ [s.fields ++ [s.field]])

end Reading

namespace Dialect

variable [DecidableEq α] (d : Dialect α)

/-! ### Writing -/

/-- The field contains a quote, a comma or a line feed. -/
def NeedsQuotes (s : List α) : Prop := d.quote ∈ s ∨ d.comma ∈ s ∨ d.lf ∈ s

instance (s : List α) : Decidable (d.NeedsQuotes s) := inferInstanceAs (Decidable (_ ∨ _))

/-- The text of a field. -/
def cell (s : List α) : List α :=
  if d.NeedsQuotes s then
    d.quote :: s.flatMap (fun c => if c = d.quote then [d.quote, d.quote] else [c]) ++ [d.quote]
  else s

/-- The text of a record. -/
def writeRecord (r : List (List α)) : List α := List.intercalate [d.comma] (r.map d.cell)

/-- The text of a table. -/
def write (t : List (List (List α))) : List α := List.intercalate [d.lf] (t.map d.writeRecord)

/-! ### Reading -/

/-- The reader at a character that is not part of a line end of two characters. -/
def step (s : Reading α) (c : α) : Option (Reading α) :=
  match s.mode with
  | .start =>
    if c = d.quote then some { s with mode := .quoted }
    else if c = d.comma then some s.endField
    else if c = d.lf then some s.endRecord
    else some (s.push c .plain)
  | .plain =>
    -- a quote belongs to quoted fields only
    if c = d.quote then none
    else if c = d.comma then some s.endField
    else if c = d.lf then some s.endRecord
    else some (s.push c .plain)
  | .quoted =>
    if c = d.quote then some { s with mode := .closed }
    else some (s.push c .quoted)
  | .closed =>
    if c = d.quote then some (s.push c .quoted)
    else if c = d.comma then some s.endField
    else if c = d.lf then some s.endRecord
    else none

/-- The reader on a text.  Outside quotes a carriage return before a line feed is skipped. -/
def run (s : Reading α) : List α → Option (Reading α)
  | [] => some s
  | c :: rest =>
    if s.mode ≠ .quoted ∧ c = d.cr ∧ rest.head? = some d.lf then run s rest
    else (d.step s c).bind fun s' => run s' rest

/-- The table that a text is read as. -/
def read (text : List α) : Option (List (List (List α))) := (d.run .init text).bind Reading.finish

/-! ### What is read back -/

/-- The field is written without quotes and ends in a carriage return. -/
def EndsInCr (s : List α) : Prop := ¬ d.NeedsQuotes s ∧ s.getLast? = some d.cr

instance (s : List α) : Decidable (d.EndsInCr s) := inferInstanceAs (Decidable (_ ∧ _))

/-- The last field of a record as it is read before a line feed. -/
def chop (s : List α) : List α := if d.EndsInCr s then s.dropLast else s

/-- A record as it is read before a line feed. -/
def chopRecord : List (List α) → List (List α)
  | [] => []
  | [s] => [d.chop s]
  | s :: s' :: r => s :: chopRecord (s' :: r)

/-- A table as it is read: its last record stands before no line feed. -/
def shown : List (List (List α)) → List (List (List α))
  | [] => []
  | [r] => [r]
  | r :: r' :: t => d.chopRecord r :: shown (r' :: t)

/-! ### Fields -/

variable {d : Dialect α} {st : Reading α} {s rest : List α} {c : α} {mode : Mode}

/-- The reader at a character that begins no line end. -/
theorem run_cons (h : st.mode = .quoted ∨ c ≠ d.cr ∨ rest.head? ≠ some d.lf) :
    d.run st (c :: rest) = (d.step st c).bind fun s' => d.run s' rest := by
  rw [run, if_neg]
  rintro ⟨hmode, hc, hhead⟩
  rcases h with h | h | h
  · exact hmode h
  · exact h hc
  · exact h hhead

/-- Outside a field between quotes. -/
def Open (mode : Mode) : Prop := mode = .start ∨ mode = .plain

/-- A comma ends a field. -/
theorem run_comma (h : st.mode ≠ .quoted) :
    d.run st (d.comma :: rest) = d.run st.endField rest := by
  rw [run_cons (.inr (.inl cr_ne_comma.symm))]
  cases hmode : st.mode with
  | start => simp [step, hmode, comma_ne_quote]
  | plain => simp [step, hmode, comma_ne_quote]
  | quoted => exact absurd hmode h
  | closed => simp [step, hmode, comma_ne_quote]

/-- A line feed ends a record. -/
theorem run_lf (h : st.mode ≠ .quoted) :
    d.run st (d.lf :: rest) = d.run st.endRecord rest := by
  rw [run_cons (.inr (.inl cr_ne_lf.symm))]
  cases hmode : st.mode with
  | start => simp [step, hmode, lf_ne_quote, lf_ne_comma]
  | plain => simp [step, hmode, lf_ne_quote, lf_ne_comma]
  | quoted => exact absurd hmode h
  | closed => simp [step, hmode, lf_ne_quote, lf_ne_comma]

/-- A carriage return and a line feed do as well. -/
theorem run_crlf (h : st.mode ≠ .quoted) :
    d.run st (d.cr :: d.lf :: rest) = d.run st.endRecord rest := by
  rw [run, if_pos ⟨h, rfl, rfl⟩, run_lf h]

/-- A field without quotes is taken as it is, if its end is not a part of a line end. -/
theorem run_plain (hs : ¬ d.NeedsQuotes s) (hmode : Open st.mode)
    (hrest : s.getLast? = some d.cr → rest.head? ≠ some d.lf) :
    d.run st (s ++ rest) =
      d.run { st with field := st.field ++ s, mode := if s = [] then st.mode else .plain } rest := by
  induction s generalizing st with
  | nil => simp
  | cons c s ih =>
    simp only [NeedsQuotes, List.mem_cons, not_or] at hs
    obtain ⟨⟨hquote, hs₁⟩, ⟨hcomma, hs₂⟩, ⟨hlf, hs₃⟩⟩ := hs
    have hs' : ¬ d.NeedsQuotes s := by
      rintro (h | h | h)
      · exact hs₁ h
      · exact hs₂ h
      · exact hs₃ h
    have hhead : c ≠ d.cr ∨ (s ++ rest).head? ≠ some d.lf := by
      by_cases hc : c = d.cr
      · right
        cases s with
        | nil => exact hrest (by rw [hc]; rfl)
        | cons c' s => exact fun h => hs₃ (Option.some.inj h ▸ List.mem_cons_self)
      · exact .inl hc
    have hstep : d.step st c = some (st.push c .plain) := by
      rcases hmode with hmode | hmode <;>
        simp [step, hmode, Ne.symm hquote, Ne.symm hcomma, Ne.symm hlf]
    rw [List.cons_append, run_cons (.inr hhead), hstep, Option.bind_some, ih hs' (.inr rfl)]
    · cases s <;> simp [Reading.push]
    · intro h
      refine hrest ?_
      cases s with
      | nil => cases h
      | cons c' s => rwa [List.getLast?_cons_cons]

/-- Between quotes a field is taken as it is, and two quotes stand for one. -/
theorem run_quoted (hmode : st.mode = .quoted) :
    d.run st (s.flatMap (fun c => if c = d.quote then [d.quote, d.quote] else [c]) ++ rest) =
      d.run { st with field := st.field ++ s } rest := by
  induction s generalizing st with
  | nil => simp
  | cons c s ih =>
    have hpush : { st.push c .quoted with field := (st.push c .quoted).field ++ s } =
        { st with field := st.field ++ c :: s } := by
      simp [Reading.push, hmode]
    rw [List.flatMap_cons, List.append_assoc]
    by_cases hc : c = d.quote
    · have hclosed : d.step st d.quote = some { st with mode := .closed } := by
        simp [step, hmode]
      have hagain : d.step { st with mode := .closed } d.quote = some (st.push c .quoted) := by
        simp [step, hc, Reading.push]
      rw [if_pos hc, List.cons_append, run_cons (.inl hmode), hclosed, Option.bind_some,
        List.singleton_append, run_cons (.inr (.inl cr_ne_quote.symm)), hagain, Option.bind_some,
        ih rfl, hpush]
    · have hstep : d.step st c = some (st.push c .quoted) := by simp [step, hmode, hc]
      rw [if_neg hc, List.singleton_append, run_cons (.inl hmode), hstep, Option.bind_some, ih rfl,
        hpush]

/-- A field between quotes is taken as it is. -/
theorem run_cell_quoted (hs : d.NeedsQuotes s) (hmode : st.mode = .start) (hfield : st.field = []) :
    d.run st (d.cell s ++ rest) = d.run { st with field := s, mode := .closed } rest := by
  have hopen : d.step st d.quote = some { st with mode := .quoted } := by simp [step, hmode]
  have hclose : d.step ⟨st.records, st.fields, s, .quoted⟩ d.quote =
      some { st with field := s, mode := .closed } := by
    simp [step]
  rw [cell, if_pos hs, List.append_assoc, List.cons_append,
    run_cons (.inr (.inl cr_ne_quote.symm)), hopen, Option.bind_some, run_quoted rfl,
    List.singleton_append, run_cons (.inl rfl)]
  simp [hfield, hclose]

/-- What the reader has after a field. -/
def took (d : Dialect α) (st : Reading α) (s : List α) : Reading α :=
  { st with
    field := s
    mode := if d.NeedsQuotes s then .closed else if s = [] then .start else .plain }

theorem took_mode_ne : (d.took st s).mode ≠ .quoted := by
  unfold took
  split_ifs <;> simp

/-- A field is taken as it is, if its end is not a part of a line end. -/
theorem run_cell (hmode : st.mode = .start) (hfield : st.field = [])
    (hrest : d.EndsInCr s → rest.head? ≠ some d.lf) :
    d.run st (d.cell s ++ rest) = d.run (d.took st s) rest := by
  by_cases hs : d.NeedsQuotes s
  · rw [run_cell_quoted hs hmode hfield, took, if_pos hs]
  · rw [cell, if_neg hs, run_plain hs (.inl hmode) fun h => hrest ⟨hs, h⟩, took, if_neg hs, hfield,
      hmode, List.nil_append]

theorem run_cell_comma (hmode : st.mode = .start) (hfield : st.field = []) :
    d.run st (d.cell s ++ d.comma :: rest) =
      d.run ⟨st.records, st.fields ++ [s], [], .start⟩ rest := by
  have hhead : (d.comma :: rest).head? ≠ some d.lf := fun h => lf_ne_comma (Option.some.inj h).symm
  rw [run_cell hmode hfield fun _ => hhead, run_comma took_mode_ne]
  rfl

/-- A field at the end of a record loses its carriage return. -/
theorem run_cell_lf (hmode : st.mode = .start) (hfield : st.field = []) :
    d.run st (d.cell s ++ d.lf :: rest) =
      d.run ⟨st.records ++ [st.fields ++ [d.chop s]], [], [], .start⟩ rest := by
  by_cases hs : d.EndsInCr s
  · obtain ⟨hquotes, hlast⟩ := hs
    have heq : s = s.dropLast ++ [d.cr] := (List.dropLast_append_getLast? _ hlast).symm
    have hsub := List.dropLast_subset s
    have hdrop : ¬ d.NeedsQuotes s.dropLast := fun h =>
      hquotes (h.imp (@hsub _) (Or.imp (@hsub _) (@hsub _)))
    have hhead : (d.cr :: d.lf :: rest).head? ≠ some d.lf := fun h => cr_ne_lf (Option.some.inj h)
    have hchop : d.chop s = s.dropLast := if_pos ⟨hquotes, hlast⟩
    have htext : d.cell s ++ d.lf :: rest = s.dropLast ++ d.cr :: d.lf :: rest := by
      rw [cell, if_neg hquotes]
      nth_rewrite 1 [heq]
      simp
    rw [htext, run_plain hdrop (.inl hmode) fun _ => hhead, run_crlf, hchop, hfield,
      List.nil_append]
    · rfl
    · rw [hmode]
      split_ifs <;> simp
  · rw [run_cell hmode hfield fun h => absurd h hs, run_lf took_mode_ne, chop, if_neg hs]
    rfl

/-- A field at the end of the text. -/
theorem run_cell_end (hmode : st.mode = .start) (hfield : st.field = []) (hfields : st.fields ≠ []) :
    (d.run st (d.cell s)).bind Reading.finish = some (st.records ++ [st.fields ++ [s]]) := by
  have hrun : d.run st (d.cell s ++ []) = d.run (d.took st s) [] :=
    run_cell hmode hfield fun _ => by simp
  rw [List.append_nil] at hrun
  rw [hrun, run, Option.bind_some, Reading.finish, if_neg took_mode_ne, if_neg fun h => hfields h.2]
  rfl

/-! ### Records -/

variable {r : List (List α)} {R t : List (List (List α))} {F : List (List α)}

theorem run_record_lf (hr : r ≠ []) :
    d.run ⟨R, F, [], .start⟩ (d.writeRecord r ++ d.lf :: rest) =
      d.run ⟨R ++ [F ++ d.chopRecord r], [], [], .start⟩ rest := by
  induction r generalizing F with
  | nil => exact absurd rfl hr
  | cons s r ih =>
    cases r with
    | nil => simpa [writeRecord, chopRecord] using run_cell_lf (d := d) rfl rfl
    | cons s' r =>
      have htext : d.writeRecord (s :: s' :: r) ++ d.lf :: rest =
          d.cell s ++ d.comma :: (d.writeRecord (s' :: r) ++ d.lf :: rest) := by
        simp [writeRecord, List.intercalate_cons_cons]
      rw [htext, run_cell_comma rfl rfl, ih (by simp), chopRecord]
      simp

theorem run_record_end (hr : r ≠ []) (hF : F ≠ [] ∨ 2 ≤ r.length) :
    (d.run ⟨R, F, [], .start⟩ (d.writeRecord r)).bind Reading.finish = some (R ++ [F ++ r]) := by
  induction r generalizing F with
  | nil => exact absurd rfl hr
  | cons s r ih =>
    cases r with
    | nil =>
      have hF' : F ≠ [] := hF.resolve_right (by simp)
      simpa [writeRecord] using run_cell_end (d := d) rfl rfl hF'
    | cons s' r =>
      have htext : d.writeRecord (s :: s' :: r) =
          d.cell s ++ d.comma :: d.writeRecord (s' :: r) := by
        simp [writeRecord, List.intercalate_cons_cons]
      rw [htext, run_cell_comma rfl rfl, ih (by simp) (.inl (by simp))]
      simp

/-! ### Tables -/

theorem run_write (ht : ∀ r ∈ t, 2 ≤ r.length) :
    (d.run ⟨R, [], [], .start⟩ (d.write t)).bind Reading.finish = some (R ++ d.shown t) := by
  induction t generalizing R with
  | nil => simp [write, run, Reading.finish, shown]
  | cons r t ih =>
    obtain ⟨hr, ht⟩ := List.forall_mem_cons.1 ht
    have hne : r ≠ [] := by
      rintro rfl
      simp at hr
    cases t with
    | nil =>
      have h := run_record_end (d := d) (R := R) (F := []) hne (.inr hr)
      rw [List.nil_append] at h
      simpa [write, shown] using h
    | cons r' t =>
      have htext : d.write (r :: r' :: t) =
          d.writeRecord r ++ d.lf :: d.write (r' :: t) := by
        simp [write, List.intercalate_cons_cons]
      rw [htext, run_record_lf hne, ih ht, shown]
      simp

/-- **What is read back** of a table is the table without the carriage returns at the ends of its
records. -/
theorem read_write (ht : ∀ r ∈ t, 2 ≤ r.length) : d.read (d.write t) = some (d.shown t) := by
  have h := run_write (d := d) (R := []) ht
  rwa [List.nil_append] at h

theorem chopRecord_eq_iff : d.chopRecord r = r ↔ ∀ s ∈ r.getLast?, ¬ d.EndsInCr s := by
  induction r with
  | nil => simp [chopRecord]
  | cons s r ih =>
    cases r with
    | nil =>
      by_cases hs : d.EndsInCr s
      · have hne : s.dropLast ≠ s := by
          intro h
          have hlen := congrArg List.length h
          have hpos : s ≠ [] := by
            rintro rfl
            cases hs.2
          have := List.length_pos_iff.2 hpos
          rw [List.length_dropLast] at hlen
          omega
        simp [chopRecord, chop, hs, hne]
      · simp [chopRecord, chop, hs]
    | cons s' r => simpa [chopRecord] using ih

/-- The table is read back as it is exactly if no record but the last ends in a carriage return
that is not between quotes. -/
theorem shown_eq_iff :
    d.shown t = t ↔ ∀ r ∈ t.dropLast, ∀ s ∈ r.getLast?, ¬ d.EndsInCr s := by
  induction t with
  | nil => simp [shown]
  | cons r t ih =>
    cases t with
    | nil => simp [shown]
    | cons r' t =>
      rw [shown, List.cons.injEq, ih, List.dropLast_cons_cons, List.forall_mem_cons,
        chopRecord_eq_iff]

end Dialect

end Csv

end Lumina
