/-
The CSV reader against the grammar of RFC 4180: it reads every rendering of a table, in lines that end in any of the
three ways and with blank ones between them, and refuses every text whose quoting is malformed.
-/
import Bittery.Client.ImportCsv

namespace Bittery.ImportCsv

open Lib

/-! ## The grammar -/

/-- Characters that a cell has to be quoted for. -/
def isSpecial (c : Char) : Bool := c = '"' || c = ',' || c = '\r' || c = '\n'

def escapeQuotes (value : Text) : Text := value.flatMap fun c => if c = '"' then ['"', '"'] else [c]

/-- A cell as it is, or in quotes. -/
inductive RendersCell : Text → Text → Prop
  | plain (value : Text) : (∀ c ∈ value, isSpecial c = false) → RendersCell value value
  | quoted (value : Text) : RendersCell value ('"' :: escapeQuotes value ++ ['"'])

/-- Cells with commas between them. -/
inductive RendersRecord : List Text → Text → Prop
  | one {cell text : Text} : RendersCell cell text → RendersRecord [cell] text
  | more {cell text : Text} {cells : List Text} {rest : Text} :
    RendersCell cell text → RendersRecord cells rest → RendersRecord (cell :: cells) (text ++ ',' :: rest)

inductive LineEnd : Text → Prop
  | crlf : LineEnd ['\r', '\n']
  | lf : LineEnd ['\n']
  | cr : LineEnd ['\r']

/-- The line breaks in a text that another one follows. -/
def breaks : Text → Text → Nat
  | [], _ => 0
  | c :: text, following =>
    (if c = '\n' ∨ (c = '\r' ∧ (text ++ following).head? ≠ some '\n') then 1 else 0) + breaks text following

/-- Records on lines of their own, the last line with or without an end. A record carries the line it starts on;
`line` is that of the beginning. A blank line is a record of one cell of white space. -/
inductive Document : Nat → Text → List CsvRecord → Prop
  | nil (line : Nat) : Document line [] []
  | last {line : Nat} {cells : List Text} {text : Text} :
    RendersRecord cells text → Document line text [⟨cells, line⟩]
  | line {line : Nat} {cells : List Text} {text lineEnd rest : Text} {records : List CsvRecord} :
    RendersRecord cells text → LineEnd lineEnd → Document (line + breaks (text ++ lineEnd) rest) rest records →
    Document line (text ++ lineEnd ++ rest) (⟨cells, line⟩ :: records)

/-- A quote that is never closed, one inside an unquoted cell, or text after a closing one. -/
inductive BrokenCell : Text → Prop
  | unterminated (value : Text) : BrokenCell ('"' :: escapeQuotes value)
  | inside {value rest : Text} : value ≠ [] → (∀ c ∈ value, isSpecial c = false) → BrokenCell (value ++ '"' :: rest)
  | after {value : Text} {c : Char} {rest : Text} :
    isSpecial c = false → BrokenCell ('"' :: escapeQuotes value ++ '"' :: c :: rest)

/-- Records up to a broken cell. -/
inductive Broken : Text → Prop
  | cell {text : Text} : BrokenCell text → Broken text
  | comma {cell text rest : Text} : RendersCell cell text → Broken rest → Broken (text ++ ',' :: rest)
  | line {cell text lineEnd rest : Text} :
    RendersCell cell text → LineEnd lineEnd → Broken rest → Broken (text ++ lineEnd ++ rest)

/-- The records that are not blank. -/
def nonBlank (records : List CsvRecord) : List CsvRecord := records.filter fun record => !isBlankRecord record.fields

/-! ## Line breaks -/

theorem breaks_append (text text' following : Text) :
    breaks (text ++ text') following = breaks text (text' ++ following) + breaks text' following := by
  induction text with
  | nil => simp [breaks]
  | cons c text ih =>
    simp only [List.cons_append, breaks, ih, List.append_assoc]
    omega

theorem breaks_eq_zero {text : Text} (h : ∀ c ∈ text, isSpecial c = false) (following : Text) :
    breaks text following = 0 := by
  induction text with
  | nil => rfl
  | cons c text ih =>
    obtain ⟨hc, hrest⟩ := List.forall_mem_cons.1 h
    simp only [isSpecial, Bool.or_eq_false_iff, decide_eq_false_iff_not] at hc
    rw [breaks, ih hrest, if_neg (by simp [hc])]

/-! ## Cells -/

namespace Tokenizer

variable {s : Tokenizer}

/-- What may follow a cell. -/
def Stops (rest : Text) : Prop := ∀ c ∈ rest.head?, c = ',' ∨ c = '\r' ∨ c = '\n'

/-! ### One character -/

theorem run_inQuotes (hquotes : s.inQuotes = true) {c : Char} (hc : c ≠ '"') (rest : Text) :
    s.run (c :: rest) = { s with
      line := if c = '\n' ∨ (c = '\r' ∧ rest.head? ≠ some '\n') then s.line + 1 else s.line
      field := s.field ++ [c] }.run rest := by
  rw [run.eq_def]
  simp only [hquotes, if_true, if_neg hc]

theorem run_escaped (hquotes : s.inQuotes = true) (rest : Text) :
    s.run ('"' :: '"' :: rest) = { s with field := s.field ++ ['"'] }.run rest := by
  rw [run.eq_def]
  simp only [hquotes, if_true]

theorem run_close (hquotes : s.inQuotes = true) {rest : Text} (hrest : rest.head? ≠ some '"') :
    s.run ('"' :: rest) = { s with inQuotes := false, quotedFieldClosed := true }.run rest := by
  rw [run.eq_def]
  simp only [hquotes, if_true]
  split
  · exact absurd rfl hrest
  · rfl

theorem run_open (hquotes : s.inQuotes = false) (hstarted : s.fieldStarted = false) (rest : Text) :
    s.run ('"' :: rest) = { s with inQuotes := true, fieldStarted := true }.run rest := by
  rw [run.eq_def]
  simp only [hquotes, hstarted, Bool.false_eq_true, if_false, if_true]

theorem run_char (hquotes : s.inQuotes = false) (hclosed : s.quotedFieldClosed = false) {c : Char}
    (hc : isSpecial c = false) (rest : Text) :
    s.run (c :: rest) = { s with field := s.field ++ [c], fieldStarted := true }.run rest := by
  simp only [isSpecial, Bool.or_eq_false_iff, decide_eq_false_iff_not] at hc
  obtain ⟨⟨⟨hquote, hcomma⟩, hcr⟩, hlf⟩ := hc
  rw [run.eq_def]
  simp only [hquotes, hclosed, hquote, hcomma, hcr, hlf, Bool.false_eq_true, if_false, Bool.false_and]

theorem run_comma (hquotes : s.inQuotes = false) (rest : Text) : s.run (',' :: rest) = s.endField.run rest := by
  rw [run.eq_def]
  simp [hquotes]

theorem run_crlf (hquotes : s.inQuotes = false) (rest : Text) :
    s.run ('\r' :: '\n' :: rest) = s.endRecord.nextLine.run rest := by
  rw [run.eq_def]
  simp [hquotes]

theorem run_cr (hquotes : s.inQuotes = false) {rest : Text} (hrest : rest.head? ≠ some '\n') :
    s.run ('\r' :: rest) = s.endRecord.nextLine.run rest := by
  rw [run.eq_def]
  simp only [hquotes, Bool.false_eq_true, if_false, show ('\r' : Char) ≠ '"' by decide, bne_self_eq_false,
    Bool.and_false, Bool.false_and, show ('\r' : Char) ≠ ',' by decide, if_true]
  split
  · exact absurd rfl hrest
  · rfl

theorem run_lf (hquotes : s.inQuotes = false) (rest : Text) : s.run ('\n' :: rest) = s.endRecord.nextLine.run rest := by
  rw [run.eq_def]
  simp [hquotes]

/-! ### Cells -/

theorem run_plain (hquotes : s.inQuotes = false) (hclosed : s.quotedFieldClosed = false) {value : Text}
    (h : ∀ c ∈ value, isSpecial c = false) (rest : Text) :
    ∃ started, s.run (value ++ rest) = { s with field := s.field ++ value, fieldStarted := started }.run rest ∧
      (value ≠ [] → started = true) ∧ (value = [] → started = s.fieldStarted) := by
  induction value generalizing s with
  | nil => exact ⟨s.fieldStarted, by rw [List.nil_append, List.append_nil], fun h => absurd rfl h, fun _ => rfl⟩
  | cons c value ih =>
    obtain ⟨hc, hrest⟩ := List.forall_mem_cons.1 h
    obtain ⟨started, hrun, hsome, hnone⟩ :=
      @ih { s with field := s.field ++ [c], fieldStarted := true } hquotes hclosed hrest
    refine ⟨started, ?_, fun _ => ?_, fun h => by cases h⟩
    · rw [List.cons_append, run_char hquotes hclosed hc, hrun, List.append_assoc, List.singleton_append]
    · by_cases hvalue : value = []
      · exact hnone hvalue
      · exact hsome hvalue

/-- The inside of a quoted cell, whatever follows it. -/
theorem run_escapeQuotes (hquotes : s.inQuotes = true) (value rest : Text) :
    s.run (escapeQuotes value ++ rest) = { s with
      field := s.field ++ value, line := s.line + breaks (escapeQuotes value) rest }.run rest := by
  induction value generalizing s with
  | nil => simp [escapeQuotes, breaks]
  | cons c value ih =>
    have hcons : escapeQuotes (c :: value) = (if c = '"' then ['"', '"'] else [c]) ++ escapeQuotes value :=
      List.flatMap_cons
    rw [hcons]
    by_cases hc : c = '"'
    · subst hc
      have hbreaks : breaks (['"', '"'] ++ escapeQuotes value) rest = breaks (escapeQuotes value) rest := by
        simp [breaks]
      rw [if_pos rfl, hbreaks, List.append_assoc, List.cons_append, List.cons_append, List.nil_append,
        run_escaped hquotes, ih (s := { s with field := s.field ++ ['"'] }) hquotes, List.append_assoc]
      rfl
    · rw [if_neg hc, List.append_assoc, List.singleton_append, run_inQuotes hquotes hc,
        ih (s := { s with line := _, field := s.field ++ [c] }) hquotes]
      simp only [breaks, List.append_assoc, List.singleton_append]
      congr 2
      split <;> omega

/-- Nothing of a cell has been read. -/
structure Fresh (s : Tokenizer) : Prop where
  inQuotes : s.inQuotes = false
  field : s.field = []
  fieldStarted : s.fieldStarted = false
  quotedFieldClosed : s.quotedFieldClosed = false

theorem Stops.head?_ne {rest : Text} (h : Stops rest) {c : Char} (hc : c ≠ ',' ∧ c ≠ '\r' ∧ c ≠ '\n') :
    rest.head? ≠ some c := fun heq => by
  rcases h c heq with rfl | rfl | rfl
  · exact hc.1 rfl
  · exact hc.2.1 rfl
  · exact hc.2.2 rfl

/-- A cell is read whole. -/
theorem run_cell (hs : s.Fresh) {cell text : Text} (h : RendersCell cell text) {rest : Text} (hrest : Stops rest) :
    ∃ started closed, s.run (text ++ rest) = { s with
      field := cell, fieldStarted := started, quotedFieldClosed := closed, line := s.line + breaks text rest }.run rest := by
  cases h with
  | plain hplain =>
    obtain ⟨started, hrun, -⟩ := run_plain hs.inQuotes hs.quotedFieldClosed hplain rest
    refine ⟨started, s.quotedFieldClosed, ?_⟩
    rw [hrun, hs.field, List.nil_append, breaks_eq_zero hplain, Nat.add_zero]
  | quoted =>
    have hbreaks : breaks ('"' :: escapeQuotes cell ++ ['"']) rest = breaks (escapeQuotes cell) ('"' :: rest) := by
      rw [breaks_append]
      simp [breaks]
    refine ⟨true, true, ?_⟩
    rw [hbreaks, List.append_assoc, List.cons_append, List.singleton_append, run_open hs.inQuotes hs.fieldStarted,
      run_escapeQuotes (s := { s with inQuotes := true, fieldStarted := true }) rfl,
      run_close (by rfl) (hrest.head?_ne (by decide)), hs.field, List.nil_append, hs.inQuotes]

theorem Fresh.endField (hquotes : s.inQuotes = false) : s.endField.Fresh := ⟨hquotes, rfl, rfl, rfl⟩

/-- What may follow a record. -/
def EndsLine (rest : Text) : Prop := ∀ c ∈ rest.head?, c = '\r' ∨ c = '\n'

theorem EndsLine.stops {rest : Text} (h : EndsLine rest) : Stops rest := fun c hc => Or.inr (h c hc)

theorem breaks_comma (text rest following : Text) :
    breaks (text ++ ',' :: rest) following = breaks text (',' :: rest ++ following) + breaks rest following := by
  rw [breaks_append]
  simp [breaks]

/-- A record is read whole, up to its last cell. -/
theorem run_record (hs : s.Fresh) {cells : List Text} {text : Text} (h : RendersRecord cells text) {rest : Text}
    (hrest : EndsLine rest) :
    ∃ init last started closed, cells = init ++ [last] ∧ s.run (text ++ rest) = { s with
      record := s.record ++ init, field := last, fieldStarted := started, quotedFieldClosed := closed,
      line := s.line + breaks text rest }.run rest := by
  induction h generalizing s with
  | @one cell text hcell =>
    obtain ⟨started, closed, hrun⟩ := run_cell hs hcell hrest.stops
    exact ⟨[], cell, started, closed, rfl, by rw [hrun, List.append_nil]⟩
  | @more cell text cells later hcell _ ih =>
    have hcomma : Stops (',' :: later ++ rest) := fun c hc => Or.inl (Option.some.inj hc).symm
    obtain ⟨started, closed, hrun⟩ := run_cell hs hcell hcomma
    obtain ⟨init, last, started', closed', hcells, hrun'⟩ := @ih ({ s with
      field := cell, fieldStarted := started, quotedFieldClosed := closed,
      line := s.line + breaks text (',' :: (later ++ rest)) } : Tokenizer).endField (Fresh.endField hs.inQuotes)
    refine ⟨cell :: init, last, started', closed', by rw [hcells, List.cons_append], ?_⟩
    rw [List.append_assoc, List.cons_append]
    rw [List.cons_append] at hrun
    rw [hrun, run_comma (by exact hs.inQuotes), hrun', breaks_comma, List.cons_append]
    simp only [Tokenizer.endField, List.append_assoc, List.singleton_append, Nat.add_assoc]

/-- A record ends, and with it its line. -/
theorem run_lineEnd (hquotes : s.inQuotes = false) {lineEnd : Text} (h : LineEnd lineEnd) (rest : Text) :
    (s.run (lineEnd ++ rest) = s.endRecord.nextLine.run rest ∧ breaks lineEnd rest = 1) ∨
      ∃ rest', rest = '\n' :: rest' ∧ s.run (lineEnd ++ rest) = s.endRecord.nextLine.run rest' ∧ breaks lineEnd rest = 0 := by
  cases h with
  | crlf => exact Or.inl ⟨run_crlf hquotes rest, by simp [breaks]⟩
  | lf => exact Or.inl ⟨run_lf hquotes rest, by simp [breaks]⟩
  | cr =>
    by_cases hrest : rest.head? = some '\n'
    · obtain ⟨rest', rfl⟩ := List.head?_eq_some_iff.1 hrest
      exact Or.inr ⟨rest', rfl, run_crlf hquotes rest', by simp [breaks]⟩
    · exact Or.inl ⟨run_cr hquotes hrest, by simp [breaks, hrest]⟩

end Tokenizer

/-! ## Documents -/

theorem ne_of_rendersCell {cell text : Text} (h : RendersCell cell text) {c : Char} (hc : isSpecial c = true)
    (hquote : c ≠ '"') (rest : Text) : text ≠ c :: rest := by
  rintro rfl
  cases h with
  | plain hplain => exact absurd (hplain c List.mem_cons_self) (by simp [hc])
  | quoted => exact hquote rfl

theorem rendersRecord_nil {cells : List Text} (h : RendersRecord cells []) : cells = [[]] := by
  generalize htext : ([] : Text) = text at h
  cases h with
  | one hcell =>
    subst htext
    cases hcell
    rfl
  | more hcell _ => simp at htext

/-- No record starts with a line feed. -/
theorem ne_of_rendersRecord {cells : List Text} {text : Text} (h : RendersRecord cells text) (rest : Text) :
    text ≠ '\n' :: rest := by
  cases h with
  | one hcell => exact ne_of_rendersCell hcell (by decide) (by decide) rest
  | @more cell text cells later hcell _ =>
    intro htext
    cases text with
    | nil => exact absurd (List.cons.inj htext).1 (by decide)
    | cons c text => exact ne_of_rendersCell hcell (by decide) (by decide) text (congrArg (· :: text) (List.cons.inj htext).1)

namespace Tokenizer

variable {s : Tokenizer}

/-- At the beginning of a line. -/
structure AtLine (s : Tokenizer) (number : Nat) : Prop extends s.Fresh where
  record : s.record = []
  line : s.line = number
  recordLine : s.recordLine = number

theorem atLine_initial : initial.AtLine 1 := ⟨⟨rfl, rfl, rfl, rfl⟩, rfl, rfl, rfl⟩

theorem atLine_nextLine (hquotes : s.inQuotes = false) : s.endRecord.nextLine.AtLine (s.line + 1) :=
  ⟨⟨hquotes, rfl, rfl, rfl⟩, rfl, rfl, rfl⟩

theorem endsLine_of_lineEnd {lineEnd : Text} (h : LineEnd lineEnd) (rest : Text) : EndsLine (lineEnd ++ rest) := by
  cases h with
  | crlf | cr => exact fun c hc => Or.inl (Option.some.inj hc).symm
  | lf => exact fun c hc => Or.inr (Option.some.inj hc).symm

/-- The records are read, but for blank ones; `tail` is what is appended. -/
def ReadsAs (s : Tokenizer) (text : Text) (records : List CsvRecord) : Prop :=
  ∃ tail, s.run text = .ok (s.records ++ tail) ∧ nonBlank tail = nonBlank records

/-- The end of a record puts it before those of the lines after it. -/
theorem readsAs_of_line {cells : List Text} {number : Nat} {records : List CsvRecord} {text rest : Text} {s' : Tokenizer}
    (hs' : s'.endRecord.records = s.records ++ [⟨cells, number⟩]) (hrun : s.run text = s'.endRecord.nextLine.run rest)
    (h : s'.endRecord.nextLine.ReadsAs rest records) : s.ReadsAs text (⟨cells, number⟩ :: records) := by
  obtain ⟨tail, htail, hsame⟩ := h
  refine ⟨⟨cells, number⟩ :: tail, ?_, ?_⟩
  · rw [hrun, htail, nextLine, hs', List.append_assoc, List.singleton_append]
  · simp only [nonBlank, List.filter_cons] at hsame ⊢
    rw [hsame]

/-- A document is read from the beginning of a line; and what follows its line feed, when the carriage return before
that ended the line. -/
theorem reads_document {line : Nat} {text : Text} {records : List CsvRecord} (h : Document line text records) :
    (∀ {s : Tokenizer}, s.AtLine line → s.ReadsAs text records) ∧
      ∀ {s : Tokenizer} {text' : Text}, text = '
' :: text' → s.AtLine (line + 1) → s.ReadsAs text' records := by
  induction h with
  | nil line =>
    refine ⟨fun {s} hs => ⟨[], ?_, rfl⟩, fun h => by cases h⟩
    rw [run_nil, finish, hs.inQuotes, hs.field, hs.record]
    simp
  | @last line cells text hrecord =>
    refine ⟨fun {s} hs => ?_, fun h => absurd h (ne_of_rendersRecord hrecord _)⟩
    obtain ⟨init, last, started, closed, rfl, hrun⟩ :=
      run_record hs.toFresh hrecord (show EndsLine [] from fun c hc => by cases hc)
    rw [List.append_nil] at hrun
    rw [ReadsAs, hrun, run_nil, finish]
    simp only [hs.inQuotes, hs.record, Bool.false_eq_true, if_false, List.nil_append]
    by_cases hempty : last = [] ∧ init = []
    · obtain ⟨rfl, rfl⟩ := hempty
      exact ⟨[], by simp, by simp [nonBlank, isBlankRecord, Ecma.trim, Ecma.trimStart]⟩
    · refine ⟨[⟨init ++ [last], line⟩], ?_, rfl⟩
      rw [if_pos (not_and_or.1 hempty)]
      simp [endRecord, endField, hs.recordLine]
  | @line line cells text lineEnd rest records hrecord hend hrest ih =>
    constructor
    · intro s hs
      obtain ⟨init, last, started, closed, hcells, hrun⟩ :=
        run_record hs.toFresh hrecord (endsLine_of_lineEnd hend rest)
      rw [List.append_assoc]
      generalize hs' : ({ s with
        record := s.record ++ init, field := last, fieldStarted := started, quotedFieldClosed := closed,
        line := s.line + breaks text (lineEnd ++ rest) } : Tokenizer) = s' at hrun
      have hquotes : s'.inQuotes = false := by rw [← hs', hs.inQuotes]
      have hline : s'.line = line + breaks text (lineEnd ++ rest) := by rw [← hs', hs.line]
      have hrecords : s'.endRecord.records = s.records ++ [⟨cells, line⟩] := by
        rw [← hs', hcells]
        simp [endRecord, endField, hs.record, hs.recordLine]
      have hstart := atLine_nextLine hquotes
      rw [hline] at hstart
      rw [breaks_append] at ih
      obtain ⟨hnext, hbreaks⟩ | ⟨rest', hrest', hnext, hbreaks⟩ := run_lineEnd hquotes hend rest
      · rw [hbreaks, ← Nat.add_assoc] at ih
        exact readsAs_of_line hrecords (hrun.trans hnext) (ih.1 hstart)
      · rw [hbreaks, Nat.add_zero] at ih
        exact readsAs_of_line hrecords (hrun.trans hnext) (ih.2 hrest' hstart)
    · intro s text' htext hs
      cases text with
      | cons c text =>
        exact absurd (congrArg (· :: text) (List.cons.inj htext).1) (ne_of_rendersRecord hrecord text)
      | nil =>
        obtain rfl := rendersRecord_nil hrecord
        cases hend with
        | crlf | cr => exact absurd (List.cons.inj htext).1 (by decide)
        | lf =>
          obtain rfl : rest = text' := (List.cons.inj htext).2
          obtain ⟨tail, htail, hsame⟩ := ih.1 hs
          refine ⟨tail, htail, hsame.trans ?_⟩
          simp [nonBlank, isBlankRecord, Ecma.trim, Ecma.trimStart]

/-! ## Malformed quoting -/

theorem run_quote_started (hquotes : s.inQuotes = false) (hstarted : s.fieldStarted = true) (rest : Text) :
    s.run ('"' :: rest) = .error .csvMalformedQuoting := by
  rw [run.eq_def]
  simp [hquotes, hstarted]

theorem run_after_quote (hquotes : s.inQuotes = false) (hclosed : s.quotedFieldClosed = true) {c : Char}
    (hc : isSpecial c = false) (rest : Text) : s.run (c :: rest) = .error .csvMalformedQuoting := by
  simp only [isSpecial, Bool.or_eq_false_iff, decide_eq_false_iff_not] at hc
  obtain ⟨⟨⟨hquote, hcomma⟩, hcr⟩, hlf⟩ := hc
  rw [run.eq_def]
  simp [hquotes, hclosed, hquote, hcomma, hcr, hlf]

theorem run_brokenCell (hs : s.Fresh) {text : Text} (h : BrokenCell text) :
    s.run text = .error .csvMalformedQuoting := by
  cases h with
  | unterminated value =>
    have hinside := run_escapeQuotes (s := { s with inQuotes := true, fieldStarted := true }) rfl value []
    rw [List.append_nil] at hinside
    rw [run_open hs.inQuotes hs.fieldStarted, hinside, run_nil, finish, if_pos rfl]
  | @inside value rest hvalue hplain =>
    obtain ⟨started, hrun, hstarted, -⟩ := run_plain hs.inQuotes hs.quotedFieldClosed hplain ('"' :: rest)
    rw [hrun, run_quote_started (by exact hs.inQuotes) (by exact hstarted hvalue)]
  | @after value c rest hc =>
    have hquote : (c :: rest).head? ≠ some '"' := fun h => by
      rw [Option.some.inj h] at hc
      exact absurd hc (by decide)
    rw [List.cons_append, run_open hs.inQuotes hs.fieldStarted,
      run_escapeQuotes (s := { s with inQuotes := true, fieldStarted := true }) rfl, run_close (by rfl) hquote,
      run_after_quote (by rfl) (by rfl) hc]

/-- Malformed quoting is refused, wherever it is; and so is what follows the line feed of such a text. -/
theorem run_broken {text : Text} (h : Broken text) :
    (∀ {s : Tokenizer}, s.Fresh → s.run text = .error .csvMalformedQuoting) ∧
      ∀ {s : Tokenizer} {text' : Text}, text = '
' :: text' → s.Fresh → s.run text' = .error .csvMalformedQuoting := by
  induction h with
  | @cell text hcell =>
    refine ⟨fun hs => run_brokenCell hs hcell, fun {s text'} htext => ?_⟩
    cases hcell with
    | unterminated | after => exact absurd (List.cons.inj htext).1 (by decide)
    | @inside value rest hvalue hplain =>
      cases value with
      | nil => exact absurd rfl hvalue
      | cons c value =>
        rw [(List.cons.inj htext).1] at hplain
        exact absurd (hplain '
' List.mem_cons_self) (by decide)
  | @comma cell text rest hcell _ ih =>
    refine ⟨fun {s} hs => ?_, fun {s text'} htext => ?_⟩
    · obtain ⟨started, closed, hrun⟩ :=
        run_cell hs hcell (show Stops (',' :: rest) from fun c hc => Or.inl (Option.some.inj hc).symm)
      rw [hrun, run_comma (by exact hs.inQuotes)]
      exact ih.1 (Fresh.endField hs.inQuotes)
    · cases text with
      | nil => exact absurd (List.cons.inj htext).1 (by decide)
      | cons c text =>
        exact absurd (congrArg (· :: text) (List.cons.inj htext).1)
          (ne_of_rendersCell hcell (by decide) (by decide) text)
  | @line cell text lineEnd rest hcell hend _ ih =>
    refine ⟨fun {s} hs => ?_, fun {s text'} htext hs => ?_⟩
    · obtain ⟨started, closed, hrun⟩ := run_cell hs hcell (endsLine_of_lineEnd hend rest).stops
      rw [List.append_assoc, hrun]
      generalize hs' : ({ s with
        field := cell, fieldStarted := started, quotedFieldClosed := closed,
        line := s.line + breaks text (lineEnd ++ rest) } : Tokenizer) = s'
      have hquotes : s'.inQuotes = false := by rw [← hs', hs.inQuotes]
      have hstart : s'.endRecord.nextLine.Fresh := (atLine_nextLine hquotes).toFresh
      obtain ⟨hnext, -⟩ | ⟨rest', hrest', hnext, -⟩ := run_lineEnd hquotes hend rest
      · rw [hnext, ih.1 hstart]
      · rw [hnext, ih.2 hrest' hstart]
    · cases text with
      | cons c text =>
        exact absurd (congrArg (· :: text) (List.cons.inj htext).1)
          (ne_of_rendersCell hcell (by decide) (by decide) text)
      | nil =>
        cases hend with
        | crlf | cr => exact absurd (List.cons.inj htext).1 (by decide)
        | lf =>
          obtain rfl : rest = text' := (List.cons.inj htext).2
          exact ih.1 hs

end Tokenizer

end Bittery.ImportCsv
