/-
The tables that the CSV reader returns: every rendering of a table is read back, whatever its line ends and blank
lines, and a text that is malformed or has a record of another width is refused.
-/
import Bittery.Client.ImportCsvFacts

namespace Bittery.ImportCsv

open Lib

/-! ## Blank texts -/

theorem mem_escapeQuotes {c : Char} {value : Text} (h : c ∈ value) : c ∈ escapeQuotes value := by
  refine List.mem_flatMap.2 ⟨c, h, ?_⟩
  split
  · subst c
    exact List.mem_cons_self
  · exact List.mem_singleton_self c

theorem mem_of_rendersCell {cell text : Text} (h : RendersCell cell text) {c : Char} (hc : c ∈ cell) : c ∈ text := by
  cases h with
  | plain => exact hc
  | quoted => exact List.mem_append_left _ (List.mem_cons_of_mem _ (mem_escapeQuotes hc))

theorem exists_of_not_isBlankRecord {cells : List Text} {text : Text} (h : RendersRecord cells text)
    (hblank : isBlankRecord cells = false) : ∃ c ∈ text, Ecma.isSpace c = false := by
  cases h with
  | @one cell _ hcell =>
    have hcell' : ¬∀ c ∈ cell, Ecma.isSpace c = true := by
      rw [← Ecma.trim_eq_nil]
      simpa [isBlankRecord] using hblank
    push Not at hcell'
    obtain ⟨c, hc, hspace⟩ := hcell'
    exact ⟨c, mem_of_rendersCell hcell hc, by simpa using hspace⟩
  | more => exact ⟨',', List.mem_append_right _ List.mem_cons_self, by decide⟩

/-- A document of more than blank lines has more than white space. -/
theorem trim_ne_nil_of_document {line : Nat} {text : Text} {records : List CsvRecord} (h : Document line text records)
    {record : CsvRecord} (hrecord : record ∈ nonBlank records) : Ecma.trim text ≠ [] := by
  rw [ne_eq, Ecma.trim_eq_nil]
  suffices hsome : ∃ c ∈ text, Ecma.isSpace c = false by
    obtain ⟨c, hc, hspace⟩ := hsome
    exact fun h => Bool.false_ne_true (hspace.symm.trans (h c hc))
  obtain ⟨hmem, hblank⟩ := List.mem_filter.1 hrecord
  rw [Bool.not_eq_true'] at hblank
  clear hrecord
  induction h with
  | nil => cases hmem
  | last hcells =>
    obtain rfl := List.mem_singleton.1 hmem
    exact exists_of_not_isBlankRecord hcells hblank
  | line hcells _ _ ih =>
    rcases List.mem_cons.1 hmem with rfl | hmem
    · obtain ⟨c, hc, hspace⟩ := exists_of_not_isBlankRecord hcells hblank
      exact ⟨c, List.mem_append_left _ (List.mem_append_left _ hc), hspace⟩
    · obtain ⟨c, hc, hspace⟩ := ih hmem
      exact ⟨c, List.mem_append_right _ hc, hspace⟩

theorem mem_of_brokenCell {text : Text} (h : BrokenCell text) : '"' ∈ text := by
  cases h <;> simp

theorem mem_of_broken {text : Text} (h : Broken text) : '"' ∈ text := by
  induction h with
  | cell hcell => exact mem_of_brokenCell hcell
  | comma _ _ ih => exact List.mem_append_right _ (List.mem_cons_of_mem _ ih)
  | line _ _ _ ih => exact List.mem_append_right _ ih

/-! ## The byte order mark -/

theorem rendersRecord_dropBom {cells : List Text} {text : Text} (h : RendersRecord cells (Ecma.BOM :: text)) :
    ∃ cell later, cells = (Ecma.BOM :: cell) :: later ∧ RendersRecord (cell :: later) text := by
  generalize hbom : Ecma.BOM :: text = text' at h
  cases h with
  | one hcell =>
    subst hbom
    cases hcell with
    | plain hplain => exact ⟨text, [], rfl, .one (.plain _ (List.forall_mem_cons.1 hplain).2)⟩
  | @more cell text' cells rest hcell hrest =>
    cases hcell with
    | plain hplain =>
      cases cell with
      | nil => exact absurd (List.cons.inj hbom).1 (by decide)
      | cons c cell =>
        obtain ⟨rfl, rfl⟩ := List.cons.inj hbom
        exact ⟨cell, cells, rfl, .more (.plain _ (List.forall_mem_cons.1 hplain).2) hrest⟩
    | quoted => exact absurd (List.cons.inj hbom).1 (by decide)

theorem breaks_bom (text following : Text) : breaks (Ecma.BOM :: text) following = breaks text following := by
  rw [breaks, if_neg (by simp [show Ecma.BOM ≠ '\n' by decide, show Ecma.BOM ≠ '\r' by decide]), Nat.zero_add]

/-- Without the byte order mark in front only the first cell is another. -/
theorem document_dropBom {line : Nat} {text : Text} {records : List CsvRecord}
    (h : Document line (Ecma.BOM :: text) records) :
    ∃ cell cells later, records = ⟨(Ecma.BOM :: cell) :: cells, line⟩ :: later ∧
      Document line text (⟨cell :: cells, line⟩ :: later) := by
  generalize hbom : Ecma.BOM :: text = text' at h
  cases h with
  | nil => cases hbom
  | last hcells =>
    subst hbom
    obtain ⟨cell, later, rfl, hrest⟩ := rendersRecord_dropBom hcells
    exact ⟨cell, later, [], rfl, .last hrest⟩
  | @line _ cells text' lineEnd rest records hcells hend hrest =>
    cases text' with
    | nil => cases hend <;> exact absurd (List.cons.inj hbom).1 (by decide)
    | cons c text' =>
      obtain ⟨rfl, rfl⟩ := List.cons.inj hbom
      obtain ⟨cell, later, rfl, hcells'⟩ := rendersRecord_dropBom hcells
      rw [List.cons_append, breaks_bom] at hrest
      exact ⟨cell, later, records, rfl, .line hcells' hend hrest⟩

/-- The header of a text is read with or without its byte order mark. -/
theorem document_stripBom {line : Nat} {text : Text} {records rows : List CsvRecord} {header : CsvRecord}
    (h : Document line text records) (hrecords : nonBlank records = header :: rows) :
    ∃ records' header', Document line (stripBom text) records' ∧ nonBlank records' = header' :: rows ∧
      header'.fields.map Ecma.trim = header.fields.map Ecma.trim := by
  cases text with
  | nil => exact ⟨records, header, h, hrecords, rfl⟩
  | cons c text =>
    rw [stripBom]
    split
    · subst c
      obtain ⟨cell, cells, later, rfl, hdropped⟩ := document_dropBom h
      have htrim : Ecma.trim (Ecma.BOM :: cell) = Ecma.trim cell := Ecma.trim_cons_of_isSpace Ecma.isSpace_bom cell
      have hblank : isBlankRecord ((Ecma.BOM :: cell) :: cells) = isBlankRecord (cell :: cells) := by
        simp [isBlankRecord, htrim]
      simp only [nonBlank, List.filter_cons, hblank] at hrecords
      cases hfirst : isBlankRecord (cell :: cells) with
      | true =>
        rw [hfirst] at hrecords
        exact ⟨_, header, hdropped, by simpa [nonBlank, List.filter_cons, hfirst] using hrecords, rfl⟩
      | false =>
        rw [hfirst] at hrecords
        obtain ⟨rfl, rfl⟩ := List.cons.inj hrecords
        refine ⟨_, ⟨cell :: cells, line⟩, hdropped, by simp [nonBlank, hfirst], ?_⟩
        simp [htrim]
    · exact ⟨records, header, h, hrecords, rfl⟩

/-! ## The header and the rows -/

section Parse

variable {toLowerCase : Text → Text}

theorem normalizeHeader_trim (header : Text) :
    normalizeHeader toLowerCase (Ecma.trim header) = normalizeHeader toLowerCase header := by
  rw [normalizeHeader, normalizeHeader, Ecma.trim_trim]

theorem assertNoDuplicateHeaders_ok {seen headers : List Text}
    (h : (headers.map (normalizeHeader toLowerCase)).Nodup)
    (hseen : ∀ header ∈ headers, normalizeHeader toLowerCase header ∉ seen) :
    assertNoDuplicateHeaders toLowerCase seen headers = .ok () := by
  induction headers generalizing seen with
  | nil => rfl
  | cons header headers ih =>
    rw [List.map_cons, List.nodup_cons] at h
    obtain ⟨hheader, hrest⟩ := List.forall_mem_cons.1 hseen
    rw [assertNoDuplicateHeaders, if_neg hheader]
    refine ih h.2 fun other hother hmem => ?_
    rcases List.mem_cons.1 hmem with heq | hmem
    · exact h.1 (heq ▸ List.mem_map_of_mem hother)
    · exact hrest other hother hmem

theorem assertRequiredHeaders_ok {headers requiredHeaders : List Text}
    (h : ∀ required ∈ requiredHeaders,
      normalizeHeader toLowerCase required ∈ headers.map (normalizeHeader toLowerCase)) :
    assertRequiredHeaders toLowerCase headers requiredHeaders = .ok () := by
  have hnone : (requiredHeaders.filter fun required =>
      normalizeHeader toLowerCase required ∉ headers.map (normalizeHeader toLowerCase)) = [] :=
    List.filter_eq_nil_iff.2 fun required hrequired => by simpa using h required hrequired
  rw [assertRequiredHeaders]
  simp only [hnone]

theorem dataRows_ok {headers : List Text} {records : List CsvRecord}
    (h : ∀ record ∈ records, record.fields.length = headers.length) :
    dataRows headers records = .ok (records.map CsvRecord.fields) := by
  induction records with
  | nil => rfl
  | cons record records ih =>
    obtain ⟨hrecord, hrest⟩ := List.forall_mem_cons.1 h
    rw [dataRows, if_neg (not_not.2 hrecord), ih hrest]
    rfl

/-- The first record of another width, and the error that names it. -/
theorem dataRows_error {headers : List Text} {records : List CsvRecord}
    (h : ∃ record ∈ records, record.fields.length ≠ headers.length) :
    ∃ before first after, records = before ++ first :: after ∧
      (∀ record ∈ before, record.fields.length = headers.length) ∧ first.fields.length ≠ headers.length ∧
      dataRows headers records =
        .error (.csvRowColumnMismatch first.lineNumber headers.length first.fields.length) := by
  induction records with
  | nil =>
    obtain ⟨_, hmem, -⟩ := h
    cases hmem
  | cons record records ih =>
    by_cases hrecord : record.fields.length = headers.length
    · obtain ⟨other, hmem, hother⟩ := h
      have hmem' : other ∈ records := (List.mem_cons.1 hmem).resolve_left fun heq => hother (heq ▸ hrecord)
      obtain ⟨before, first, after, rfl, hbefore, hfirst, hrows⟩ := ih ⟨other, hmem', hother⟩
      refine ⟨record :: before, first, after, rfl, List.forall_mem_cons.2 ⟨hrecord, hbefore⟩, hfirst, ?_⟩
      rw [dataRows, if_neg (not_not.2 hrecord), hrows]
      rfl
    · exact ⟨[], record, records, rfl, fun _ h => (nomatch h), hrecord, by rw [dataRows, if_pos hrecord]⟩

/-! ## The whole text -/

theorem tokenizeCsv_document {text : Text} {records : List CsvRecord} (h : Document 1 text records) :
    ∃ tokens, tokenizeCsv text = .ok tokens ∧ nonBlank tokens = nonBlank records := by
  obtain ⟨tail, hrun, hsame⟩ := (Tokenizer.reads_document h).1 Tokenizer.atLine_initial
  exact ⟨tail, by rw [tokenizeCsv, hrun]; rfl, hsame⟩

/-- What is left to check of a document with a header. -/
theorem parseCsv_document {text : Text} {requiredHeaders : List Text} {records rows : List CsvRecord}
    {header : CsvRecord} (h : Document 1 (stripBom text) records) (hrecords : nonBlank records = header :: rows) :
    parseCsv toLowerCase text requiredHeaders = (do
      assertNoDuplicateHeaders toLowerCase [] (header.fields.map Ecma.trim)
      assertRequiredHeaders toLowerCase (header.fields.map Ecma.trim) requiredHeaders
      let rows ← dataRows (header.fields.map Ecma.trim) rows
      return ⟨header.fields.map Ecma.trim, rows⟩) := by
  obtain ⟨tokens, htokens, hsame⟩ := tokenizeCsv_document h
  have hblank : Ecma.trim (stripBom text) ≠ [] := trim_ne_nil_of_document h (by rw [hrecords]; exact List.mem_cons_self)
  have hfilter : tokens.filter (fun record => !isBlankRecord record.fields) = header :: rows := hsame.trans hrecords
  rw [parseCsv, if_neg hblank, htokens]
  simp only [bind, Except.bind, hfilter]

theorem parseCsv_table {source : Text} {requiredHeaders header : List Text} {rows : List (List Text)}
    {records : List CsvRecord} (h : Document 1 (stripBom source) records) {headerRecord : CsvRecord}
    {rowRecords : List CsvRecord} (hrecords : nonBlank records = headerRecord :: rowRecords)
    (hheader : headerRecord.fields.map Ecma.trim = header.map Ecma.trim) (hrows : rowRecords.map CsvRecord.fields = rows)
    (hwidth : ∀ row ∈ rows, row.length = header.length)
    (hdistinct : (header.map (normalizeHeader toLowerCase)).Nodup)
    (hrequired : ∀ required ∈ requiredHeaders,
      normalizeHeader toLowerCase required ∈ header.map (normalizeHeader toLowerCase)) :
    parseCsv toLowerCase source requiredHeaders = .ok ⟨header.map Ecma.trim, rows⟩ := by
  have hnormalized : (header.map Ecma.trim).map (normalizeHeader toLowerCase) =
      header.map (normalizeHeader toLowerCase) := by
    rw [List.map_map]
    exact List.map_congr_left fun cell _ => normalizeHeader_trim cell
  have hlengths : ∀ record ∈ rowRecords, record.fields.length = (header.map Ecma.trim).length := fun record hrecord => by
    rw [List.length_map]
    exact hwidth _ (hrows ▸ List.mem_map_of_mem hrecord)
  rw [parseCsv_document h hrecords, hheader,
    assertNoDuplicateHeaders_ok (hnormalized.symm ▸ hdistinct) fun _ _ => List.not_mem_nil,
    assertRequiredHeaders_ok (hnormalized.symm ▸ hrequired), dataRows_ok hlengths, hrows]
  rfl

theorem trim_broken_ne_nil {text : Text} (h : Broken text) : Ecma.trim text ≠ [] := by
  rw [ne_eq, Ecma.trim_eq_nil]
  exact fun hspace => absurd (hspace _ (mem_of_broken h)) (by decide)

/-- **A rendering of a table is read as the table, with its headers trimmed; malformed quoting is refused, and so is a
record of another width. The line that is reported then is where the first such record starts.** -/
theorem parseCsv_exact (toLowerCase : Text → Text) (requiredHeaders : List Text) :
    (∀ (header : List Text) (rows : List (List Text)) (source text : Text) (records : List CsvRecord),
      (∀ row ∈ rows, row.length = header.length) →
      (header.map (normalizeHeader toLowerCase)).Nodup →
      (∀ required ∈ requiredHeaders,
        normalizeHeader toLowerCase required ∈ header.map (normalizeHeader toLowerCase)) →
      Document 1 source records → (nonBlank records).map CsvRecord.fields = header :: rows →
      text = source ∨ text = Ecma.BOM :: source →
      parseCsv toLowerCase text requiredHeaders = .ok ⟨header.map Ecma.trim, rows⟩) ∧
    (∀ text, Broken (stripBom text) → parseCsv toLowerCase text requiredHeaders = .error .csvMalformedQuoting) ∧
    ∀ (text : Text) (records rows : List CsvRecord) (header : CsvRecord),
      Document 1 (stripBom text) records → nonBlank records = header :: rows →
      (∃ record ∈ rows, record.fields.length ≠ header.fields.length) →
      ∃ before first after, rows = before ++ first :: after ∧
        (∀ record ∈ before, record.fields.length = header.fields.length) ∧
        first.fields.length ≠ header.fields.length ∧
        ∃ error, parseCsv toLowerCase text requiredHeaders = .error error ∧
          (error = .csvRowColumnMismatch first.lineNumber header.fields.length first.fields.length ∨
            assertNoDuplicateHeaders toLowerCase [] (header.fields.map Ecma.trim) = .error error ∨
            assertRequiredHeaders toLowerCase (header.fields.map Ecma.trim) requiredHeaders = .error error) := by
  refine ⟨?_, ?_, ?_⟩
  · intro header rows source text records hwidth hdistinct hrequired hdocument htable htext
    obtain ⟨headerRecord, rowRecords, hrecords, rfl, rfl⟩ := List.map_eq_cons_iff.1 htable
    rcases htext with rfl | rfl
    · obtain ⟨records', header', hdocument', hrecords', hheader⟩ := document_stripBom hdocument hrecords
      exact parseCsv_table hdocument' hrecords' hheader rfl hwidth hdistinct hrequired
    · have hstrip : stripBom (Ecma.BOM :: source) = source := by rw [stripBom, if_pos rfl]
      exact parseCsv_table (hstrip.symm ▸ hdocument) hrecords rfl rfl hwidth hdistinct hrequired
  · intro text hbroken
    rw [parseCsv, if_neg (trim_broken_ne_nil hbroken), tokenizeCsv,
      (Tokenizer.run_broken hbroken).1 Tokenizer.atLine_initial.toFresh]
    rfl
  · intro text records rows header hdocument hrecords hother
    obtain ⟨before, first, after, hsplit, hbefore, hfirst, hrows⟩ :=
      @dataRows_error (header.fields.map Ecma.trim) rows (by simpa only [List.length_map] using hother)
    simp only [List.length_map] at hbefore hfirst hrows
    refine ⟨before, first, after, hsplit, hbefore, hfirst, ?_⟩
    rw [parseCsv_document hdocument hrecords]
    cases hduplicate : assertNoDuplicateHeaders toLowerCase [] (header.fields.map Ecma.trim) with
    | error error => exact ⟨error, rfl, Or.inr (Or.inl rfl)⟩
    | ok =>
      cases hrequired : assertRequiredHeaders toLowerCase (header.fields.map Ecma.trim) requiredHeaders with
      | error error => exact ⟨error, rfl, Or.inr (Or.inr rfl)⟩
      | ok => exact ⟨_, by rw [hrows]; rfl, Or.inl rfl⟩

/-- After the header a blank line, a record with a line break in a cell, and a record of one cell: that is line 5. -/
theorem parseCsv_exact_shortRow :
    parseCsv id "a,b\n\n\"1\n2\",3\nc".toList ["a".toList] = .error (.csvRowColumnMismatch 5 2 1) := by
  have hplain : ∀ value : Text, value.all (fun c => !isSpecial c) = true → RendersCell value value := fun value h =>
    .plain value fun c hc => by simpa using List.all_eq_true.1 h c hc
  have hdocument : Document 1 (stripBom "a,b\n\n\"1\n2\",3\nc".toList)
      [⟨["a".toList, "b".toList], 1⟩, ⟨["".toList], 2⟩, ⟨["1\n2".toList, "3".toList], 3⟩, ⟨["c".toList], 5⟩] :=
    .line (.more (hplain "a".toList (by decide)) (.one (hplain "b".toList (by decide)))) .lf <|
    .line (.one (hplain [] (by decide))) .lf <|
    .line (.more (.quoted "1\n2".toList) (.one (hplain "3".toList (by decide)))) .lf <|
    .last (.one (hplain "c".toList (by decide)))
  obtain ⟨before, first, after, hsplit, hbefore, hfirst, error, herror, hcause⟩ :=
    (parseCsv_exact id ["a".toList]).2.2 _ _ [⟨["1\n2".toList, "3".toList], 3⟩, ⟨["c".toList], 5⟩]
      ⟨["a".toList, "b".toList], 1⟩ hdocument (by decide) ⟨⟨["c".toList], 5⟩, by decide, by decide⟩
  have hfive : first = ⟨["c".toList], 5⟩ := by
    rcases before with _ | ⟨one, _ | ⟨two, before⟩⟩
    · obtain rfl := (List.cons.inj hsplit).1
      exact absurd rfl hfirst
    · exact (List.cons.inj (List.cons.inj hsplit).2).1.symm
    · exact absurd (congrArg List.length hsplit) (by simp)
  subst hfive
  rcases hcause with rfl | hcause | hcause
  · exact herror
  · exact nomatch (show Except.ok () = Except.error error from hcause)
  · exact nomatch (show Except.ok () = Except.error error from hcause)

end Parse

end Bittery.ImportCsv
