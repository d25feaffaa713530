/-
The CSV files of an import, from `lib/import/csv.ts`.

Texts are lists of characters. The mapping to lower case that compares headers is a parameter.
-/
import Bittery.Lib.Ecma
import Mathlib.Data.List.DropRight

namespace Bittery.ImportCsv

open Lib

abbrev Text := List Char

structure CsvTable where
  headers : List Text
  rows : List (List Text)
deriving DecidableEq, Repr

inductive ImportProviderError where
  | csvEmptyFile
  | csvMalformedQuoting
  | csvDuplicateHeader (header : Text)
  | csvMissingHeader (headers : Text)
  | csvRowColumnMismatch (rowNumber expectedColumns actualColumns : Nat)
deriving DecidableEq, Repr

structure CsvRecord where
  fields : List Text
  lineNumber : Nat
deriving DecidableEq, Repr

/-! ## The tokenizer -/

structure Tokenizer where
  records : List CsvRecord
  record : List Text
  field : Text
  inQuotes : Bool
  fieldStarted : Bool
  quotedFieldClosed : Bool
  line : Nat
  recordLine : Nat
deriving DecidableEq, Repr

namespace Tokenizer

def initial : Tokenizer where
  records := []
  record := []
  field := []
  inQuotes := false
  fieldStarted := false
  quotedFieldClosed := false
  line := 1
  recordLine := 1

def endField (s : Tokenizer) : Tokenizer :=
  { s with record := s.record ++ [s.field], field := [], fieldStarted := false, quotedFieldClosed := false }

def endRecord (s : Tokenizer) : Tokenizer :=
  let s := s.endField
  { s with records := s.records ++ [⟨s.record, s.recordLine⟩], record := [] }

/-- The next record starts on the next line. -/
def nextLine (s : Tokenizer) : Tokenizer := { s with line := s.line + 1, recordLine := s.line + 1 }

/-- After the last character. -/
def finish (s : Tokenizer) : Except ImportProviderError (List CsvRecord) :=
  if s.inQuotes then .error .csvMalformedQuoting
  else if s.field ≠ [] ∨ s.record ≠ [] then .ok s.endRecord.records
  else .ok s.records

def run (s : Tokenizer) : Text → Except ImportProviderError (List CsvRecord)
  | [] => s.finish
  | char :: rest =>
    if s.inQuotes then
      if char = '"' then
        match rest with
        | '"' :: rest' => run { s with field := s.field ++ ['"'] } rest'
        | rest => run { s with inQuotes := false, quotedFieldClosed := true } rest
      else
        let line := if char = '\n' ∨ (char = '\r' ∧ rest.head? ≠ some '\n') then s.line + 1 else s.line
        run { s with line := line, field := s.field ++ [char] } rest
    else if char = '"' then
      if s.fieldStarted then .error .csvMalformedQuoting
      else run { s with inQuotes := true, fieldStarted := true } rest
    else if s.quotedFieldClosed && char != ',' && char != '\r' && char != '\n' then .error .csvMalformedQuoting
    else if char = ',' then run s.endField rest
    else if char = '\r' then
      match rest with
      | '\n' :: rest' => run s.endRecord.nextLine rest'
      | rest => run s.endRecord.nextLine rest
    else if char = '\n' then run s.endRecord.nextLine rest
    else run { s with field := s.field ++ [char], fieldStarted := true } rest

theorem run_nil (s : Tokenizer) : s.run [] = s.finish := by rw [run.eq_def]

end Tokenizer

def tokenizeCsv (text : Text) : Except ImportProviderError (List CsvRecord) := Tokenizer.initial.run text

/-! ## The table -/

def stripBom (text : Text) : Text :=
  match text with
  | [] => []
  | c :: rest => if c = Ecma.BOM then rest else text

/-- A single field of white space. -/
def isBlankRecord (fields : List Text) : Bool := fields.length = 1 && Ecma.trim (fields.headD []) = []

variable (toLowerCase : Text → Text)

def normalizeHeader (header : Text) : Text := toLowerCase (Ecma.trim header)

def assertNoDuplicateHeaders (seen : List Text) : List Text → Except ImportProviderError Unit
  | [] => .ok ()
  | header :: headers =>
    let key := normalizeHeader toLowerCase header
    if key ∈ seen then .error (.csvDuplicateHeader header) else assertNoDuplicateHeaders (key :: seen) headers

def assertRequiredHeaders (headers requiredHeaders : List Text) : Except ImportProviderError Unit :=
  let present := headers.map (normalizeHeader toLowerCase)
  match requiredHeaders.filter fun required => normalizeHeader toLowerCase required ∉ present with
  | [] => .ok ()
  | missing => .error (.csvMissingHeader (", ".toList.intercalate missing))

def dataRows (headers : List Text) : List CsvRecord → Except ImportProviderError (List (List Text))
  | [] => .ok []
  | record :: records =>
    if record.fields.length ≠ headers.length then
      .error (.csvRowColumnMismatch record.lineNumber headers.length record.fields.length)
    else do
      let rows ← dataRows headers records
      return record.fields :: rows

def parseCsv (text : Text) (requiredHeaders : List Text) : Except ImportProviderError CsvTable :=
  let source := stripBom text
  if Ecma.trim source = [] then .error .csvEmptyFile
  else do
    let records := (← tokenizeCsv source).filter fun record => !isBlankRecord record.fields
    match records with
    | [] => .error .csvEmptyFile
    | headerRecord :: records => do
      let headers := headerRecord.fields.map Ecma.trim
      assertNoDuplicateHeaders toLowerCase [] headers
      assertRequiredHeaders toLowerCase headers requiredHeaders
      let rows ← dataRows headers records
      return ⟨headers, rows⟩

example : parseCsv id "a,b\r\n\"one\n\"\"two\",2\r\r".toList ["a".toList] =
    .ok ⟨["a".toList, "b".toList], [["one\n\"two".toList, "2".toList]]⟩ := by decide +kernel

end Bittery.ImportCsv
