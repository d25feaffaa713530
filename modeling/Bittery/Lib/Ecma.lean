/-
Texts as ECMAScript and the platform around it read them: white space, whole numbers in front of a text, and the
UTF-8 decoder with its byte order mark.
-/
import Bittery.Lib.Utf8
import Mathlib.Data.List.DropRight
import Mathlib.Data.List.TakeWhile

namespace Lib.Ecma

/-- White space and line ends: what `trim` removes and `\s` matches. -/
def isSpace (c : Char) : Bool :=
  let n := c.toNat
  (9 ≤ n && n ≤ 13) || n = 0x20 || n = 0xA0 || n = 0x1680 || (0x2000 ≤ n && n ≤ 0x200A) || n = 0x2028 ||
    n = 0x2029 || n = 0x202F || n = 0x205F || n = 0x3000 || n = 0xFEFF

def trimStart (text : List Char) : List Char := text.dropWhile isSpace

def trim (text : List Char) : List Char := ((trimStart text).reverse.dropWhile isSpace).reverse

theorem trim_eq_rdropWhile (text : List Char) : trim text = (text.dropWhile isSpace).rdropWhile isSpace := rfl

theorem trim_trim (text : List Char) : trim (trim text) = trim text := by
  have hstart : (trim text).dropWhile isSpace = trim text := by
    rw [List.dropWhile_eq_self_iff]
    intro hlength
    have hinit : trim text <+: text.dropWhile isSpace := List.rdropWhile_prefix isSpace _
    rw [hinit.getElem hlength]
    exact List.dropWhile_get_zero_not isSpace text (hlength.trans_le hinit.length_le)
  rw [trim_eq_rdropWhile (trim text), hstart, trim_eq_rdropWhile, List.rdropWhile_idempotent]

theorem trim_eq_nil {text : List Char} : trim text = [] ↔ ∀ c ∈ text, isSpace c = true := by
  constructor
  · intro h c hc
    rw [trim_eq_rdropWhile, List.rdropWhile_eq_nil_iff] at h
    rw [← List.takeWhile_append_dropWhile (p := isSpace) (l := text), List.mem_append] at hc
    exact hc.elim List.mem_takeWhile_imp (h c)
  · intro h
    rw [trim_eq_rdropWhile, List.dropWhile_eq_nil_iff.2 h, List.rdropWhile_nil]

/-- A text with no white space at its ends. -/
theorem trim_eq_self {a : Char} {text : List Char} (ha : isSpace a = false)
    (hlast : isSpace ((a :: text).getLast (List.cons_ne_nil a text)) = false) : trim (a :: text) = a :: text := by
  rw [trim_eq_rdropWhile, List.dropWhile_cons_of_neg (by rw [ha]; exact Bool.false_ne_true),
    List.rdropWhile_eq_self_iff]
  exact fun _ => by rw [hlast]; exact Bool.false_ne_true

theorem trim_cons_of_isSpace {c : Char} (hc : isSpace c = true) (text : List Char) : trim (c :: text) = trim text := by
  rw [trim, trim, trimStart, trimStart, List.dropWhile_cons_of_pos hc]

/-! ## Upper case -/

/-- The characters past ASCII whose upper case is ASCII, with it. -/
def asciiUpperCases : List (Char × List Char) :=
  [('ß', ['S', 'S']), ('ı', ['I']), ('ſ', ['S']), ('ﬀ', ['F', 'F']), ('ﬁ', ['F', 'I']), ('ﬂ', ['F', 'L']),
    ('ﬃ', ['F', 'F', 'I']), ('ﬄ', ['F', 'F', 'L']), ('ﬅ', ['S', 'T']), ('ﬆ', ['S', 'T'])]

/-- The full upper case of the characters of Unicode. -/
structure UpperCase where
  map : Char → List Char
  ascii (c : Char) : c.toNat < 128 → map c = [c.toUpper]
  toAscii : ∀ entry ∈ asciiUpperCases, map entry.1 = entry.2
  other (c : Char) : 128 ≤ c.toNat → (∀ entry ∈ asciiUpperCases, entry.1 ≠ c) → ∃ d ∈ map c, 128 ≤ d.toNat
  letters (c : Char) : 128 ≤ c.toNat → ∀ d ∈ map c, d.toNat < 128 → d.isUpper = true

/-- The mapping that leaves every other character as it is. -/
def UpperCase.least : UpperCase where
  map c := if c.toNat < 128 then [c.toUpper] else ((asciiUpperCases.find? (·.1 = c)).map (·.2)).getD [c]
  ascii c hc := if_pos hc
  toAscii := by decide
  other c hc hnone := by
    have hfind : asciiUpperCases.find? (·.1 = c) = none := List.find?_eq_none.2 fun entry h => by simpa using hnone entry h
    rw [if_neg (by omega), hfind]
    exact ⟨c, List.mem_singleton_self c, hc⟩
  letters c hc d hd hlt := by
    rw [if_neg (by omega)] at hd
    cases hfind : asciiUpperCases.find? (·.1 = c) with
    | none =>
      rw [hfind] at hd
      obtain rfl := List.mem_singleton.1 hd
      omega
    | some entry =>
      rw [hfind] at hd
      have hall : (asciiUpperCases.all fun entry => entry.2.all Char.isUpper) = true := by decide
      exact List.all_eq_true.1 (List.all_eq_true.1 hall entry (List.mem_of_find?_eq_some hfind)) d hd

def toUpperCase (u : UpperCase) (text : List Char) : List Char := text.flatMap u.map

theorem toUpperCase_of_ascii {u : UpperCase} {text : List Char} (h : ∀ c ∈ text, c.toNat < 128) :
    toUpperCase u text = text.map Char.toUpper := by
  rw [List.map_eq_flatMap]
  exact List.flatMap_congr fun c hc => u.ascii c (h c hc)

/-! ## Numbers -/

/-- Whether a minus sign stands in front, and the text without a sign. -/
def sign : List Char → Bool × List Char
  | '-' :: rest => (true, rest)
  | '+' :: rest => (false, rest)
  | text => (false, text)

/-- `parseInt(text, 10)` before it is rounded; `none` is not a number. -/
def parseInt (text : List Char) : Option Int :=
  let (negative, text) := sign (trimStart text)
  let digits := text.takeWhile Char.isDigit
  if digits = [] then none
  else some (if negative then -(Nat.ofDigitChars 10 digits 0 : Int) else Nat.ofDigitChars 10 digits 0)

theorem not_isSpace_of_isDigit {c : Char} (h : c.isDigit = true) : isSpace c = false := by
  have hdigit : 48 ≤ c.toNat ∧ c.toNat ≤ 57 := by
    simp only [Char.isDigit, Bool.and_eq_true, decide_eq_true_eq] at h
    exact ⟨h.1, h.2⟩
  simp only [isSpace, Bool.or_eq_false_iff, Bool.and_eq_false_iff, decide_eq_false_iff_not]
  omega

/-- **A number that is written is read.** -/
theorem parseInt_repr (n : Nat) : parseInt n.repr.toList = some (n : Int) := by
  have hdigits : ∀ c ∈ Nat.toDigits 10 n, c.isDigit = true :=
    fun c hc => Nat.isDigit_of_mem_toDigits (by decide) (by decide) hc
  rw [Nat.toList_repr]
  cases hlist : Nat.toDigits 10 n with
  | nil => exact absurd hlist Nat.toDigits_ne_nil
  | cons c rest =>
    rw [hlist] at hdigits
    have hc := hdigits c List.mem_cons_self
    have htrim : trimStart (c :: rest) = c :: rest := by
      rw [trimStart, List.dropWhile_cons_of_neg (by simp [not_isSpace_of_isDigit hc])]
    have hsign : sign (c :: rest) = (false, c :: rest) := by
      unfold sign
      split
      · next heq => exact absurd (List.cons.inj heq).1 (by rintro rfl; exact absurd hc (by decide))
      · next heq => exact absurd (List.cons.inj heq).1 (by rintro rfl; exact absurd hc (by decide))
      · rfl
    have htake : (c :: rest).takeWhile Char.isDigit = c :: rest := List.takeWhile_eq_self_iff.2 hdigits
    have hvalue : Nat.ofDigitChars 10 (c :: rest) 0 = n := by
      rw [← hlist]
      exact Nat.ofDigitChars_toDigits (by decide) (by decide)
    simp only [parseInt, htrim, hsign, htake, hvalue, Bool.false_eq_true, if_false, reduceCtorEq]

/-! ## Texts as bytes -/

def BOM : Char := Char.ofNat 0xFEFF

theorem isSpace_bom : isSpace BOM = true := by decide

/-- `new TextDecoder().decode(bytes)`: malformed bytes are replaced, and a byte order mark in front is dropped. -/
def textDecode (bytes : List UInt8) : List Char :=
  match Utf8.lossy bytes with
  | [] => []
  | c :: rest => if c = BOM then rest else c :: rest

/-- **A text that is encoded is decoded to itself, unless it starts with a byte order mark.** -/
theorem textDecode_encode {text : List Char} (h : text.head? ≠ some BOM) : textDecode (Utf8.encode text) = text := by
  rw [textDecode, Utf8.lossy_encode]
  cases text with
  | nil => rfl
  | cons c rest => exact if_neg fun heq => h (congrArg some heq)

end Lib.Ecma
