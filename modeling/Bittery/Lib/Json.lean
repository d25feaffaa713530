/-
The text of a JSON object of strings and numbers, and how many bytes it has.

Writers differ in what they put between the members; strings are escaped in one way.
-/
import Mathlib.Algebra.Order.BigOperators.Group.List
import Mathlib.Data.String.Basic
import Mathlib.Algebra.GroupWithZero.Nat

namespace Lib.Json

def escapeChar (c : Char) : String :=
  match c.toNat with
  | 0x08 => "\\b"
  | 0x09 => "\\t"
  | 0x0a => "\\n"
  | 0x0c => "\\f"
  | 0x0d => "\\r"
  | 0x22 => "\\\""
  | 0x5c => "\\\\"
  | n =>
    if n < 0x20 then "\\u00" ++ String.ofList [Nat.digitChar (n / 16), Nat.digitChar (n % 16)]
    else String.singleton c

def escape (s : String) : String := (s.toList.map escapeChar).foldr (· ++ ·) ""

def quote (s : String) : String := "\"" ++ escape s ++ "\""

/-- Members by their name, with the text of their value. -/
def members (separator colon : String) : List (String × String) → String
  | [] => ""
  | [(name, value)] => quote name ++ colon ++ value
  | (name, value) :: rest => quote name ++ colon ++ value ++ separator ++ members separator colon rest

def object (separator colon : String) (fields : List (String × String)) : String :=
  "\x7b" ++ members separator colon fields ++ "\x7d"

/-- Nothing has to be escaped. -/
def Plain (s : String) : Prop := ∀ c ∈ s.toList, escapeChar c = String.singleton c

instance (s : String) : Decidable (Plain s) := List.decidableBAll _ _

/-! ## Sizes -/

theorem size_foldr (texts : List String) :
    (texts.foldr (· ++ ·) "").utf8ByteSize = (texts.map String.utf8ByteSize).sum := by
  induction texts with
  | nil => rfl
  | cons text texts ih => simp [String.utf8ByteSize_append, ih]

theorem size_eq_sum (s : String) : s.utf8ByteSize = (s.toList.map Char.utf8Size).sum := by
  have hlist : ∀ l : List Char, (String.ofList l).utf8ByteSize = (l.map Char.utf8Size).sum := by
    intro l
    rw [String.utf8ByteSize_ofList]
    induction l with
    | nil => rfl
    | cons c l ih => simp [ih, Nat.add_comm]
  rw [← hlist, String.ofList_toList]

theorem utf8Size_of_ascii {c : Char} (h : c.toNat < 0x80) : c.utf8Size = 1 := by
  have hval : c.val ≤ 0x7f := UInt32.le_iff_toNat_le.mpr (Nat.le_of_lt_succ h)
  simp [Char.utf8Size, hval]

theorem utf8Size_le_escapeChar (c : Char) : c.utf8Size ≤ (escapeChar c).utf8ByteSize := by
  unfold escapeChar
  split
  case h_8 n _ _ _ _ _ _ _ =>
    split
    · rw [utf8Size_of_ascii (by omega), String.utf8ByteSize_append]
      have hprefix : ("\\u00" : String).utf8ByteSize = 4 := rfl
      omega
    · simp
  all_goals
    next hc =>
      rw [utf8Size_of_ascii (by omega)]
      decide

/-- Escaping does not make a text shorter, … -/
theorem size_le_escape (s : String) : s.utf8ByteSize ≤ (escape s).utf8ByteSize := by
  unfold escape
  rw [size_foldr, size_eq_sum s, List.map_map]
  exact List.sum_le_sum fun c _ => utf8Size_le_escapeChar c

/-- … nor longer, when there is nothing to escape. -/
theorem escape_of_plain {s : String} (h : Plain s) : (escape s).utf8ByteSize = s.utf8ByteSize := by
  unfold escape
  rw [size_foldr, size_eq_sum s, List.map_map]
  refine congrArg List.sum (List.map_congr_left fun c hc => ?_)
  simp [h c hc]

theorem size_quote (s : String) : (quote s).utf8ByteSize = (escape s).utf8ByteSize + 2 := by
  simp only [quote, String.utf8ByteSize_append]
  have hquote : ("\"" : String).utf8ByteSize = 1 := rfl
  omega

/-- The members and what stands between them. -/
theorem size_members (separator colon : String) (fields : List (String × String)) :
    (members separator colon fields).utf8ByteSize =
      (fields.map fun f => (quote f.1).utf8ByteSize + colon.utf8ByteSize + f.2.utf8ByteSize).sum +
        (fields.length - 1) * separator.utf8ByteSize := by
  induction fields with
  | nil => simp [members]
  | cons f fields ih =>
    cases fields with
    | nil => simp [members, String.utf8ByteSize_append]
    | cons f' fields =>
      rw [members, String.utf8ByteSize_append, ih]
      · simp only [String.utf8ByteSize_append, List.map_cons, List.sum_cons, List.length_cons, Nat.add_sub_cancel,
          Nat.add_mul, Nat.one_mul]
        omega
      · exact fun h => by cases h

theorem size_object (separator colon : String) (fields : List (String × String)) :
    (object separator colon fields).utf8ByteSize =
      (fields.map fun f => (quote f.1).utf8ByteSize + colon.utf8ByteSize + f.2.utf8ByteSize).sum +
        (fields.length - 1) * separator.utf8ByteSize + 2 := by
  simp only [object, String.utf8ByteSize_append, size_members]
  have hbraces : ("\x7b" : String).utf8ByteSize = 1 ∧ ("\x7d" : String).utf8ByteSize = 1 := ⟨rfl, rfl⟩
  omega

/-! ### Numbers -/

def number (n : Nat) : String := n.repr

theorem size_number (n : Nat) : (number n).utf8ByteSize = (number n).length := by
  have hdigits : ∀ l : List Char, (∀ c ∈ l, c.isDigit = true) → (l.map Char.utf8Size).sum = l.length := by
    intro l hl
    induction l with
    | nil => rfl
    | cons c l ih =>
      have hc : c.utf8Size = 1 := utf8Size_of_ascii (by
        have := hl c List.mem_cons_self
        simp only [Char.isDigit, Bool.and_eq_true, decide_eq_true_eq] at this
        have hle : c.val.toNat ≤ 57 := UInt32.le_iff_toNat_le.mp this.2
        exact Nat.lt_of_le_of_lt hle (by decide))
      rw [List.map_cons, List.sum_cons, hc, ih fun d hd => hl d (List.mem_cons_of_mem c hd), List.length_cons, Nat.add_comm]
  rw [number, Nat.repr_eq_ofList_toDigits, size_eq_sum, String.toList_ofList, hdigits _ fun c hc => ?_, String.length_ofList]
  exact Nat.isDigit_of_mem_toDigits (by decide) (by decide) hc

/-- The next number is at most one digit longer. -/
theorem size_number_succ (n : Nat) : (number (n + 1)).utf8ByteSize ≤ (number n).utf8ByteSize + 1 := by
  rw [size_number, size_number]
  have hlt : n < 10 ^ (number n).length := (Nat.length_repr_le_iff Nat.length_repr_pos).mp Nat.le.refl
  refine (Nat.length_repr_le_iff (Nat.succ_pos _)).mpr ?_
  rw [Nat.pow_succ]
  omega

/-! ## Bytes -/

def utf8 (s : String) : List UInt8 := s.toUTF8.data.toList

theorem length_utf8 (s : String) : (utf8 s).length = s.utf8ByteSize := rfl

theorem utf8_inj {s t : String} (h : utf8 s = utf8 t) : s = t :=
  String.toByteArray_inj.mp (ByteArray.ext (Array.ext' h))

end Lib.Json
