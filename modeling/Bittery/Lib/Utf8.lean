/-
Reading bytes as UTF-8, with a replacement character for what is not.

A chunk is a character that is well formed, or as much of the bytes as could begin one; it takes
one replacement character. What has no replacement character in it is read back from the bytes that
encode it, and bytes that are read with one share their text with other bytes of the same length.
-/
import Mathlib.Data.List.Basic

namespace Lib.Utf8

/-- The bytes of some characters. -/
def encode (l : List Char) : List UInt8 := l.flatMap String.utf8EncodeChar

@[simp] theorem encode_nil : encode [] = [] := rfl

@[simp] theorem encode_cons (c : Char) (l : List Char) : encode (c :: l) = String.utf8EncodeChar c ++ encode l := rfl

/-- The bytes of a string are those of its characters. -/
theorem toByteArray_toList (s : String) : s.toByteArray.data.toList = encode s.toList := by
  rw [← String.utf8Encode_toList]
  induction s.toList with
  | nil => rfl
  | cons c l ih =>
    rw [List.utf8Encode_cons, List.utf8Encode_singleton, encode_cons, ← ih]
    simp

/-- Only the character zero has a byte that is zero. -/
theorem eq_of_zero_mem_utf8EncodeChar {c : Char} (h : 0 ∈ String.utf8EncodeChar c) : c = Char.ofNat 0 := by
  unfold String.utf8EncodeChar at h
  have hto : ∀ {n : Nat}, 0 < n → n < 256 → 0 ≠ UInt8.ofNat n := fun hpos hlt heq => by
    have := congrArg UInt8.toNat heq
    rw [UInt8.toNat_ofNat_of_lt' hlt] at this
    exact absurd this.symm (Nat.ne_of_gt hpos)
  rw [← Char.ofNat_toNat c]
  show Char.ofNat c.val.toNat = _
  generalize c.val.toNat = v at h ⊢
  simp only at h
  split at h
  · by_cases hv : v = 0
    · rw [hv]
    · exact absurd (List.mem_singleton.1 h) (hto (by omega) (by omega))
  · split at h
    · simp only [List.mem_cons, List.not_mem_nil, or_false] at h
      rcases h with h | h <;> exact absurd h (hto (by omega) (by omega))
    · split at h
      · simp only [List.mem_cons, List.not_mem_nil, or_false] at h
        rcases h with h | h | h <;> exact absurd h (hto (by omega) (by omega))
      · simp only [List.mem_cons, List.not_mem_nil, or_false] at h
        rcases h with h | h | h | h <;> exact absurd h (hto (by omega) (by omega))

theorem zero_mem_of_mem_encode {l : List Char} (h : 0 ∈ encode l) : Char.ofNat 0 ∈ l := by
  rw [encode, List.mem_flatMap] at h
  obtain ⟨c, hc, hmem⟩ := h
  exact eq_of_zero_mem_utf8EncodeChar hmem ▸ hc

/-- A byte that continues a character. -/
def isContinuation (b : UInt8) : Bool := 0x80 ≤ b.toNat && b.toNat ≤ 0xBF

/-- The second bytes that may follow a first one of three or of four. -/
def isSecond (b b' : UInt8) : Bool :=
  isContinuation b' &&
    (if b.toNat = 0xE0 then decide (0xA0 ≤ b'.toNat) else true) && (if b.toNat = 0xED then decide (b'.toNat ≤ 0x9F) else true) &&
    (if b.toNat = 0xF0 then decide (0x90 ≤ b'.toNat) else true) && (if b.toNat = 0xF4 then decide (b'.toNat ≤ 0x8F) else true)

/-- The byte at a place, or zero. -/
def safeGet (l : List UInt8) (i : Nat) : UInt8 := (l[i]?).getD 0

@[simp] theorem safeGet_zero (b : UInt8) (l : List UInt8) : safeGet (b :: l) 0 = b := rfl

@[simp] theorem safeGet_succ (b : UInt8) (l : List UInt8) (i : Nat) : safeGet (b :: l) (i + 1) = safeGet l i := rfl

/-- The first chunk of `b :: l` and its length; no character if it is not well formed. -/
def chunk (b : UInt8) (l : List UInt8) : Option Char × Nat :=
  if b.toNat < 0x80 then (some (Char.ofNat b.toNat), 1)
  else if 0xC2 ≤ b.toNat ∧ b.toNat ≤ 0xDF then
    if isContinuation (safeGet l 0) then
      (some (Char.ofNat ((b.toNat - 0xC0) * 64 + ((safeGet l 0).toNat - 0x80))), 2)
    else (none, 1)
  else if 0xE0 ≤ b.toNat ∧ b.toNat ≤ 0xEF then
    if ¬ isSecond b (safeGet l 0) then (none, 1)
    else if ¬ isContinuation (safeGet l 1) then (none, 2)
    else (some (Char.ofNat ((b.toNat - 0xE0) * 4096 + ((safeGet l 0).toNat - 0x80) * 64 + ((safeGet l 1).toNat - 0x80))), 3)
  else if 0xF0 ≤ b.toNat ∧ b.toNat ≤ 0xF4 then
    if ¬ isSecond b (safeGet l 0) then (none, 1)
    else if ¬ isContinuation (safeGet l 1) then (none, 2)
    else if ¬ isContinuation (safeGet l 2) then (none, 3)
    else (some (Char.ofNat ((b.toNat - 0xF0) * 262144 + ((safeGet l 0).toNat - 0x80) * 4096 +
      ((safeGet l 1).toNat - 0x80) * 64 + ((safeGet l 2).toNat - 0x80))), 4)
  else (none, 1)

def REPLACEMENT : Char := '\uFFFD'

/-- The chunks of at most `fuel` bytes. -/
def lossyGo : Nat → List UInt8 → List Char
  | 0, _ | _, [] => []
  | fuel + 1, b :: l => (chunk b l).1.getD REPLACEMENT :: lossyGo fuel (l.drop ((chunk b l).2 - 1))

def lossy (l : List UInt8) : List Char := lossyGo l.length l

/-! ## A character and its bytes -/

theorem cons_of_isContinuation {l : List UInt8} (h : isContinuation (safeGet l 0) = true) :
    ∃ b l', l = b :: l' ∧ isContinuation b = true := by
  cases l with
  | nil => simp [safeGet, isContinuation] at h
  | cons b l' => exact ⟨b, l', rfl, h⟩

theorem isContinuation_of_isSecond {b b' : UInt8} (h : isSecond b b' = true) : isContinuation b' = true := by
  simp only [isSecond, Bool.and_eq_true] at h
  exact h.1.1.1.1

theorem toNat_of_isContinuation {b : UInt8} (h : isContinuation b = true) : 0x80 ≤ b.toNat ∧ b.toNat ≤ 0xBF := by
  simpa [isContinuation] using h

theorem toNat_of_isSecond {b b' : UInt8} (h : isSecond b b' = true) :
    0x80 ≤ b'.toNat ∧ b'.toNat ≤ 0xBF ∧ (b.toNat = 0xE0 → 0xA0 ≤ b'.toNat) ∧ (b.toNat = 0xED → b'.toNat ≤ 0x9F) ∧
      (b.toNat = 0xF0 → 0x90 ≤ b'.toNat) ∧ (b.toNat = 0xF4 → b'.toNat ≤ 0x8F) := by
  have hcontinuation := toNat_of_isContinuation (isContinuation_of_isSecond h)
  simp only [isSecond, Bool.and_eq_true] at h
  obtain ⟨⟨⟨⟨-, hE0⟩, hED⟩, hF0⟩, hF4⟩ := h
  refine ⟨hcontinuation.1, hcontinuation.2, fun hb => ?_, fun hb => ?_, fun hb => ?_, fun hb => ?_⟩
  · simpa [hb] using hE0
  · simpa [hb] using hED
  · simpa [hb] using hF0
  · simpa [hb] using hF4

theorem utf8EncodeChar_ofNat {n : Nat} (h : n.isValidChar) :
    String.utf8EncodeChar (Char.ofNat n) =
      if n ≤ 0x7F then [UInt8.ofNat n]
      else if n ≤ 0x7FF then [UInt8.ofNat (n / 64 % 0x20 + 0xC0), UInt8.ofNat (n % 0x40 + 0x80)]
      else if n ≤ 0xFFFF then
        [UInt8.ofNat (n / 4096 % 0x10 + 0xE0), UInt8.ofNat (n / 64 % 0x40 + 0x80), UInt8.ofNat (n % 0x40 + 0x80)]
      else [UInt8.ofNat (n / 262144 % 0x08 + 0xF0), UInt8.ofNat (n / 4096 % 0x40 + 0x80),
        UInt8.ofNat (n / 64 % 0x40 + 0x80), UInt8.ofNat (n % 0x40 + 0x80)] := by
  have hval : (Char.ofNat n).val.toNat = n := by
    rw [Char.ofNat, dif_pos h]
    rfl
  simp only [String.utf8EncodeChar, hval]

theorem ofNat_eq {b : UInt8} {n : Nat} (h : n = b.toNat) : UInt8.ofNat n = b := by
  rw [h, UInt8.ofNat_toNat]

theorem utf8EncodeChar_one {b : UInt8} (hb : b.toNat < 0x80) : String.utf8EncodeChar (Char.ofNat b.toNat) = [b] := by
  rw [utf8EncodeChar_ofNat (.inl (by omega)), if_pos (by omega), UInt8.ofNat_toNat]

theorem utf8EncodeChar_two {b b₁ : UInt8} (hb : 0xC2 ≤ b.toNat ∧ b.toNat ≤ 0xDF) (h₁ : isContinuation b₁ = true) :
    String.utf8EncodeChar (Char.ofNat ((b.toNat - 0xC0) * 64 + (b₁.toNat - 0x80))) = [b, b₁] := by
  have hb₁ := toNat_of_isContinuation h₁
  rw [utf8EncodeChar_ofNat (.inl (by omega)), if_neg (by omega), if_pos (by omega), ofNat_eq (b := b) (by omega),
    ofNat_eq (b := b₁) (by omega)]

theorem utf8EncodeChar_three {b b₁ b₂ : UInt8} (hb : 0xE0 ≤ b.toNat ∧ b.toNat ≤ 0xEF) (h₁ : isSecond b b₁ = true)
    (h₂ : isContinuation b₂ = true) :
    String.utf8EncodeChar
      (Char.ofNat ((b.toNat - 0xE0) * 4096 + (b₁.toNat - 0x80) * 64 + (b₂.toNat - 0x80))) = [b, b₁, b₂] := by
  obtain ⟨hlow, hhigh, hE0, hED, -, -⟩ := toNat_of_isSecond h₁
  have hb₂ := toNat_of_isContinuation h₂
  have hvalid : Nat.isValidChar ((b.toNat - 0xE0) * 4096 + (b₁.toNat - 0x80) * 64 + (b₂.toNat - 0x80)) := by
    rcases Nat.lt_or_ge b.toNat 0xEE with hlt | hge
    · exact .inl (by omega)
    · exact .inr ⟨by omega, by omega⟩
  rw [utf8EncodeChar_ofNat hvalid, if_neg (by omega), if_neg (by omega), if_pos (by omega),
    ofNat_eq (b := b) (by omega), ofNat_eq (b := b₁) (by omega), ofNat_eq (b := b₂) (by omega)]

theorem utf8EncodeChar_four {b b₁ b₂ b₃ : UInt8} (hb : 0xF0 ≤ b.toNat ∧ b.toNat ≤ 0xF4) (h₁ : isSecond b b₁ = true)
    (h₂ : isContinuation b₂ = true) (h₃ : isContinuation b₃ = true) :
    String.utf8EncodeChar
      (Char.ofNat ((b.toNat - 0xF0) * 262144 + (b₁.toNat - 0x80) * 4096 + (b₂.toNat - 0x80) * 64 + (b₃.toNat - 0x80))) =
        [b, b₁, b₂, b₃] := by
  obtain ⟨hlow, hhigh, -, -, hF0, hF4⟩ := toNat_of_isSecond h₁
  have hb₂ := toNat_of_isContinuation h₂
  have hb₃ := toNat_of_isContinuation h₃
  rw [utf8EncodeChar_ofNat (.inr ⟨by omega, by omega⟩), if_neg (by omega), if_neg (by omega), if_neg (by omega),
    ofNat_eq (b := b) (by omega), ofNat_eq (b := b₁) (by omega), ofNat_eq (b := b₂) (by omega),
    ofNat_eq (b := b₃) (by omega)]

/-- A character that is read is encoded by the bytes it was read from. -/
theorem utf8EncodeChar_of_chunk {b : UInt8} {l : List UInt8} {c : Char} {n : Nat} (h : chunk b l = (some c, n)) :
    b :: l = String.utf8EncodeChar c ++ l.drop (n - 1) := by
  unfold chunk at h
  split at h
  · next hb =>
    obtain ⟨hc, rfl⟩ := Prod.mk.inj h
    rw [← Option.some.inj hc, utf8EncodeChar_one hb]
    rfl
  · split at h
    · next hb =>
      split at h
      · next h₁ =>
        obtain ⟨hc, rfl⟩ := Prod.mk.inj h
        obtain ⟨b₁, l, rfl, -⟩ := cons_of_isContinuation h₁
        rw [← Option.some.inj hc]
        exact congrArg (· ++ l) (utf8EncodeChar_two hb h₁).symm
      · cases h
    · split at h
      · next hb =>
        split at h
        · cases h
        · next h₁ =>
          split at h
          · cases h
          · next h₂ =>
            rw [Bool.not_eq_true, Bool.not_eq_false] at h₁ h₂
            obtain ⟨hc, rfl⟩ := Prod.mk.inj h
            obtain ⟨b₁, l, rfl, -⟩ := cons_of_isContinuation (isContinuation_of_isSecond h₁)
            obtain ⟨b₂, l, rfl, -⟩ := cons_of_isContinuation (l := l) h₂
            rw [← Option.some.inj hc]
            exact congrArg (· ++ l) (utf8EncodeChar_three hb h₁ h₂).symm
      · split at h
        · next hb =>
          split at h
          · cases h
          · next h₁ =>
            split at h
            · cases h
            · next h₂ =>
              split at h
              · cases h
              · next h₃ =>
                rw [Bool.not_eq_true, Bool.not_eq_false] at h₁ h₂ h₃
                obtain ⟨hc, rfl⟩ := Prod.mk.inj h
                obtain ⟨b₁, l, rfl, -⟩ := cons_of_isContinuation (isContinuation_of_isSecond h₁)
                obtain ⟨b₂, l, rfl, -⟩ := cons_of_isContinuation (l := l) h₂
                obtain ⟨b₃, l, rfl, -⟩ := cons_of_isContinuation (l := l) h₃
                rw [← Option.some.inj hc]
                exact congrArg (· ++ l) (utf8EncodeChar_four hb h₁ h₂ h₃).symm
        · cases h

theorem isContinuation_of_toNat {b : UInt8} (h : 0x80 ≤ b.toNat ∧ b.toNat ≤ 0xBF) : isContinuation b = true := by
  simpa [isContinuation] using h

theorem isSecond_of_toNat {b b' : UInt8} (h : 0x80 ≤ b'.toNat ∧ b'.toNat ≤ 0xBF) (hE0 : b.toNat = 0xE0 → 0xA0 ≤ b'.toNat)
    (hED : b.toNat = 0xED → b'.toNat ≤ 0x9F) (hF0 : b.toNat = 0xF0 → 0x90 ≤ b'.toNat)
    (hF4 : b.toNat = 0xF4 → b'.toNat ≤ 0x8F) : isSecond b b' = true := by
  simp only [isSecond, isContinuation_of_toNat h, Bool.true_and, Bool.and_eq_true]
  refine ⟨⟨⟨?_, ?_⟩, ?_⟩, ?_⟩ <;> split <;> first | rfl | exact decide_eq_true (by omega)

theorem chunk_one {b : UInt8} {l : List UInt8} (hb : b.toNat < 0x80) : chunk b l = (some (Char.ofNat b.toNat), 1) := by
  rw [chunk, if_pos hb]

theorem chunk_two {b b₁ : UInt8} {l : List UInt8} (hb : 0xC2 ≤ b.toNat ∧ b.toNat ≤ 0xDF) (h₁ : isContinuation b₁ = true) :
    chunk b (b₁ :: l) = (some (Char.ofNat ((b.toNat - 0xC0) * 64 + (b₁.toNat - 0x80))), 2) := by
  rw [chunk, if_neg (by omega), if_pos hb, safeGet_zero, if_pos h₁]

theorem chunk_three {b b₁ b₂ : UInt8} {l : List UInt8} (hb : 0xE0 ≤ b.toNat ∧ b.toNat ≤ 0xEF)
    (h₁ : isSecond b b₁ = true) (h₂ : isContinuation b₂ = true) :
    chunk b (b₁ :: b₂ :: l) =
      (some (Char.ofNat ((b.toNat - 0xE0) * 4096 + (b₁.toNat - 0x80) * 64 + (b₂.toNat - 0x80))), 3) := by
  rw [chunk, if_neg (by omega), if_neg (by omega), if_pos hb, safeGet_zero, if_neg (not_not.2 h₁), safeGet_succ,
    safeGet_zero, if_neg (not_not.2 h₂)]

theorem chunk_four {b b₁ b₂ b₃ : UInt8} {l : List UInt8} (hb : 0xF0 ≤ b.toNat ∧ b.toNat ≤ 0xF4)
    (h₁ : isSecond b b₁ = true) (h₂ : isContinuation b₂ = true) (h₃ : isContinuation b₃ = true) :
    chunk b (b₁ :: b₂ :: b₃ :: l) =
      (some (Char.ofNat ((b.toNat - 0xF0) * 262144 + (b₁.toNat - 0x80) * 4096 + (b₂.toNat - 0x80) * 64 +
        (b₃.toNat - 0x80))), 4) := by
  rw [chunk, if_neg (by omega), if_neg (by omega), if_neg (by omega), if_pos hb, safeGet_zero,
    if_neg (not_not.2 h₁), safeGet_succ, safeGet_zero, if_neg (not_not.2 h₂), safeGet_succ, safeGet_succ, safeGet_zero,
    if_neg (not_not.2 h₃)]

/-- A character is read from the bytes that encode it. -/
theorem chunk_utf8EncodeChar (c : Char) (rest : List UInt8) :
    ∃ b l, String.utf8EncodeChar c = b :: l ∧ chunk b (l ++ rest) = (some c, l.length + 1) := by
  have hvalid : c.val.toNat.isValidChar := c.valid
  have hc : ∀ {n m : Nat}, n = c.val.toNat → (some (Char.ofNat n), m) = (some c, m) :=
    fun h => by rw [h]; exact congrArg (some · , _) (Char.ofNat_toNat c)
  have hto : ∀ {n : Nat}, n < 256 → (UInt8.ofNat n).toNat = n := fun h => UInt8.toNat_ofNat_of_lt' h
  unfold String.utf8EncodeChar
  generalize c.val.toNat = v at hvalid hc ⊢
  unfold Nat.isValidChar at hvalid
  simp only
  split
  · next h =>
    have hb := hto (show v < 256 by omega)
    exact ⟨_, _, rfl, (chunk_one (by omega)).trans (hc (by omega))⟩
  · split
    · next h₀ h =>
      have hb := hto (show v / 64 % 0x20 + 0xC0 < 256 by omega)
      have hb₁ := hto (show v % 0x40 + 0x80 < 256 by omega)
      exact ⟨_, _, rfl, (chunk_two (by omega) (isContinuation_of_toNat (by omega))).trans (hc (by omega))⟩
    · split
      · next h₀ h₁ h =>
        have hb := hto (show v / 4096 % 0x10 + 0xE0 < 256 by omega)
        have hb₁ := hto (show v / 64 % 0x40 + 0x80 < 256 by omega)
        have hb₂ := hto (show v % 0x40 + 0x80 < 256 by omega)
        exact ⟨_, _, rfl, (chunk_three (by omega) (isSecond_of_toNat (by omega) (by omega) (by omega) (by omega) (by omega))
          (isContinuation_of_toNat (by omega))).trans (hc (by omega))⟩
      · next h₀ h₁ h =>
        have hb := hto (show v / 262144 % 0x08 + 0xF0 < 256 by omega)
        have hb₁ := hto (show v / 4096 % 0x40 + 0x80 < 256 by omega)
        have hb₂ := hto (show v / 64 % 0x40 + 0x80 < 256 by omega)
        have hb₃ := hto (show v % 0x40 + 0x80 < 256 by omega)
        exact ⟨_, _, rfl, (chunk_four (by omega) (isSecond_of_toNat (by omega) (by omega) (by omega) (by omega) (by omega))
          (isContinuation_of_toNat (by omega)) (isContinuation_of_toNat (by omega))).trans (hc (by omega))⟩

/-! ## Reading a text -/

theorem length_drop_le {l : List UInt8} {k : Nat} (n : Nat) (h : l.length ≤ k) : (l.drop n).length ≤ k := by
  rw [List.length_drop]
  omega

theorem lossyGo_eq (fuel fuel' : Nat) (l : List UInt8) (h : l.length ≤ fuel) (h' : l.length ≤ fuel') :
    lossyGo fuel l = lossyGo fuel' l := by
  induction fuel generalizing fuel' l with
  | zero =>
    rw [List.eq_nil_of_length_eq_zero (Nat.le_zero.1 h)]
    cases fuel' <;> rfl
  | succ fuel ih =>
    cases l with
    | nil => cases fuel' <;> rfl
    | cons b l =>
      obtain ⟨fuel', rfl⟩ : ∃ n, fuel' = n + 1 := ⟨fuel' - 1, by simp at h'; omega⟩
      simp only [List.length_cons, Nat.add_le_add_iff_right] at h h'
      exact congrArg _ (ih fuel' _ (length_drop_le _ h) (length_drop_le _ h'))

/-- A text is its first chunk and what follows it. -/
theorem lossy_cons (b : UInt8) (l : List UInt8) :
    lossy (b :: l) = (chunk b l).1.getD REPLACEMENT :: lossy (l.drop ((chunk b l).2 - 1)) :=
  congrArg _ (lossyGo_eq _ _ _ (length_drop_le _ (Nat.le_refl _)) (Nat.le_refl _))

theorem lossy_utf8EncodeChar (c : Char) (rest : List UInt8) :
    lossy (String.utf8EncodeChar c ++ rest) = c :: lossy rest := by
  obtain ⟨b, l, hc, hchunk⟩ := chunk_utf8EncodeChar c rest
  rw [hc, List.cons_append, lossy_cons, hchunk, Option.getD_some, Nat.add_sub_cancel, List.drop_left]

theorem lossy_encode (cs : List Char) : lossy (encode cs) = cs := by
  induction cs with
  | nil => rfl
  | cons c cs ih => rw [encode_cons, lossy_utf8EncodeChar, ih]

theorem encode_injective : Function.Injective encode := fun cs cs' h => by
  rw [← lossy_encode cs, h, lossy_encode]

/-- What is not well formed is a byte, or the start of a character that no continuation follows. -/
theorem drop_of_chunk_none {b : UInt8} {l : List UInt8} {n : Nat} (h : chunk b l = (none, n)) :
    n = 1 ∨ ((n = 2 ∨ n = 3) ∧ n ≤ l.length + 1 ∧ isContinuation (safeGet (l.drop (n - 1)) 0) = false) := by
  unfold chunk at h
  split at h
  · cases h
  · split at h
    · split at h
      · cases h
      · exact .inl (Prod.mk.inj h).2.symm
    · split at h
      · split at h
        · exact .inl (Prod.mk.inj h).2.symm
        · next h₁ =>
          split at h
          · next h₂ =>
            rw [Bool.not_eq_true, Bool.not_eq_false] at h₁
            rw [Bool.not_eq_true] at h₂
            obtain ⟨b₁, l, rfl, -⟩ := cons_of_isContinuation (isContinuation_of_isSecond h₁)
            obtain rfl := (Prod.mk.inj h).2
            exact .inr ⟨.inl rfl, by simp, h₂⟩
          · cases h
      · split at h
        · split at h
          · exact .inl (Prod.mk.inj h).2.symm
          · next h₁ =>
            rw [Bool.not_eq_true, Bool.not_eq_false] at h₁
            obtain ⟨b₁, l, rfl, -⟩ := cons_of_isContinuation (isContinuation_of_isSecond h₁)
            split at h
            · next h₂ =>
              rw [Bool.not_eq_true] at h₂
              obtain rfl := (Prod.mk.inj h).2
              exact .inr ⟨.inl rfl, by simp, h₂⟩
            · next h₂ =>
              rw [Bool.not_eq_true, Bool.not_eq_false] at h₂
              obtain ⟨b₂, l, rfl, -⟩ := cons_of_isContinuation (l := l) h₂
              split at h
              · next h₃ =>
                rw [Bool.not_eq_true] at h₃
                obtain rfl := (Prod.mk.inj h).2
                exact .inr ⟨.inr rfl, by simp, h₃⟩
              · cases h
        · exact .inl (Prod.mk.inj h).2.symm

theorem eq_encode_of_lossy (n : Nat) (l : List UInt8) (hn : l.length ≤ n) (h : REPLACEMENT ∉ lossy l) :
    encode (lossy l) = l := by
  induction n generalizing l with
  | zero => rw [List.eq_nil_of_length_eq_zero (Nat.le_zero.1 hn)]; rfl
  | succ n ih =>
    cases l with
    | nil => rfl
    | cons b l =>
      rw [lossy_cons, List.mem_cons, not_or] at h
      rcases hchunk : chunk b l with ⟨_ | c, m⟩ <;> rw [hchunk] at h
      · exact absurd rfl h.1
      · have hrest := ih _ (length_drop_le _ (Nat.le_of_succ_le_succ hn)) h.2
        rw [lossy_cons, hchunk, Option.getD_some, encode_cons, hrest]
        exact (utf8EncodeChar_of_chunk hchunk).symm

/-- Bytes that are read without a replacement are the bytes of what is read. -/
theorem encode_lossy {l : List UInt8} (h : REPLACEMENT ∉ lossy l) : encode (lossy l) = l :=
  eq_encode_of_lossy _ l (Nat.le_refl _) h

/-! ## What is replaced is lost -/

/-- Two byte strings of one length are read as one replacement, before what does not continue them. -/
theorem replaced_alike {n : Nat} {rest : List UInt8}
    (h : n = 1 ∨ ((n = 2 ∨ n = 3) ∧ isContinuation (safeGet rest 0) = false)) :
    ∃ p q : List UInt8, p ≠ q ∧ p.length = n ∧ q.length = n ∧
      lossy (p ++ rest) = REPLACEMENT :: lossy rest ∧ lossy (q ++ rest) = REPLACEMENT :: lossy rest := by
  rcases h with rfl | ⟨rfl | rfl, hrest⟩
  · exact ⟨[0xFF], [0xFE], by decide, rfl, rfl, lossy_cons .., lossy_cons ..⟩
  · have hchunk : ∀ b : UInt8, 0xE1 ≤ b.toNat ∧ b.toNat ≤ 0xE2 → chunk b (0x80 :: rest) = (none, 2) := fun b hb => by
      have hsecond : isSecond b 0x80 = true := isSecond_of_toNat (by decide) (by omega) (by omega) (by omega) (by omega)
      rw [chunk, if_neg (by omega), if_neg (by omega), if_pos (by omega), safeGet_zero, if_neg (not_not.2 hsecond),
        safeGet_succ, if_pos (by simp [hrest])]
    refine ⟨[0xE1, 0x80], [0xE2, 0x80], by decide, rfl, rfl, ?_, ?_⟩ <;>
      (rw [List.cons_append, lossy_cons, List.cons_append, List.nil_append, hchunk _ (by decide)]; rfl)
  · have hchunk : ∀ b : UInt8, 0xF1 ≤ b.toNat ∧ b.toNat ≤ 0xF2 → chunk b (0x80 :: 0x80 :: rest) = (none, 3) := fun b hb => by
      have hsecond : isSecond b 0x80 = true := isSecond_of_toNat (by decide) (by omega) (by omega) (by omega) (by omega)
      rw [chunk, if_neg (by omega), if_neg (by omega), if_neg (by omega), if_pos (by omega), safeGet_zero,
        if_neg (not_not.2 hsecond), safeGet_succ, safeGet_zero, if_neg (by decide), safeGet_succ, safeGet_succ,
        if_pos (by simp [hrest])]
    refine ⟨[0xF1, 0x80, 0x80], [0xF2, 0x80, 0x80], by decide, rfl, rfl, ?_, ?_⟩ <;>
      (rw [List.cons_append, lossy_cons, List.cons_append, List.cons_append, List.nil_append, hchunk _ (by decide)]; rfl)

theorem read_alike_of_replaced {s rest : List UInt8}
    (h : s.length = 1 ∨ ((s.length = 2 ∨ s.length = 3) ∧ isContinuation (safeGet rest 0) = false))
    (hs : lossy (s ++ rest) = REPLACEMENT :: lossy rest) :
    ∃ l', l' ≠ s ++ rest ∧ l'.length = (s ++ rest).length ∧ lossy l' = lossy (s ++ rest) := by
  obtain ⟨p, q, hpq, hp, hq, hlossyp, hlossyq⟩ := replaced_alike h
  by_cases hsp : p = s
  · refine ⟨q ++ rest, fun heq => hpq ?_, by simp [hq], hlossyq.trans hs.symm⟩
    rw [hsp, List.append_cancel_right heq]
  · exact ⟨p ++ rest, fun heq => hsp (List.append_cancel_right heq), by simp [hp], hlossyp.trans hs.symm⟩

theorem read_alike_of_mem (n : Nat) (l : List UInt8) (hn : l.length ≤ n) (h : REPLACEMENT ∈ lossy l) :
    ∃ l', l' ≠ l ∧ l'.length = l.length ∧ lossy l' = lossy l := by
  induction n generalizing l with
  | zero =>
    rw [List.eq_nil_of_length_eq_zero (Nat.le_zero.1 hn)] at h
    exact absurd h (List.not_mem_nil)
  | succ n ih =>
    cases l with
    | nil => exact absurd h (List.not_mem_nil)
    | cons b l =>
      rcases hchunk : chunk b l with ⟨_ | c, m⟩
      · -- a chunk that is not well formed is replaced
        have hdrop := drop_of_chunk_none hchunk
        have hm : 1 ≤ m ∧ m - 1 ≤ l.length := by omega
        have hsplit : b :: l = (b :: l.take (m - 1)) ++ l.drop (m - 1) := by
          rw [List.cons_append, List.take_append_drop]
        have hlength : (b :: l.take (m - 1)).length = m := by
          rw [List.length_cons, List.length_take]
          omega
        rw [hsplit]
        refine read_alike_of_replaced ?_ ?_
        · rw [hlength]
          exact hdrop.imp_right fun ⟨hm, _, hrest⟩ => ⟨hm, hrest⟩
        · rw [← hsplit, lossy_cons, hchunk]
          rfl
      · rw [utf8EncodeChar_of_chunk hchunk]
        generalize hrest : l.drop (m - 1) = rest
        rw [lossy_cons, hchunk, Option.getD_some, hrest, List.mem_cons] at h
        by_cases hc : c = REPLACEMENT
        · subst hc
          cases hcontinuation : isContinuation (safeGet rest 0) with
          | false => exact read_alike_of_replaced (.inr ⟨.inr rfl, hcontinuation⟩) (lossy_utf8EncodeChar _ _)
          | true =>
            -- a continuation that continues nothing is replaced as well
            obtain ⟨b', rest, rfl, hb'⟩ := cons_of_isContinuation hcontinuation
            have hstray : lossy ([b'] ++ rest) = REPLACEMENT :: lossy rest := by
              have hb' := toNat_of_isContinuation hb'
              rw [List.cons_append, lossy_cons, chunk, if_neg (by omega), if_neg (by omega), if_neg (by omega),
                if_neg (by omega)]
              rfl
            obtain ⟨l', hne, hlength, hlossy⟩ := read_alike_of_replaced (.inl rfl) hstray
            refine ⟨String.utf8EncodeChar REPLACEMENT ++ l', fun heq => hne (List.append_cancel_left heq), ?_, ?_⟩
            · rw [List.length_append, hlength, ← List.length_append, List.singleton_append]
            · rw [lossy_utf8EncodeChar, hlossy, lossy_utf8EncodeChar, List.singleton_append]
        · have hmem : REPLACEMENT ∈ lossy rest := h.resolve_left fun heq => hc heq.symm
          have hlength : rest.length ≤ n := by
            rw [← hrest]
            exact length_drop_le _ (Nat.le_of_succ_le_succ hn)
          obtain ⟨l', hne, hlength, hlossy⟩ := ih rest hlength hmem
          refine ⟨String.utf8EncodeChar c ++ l', fun heq => hne (List.append_cancel_left heq), by simp [hlength], ?_⟩
          rw [lossy_utf8EncodeChar, hlossy, lossy_utf8EncodeChar]

/-- **Bytes that are read with a replacement are read like others of their length.** -/
theorem exists_read_alike {l : List UInt8} (h : REPLACEMENT ∈ lossy l) :
    ∃ l', l' ≠ l ∧ l'.length = l.length ∧ lossy l' = lossy l :=
  read_alike_of_mem _ l (Nat.le_refl _) h

end Lib.Utf8
