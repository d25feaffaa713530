/-
Base32 in the clients: what the reader makes of a text, and that it reads back what is written.
-/
import Bittery.Client.Totp

namespace Bittery.Totp

open Lib

variable {u : Ecma.UpperCase}

/-! ## The alphabet -/

theorem idxOf_lt {c : Char} (h : c ∈ BASE32_ALPHABET) : BASE32_ALPHABET.idxOf c < 32 := List.idxOf_lt_length_of_mem h

theorem idxOf_digit {v : Nat} (h : v < 32) : BASE32_ALPHABET.idxOf (digit v) = v := by
  have hall : ∀ v < 32, BASE32_ALPHABET.idxOf (digit v) = v := by decide
  exact hall v h

theorem digit_mem {v : Nat} (h : v < 32) : digit v ∈ BASE32_ALPHABET :=
  List.idxOf_lt_length_iff.1 (Nat.lt_of_le_of_lt (Nat.le_of_eq (idxOf_digit h)) h)

/-! ## Reading -/

namespace Base32Loop

/-- What the loop holds after some digits, in an output with room for more. -/
structure Read (room : Nat) (values : List Nat) (s : Base32Loop) : Prop where
  output : s.output = Base32.decode values ++ List.replicate (room - 5 * values.length / 8) 0
  outputIndex : s.outputIndex = 5 * values.length / 8
  bitsLeft : s.bitsLeft = 5 * values.length % 8
  buffer : ShiftRegister.Holds s.buffer (Base32.number values)

theorem Read.step {room : Nat} {values : List Nat} {s : Base32Loop} (h : Read room values s) {c : Char}
    (hc : c ∈ BASE32_ALPHABET) (hroom : 5 * (values.length + 1) / 8 ≤ room) :
    Read room (values ++ [BASE32_ALPHABET.idxOf c]) (s.step c) := by
  have hv := idxOf_lt hc
  generalize hvalue : BASE32_ALPHABET.idxOf c = v at hv
  have hbuffer : ShiftRegister.Holds (s.buffer <<< 5 ||| BitVec.ofNat 32 v) (Base32.number (values ++ [v])) := by
    rw [Base32.number_concat]
    exact h.buffer.shiftIn (by decide) hv
  have hlength : (values ++ [v]).length = values.length + 1 := by simp
  rw [Base32Loop.step, hvalue]
  split
  · next hbits =>
    -- the digit completes a byte
    rw [h.bitsLeft] at hbits
    have hbyte := hbuffer.bits (k := 5 * values.length % 8 + 5 - 8) (w := 8) (by omega)
    refine ⟨?_, ?_, ?_, hbuffer⟩
    · have hroom' : room - 5 * values.length / 8 = (room - 5 * (values ++ [v]).length / 8) + 1 := by
        rw [hlength]
        omega
      have hread : UInt8.ofNat ((s.buffer <<< 5 ||| BitVec.ofNat 32 v).sshiftRight (5 * values.length % 8 + 5 - 8) &&&
          0xff#32).toNat = UInt8.ofNat (Base32.number (values ++ [v]) / 2 ^ (5 * values.length % 8 + 5 - 8)) := by
        rw [← UInt8.toNat_inj, UInt8.toNat_ofNat', UInt8.toNat_ofNat']
        exact (congrArg (· % 2 ^ 8) hbyte).trans (Nat.mod_mod _ _)
      simp only [h.output, h.outputIndex, h.bitsLeft]
      rw [List.set_append_right _ _ (by rw [Base32.length_decode]), Base32.length_decode, Nat.sub_self, hroom',
        List.replicate_succ, List.set_cons_zero, Base32.decode_concat_of_ge hv hbits, List.append_assoc, hread]
      rfl
    · simp only [h.outputIndex, hlength]
      omega
    · simp only [h.bitsLeft, hlength]
      omega
  · next hbits =>
    -- the bits wait for more
    rw [h.bitsLeft] at hbits
    refine ⟨?_, ?_, ?_, hbuffer⟩
    · simp only [h.output, hlength]
      rw [Base32.decode_concat_of_lt hv (by omega), show 5 * (values.length + 1) / 8 = 5 * values.length / 8 by omega]
    · simp only [h.outputIndex, hlength]
      omega
    · simp only [h.bitsLeft, hlength]
      omega

theorem Read.run {room : Nat} {values : List Nat} {s : Base32Loop} (h : Read room values s) {text : Text}
    (htext : ∀ c ∈ text, c ∈ BASE32_ALPHABET) (hroom : 5 * (values.length + text.length) / 8 ≤ room) :
    Read room (values ++ text.map BASE32_ALPHABET.idxOf) (text.foldl Base32Loop.step s) := by
  induction text generalizing values s with
  | nil => simpa using h
  | cons c text ih =>
    obtain ⟨hc, hrest⟩ := List.forall_mem_cons.1 htext
    rw [List.length_cons] at hroom
    have hstep := ih (h.step hc (by omega)) hrest (by simp only [List.length_append, List.length_singleton]; omega)
    rwa [List.append_assoc] at hstep

end Base32Loop

/-- A text of digits is read as its bytes. -/
theorem base32Decode_ok {input : Text} (h : ∀ c ∈ noPadding u input, c ∈ BASE32_ALPHABET) :
    base32Decode u input = .ok (Base32.decode ((noPadding u input).map BASE32_ALPHABET.idxOf)) := by
  by_cases hempty : noPadding u input = []
  · simp [base32Decode, hempty]
  · have hfind : (noPadding u input).find? (fun char => !BASE32_ALPHABET.contains char) = none :=
      List.find?_eq_none.2 fun c hc => by simpa using h c hc
    have hstart : Base32Loop.Read ((noPadding u input).length * 5 / 8) []
        { output := List.replicate ((noPadding u input).length * 5 / 8) 0, buffer := 0, bitsLeft := 0,
          outputIndex := 0 } := ⟨by simp, rfl, rfl, ShiftRegister.Holds.zero⟩
    have hrun := hstart.run h (by rw [List.length_nil]; omega)
    simp only [base32Decode, if_neg hempty, hfind, hrun.output, List.nil_append, List.length_map]
    rw [show (noPadding u input).length * 5 / 8 - 5 * (noPadding u input).length / 8 = 0 by omega, List.replicate_zero,
      List.append_nil]

theorem base32Decode_error {input : Text} {c : Char} (hc : c ∈ noPadding u input) (h : c ∉ BASE32_ALPHABET) :
    ∃ e, base32Decode u input = .error e := by
  have hfind : ((noPadding u input).find? (fun char => !BASE32_ALPHABET.contains char)).isSome = true :=
    List.find?_isSome.2 ⟨c, hc, by simpa using h⟩
  obtain ⟨char, hchar⟩ := Option.isSome_iff_exists.1 hfind
  refine ⟨"Invalid base32 character: ".toList ++ [char], ?_⟩
  simp only [base32Decode, if_neg (List.ne_nil_of_mem hc), hchar]

/-! ## Writing -/

theorem emit_of_lt {buffer : BitVec 32} {bitsLeft : Nat} (h : bitsLeft < 5) : emit buffer bitsLeft = ([], bitsLeft) := by
  match bitsLeft, h with
  | 0, _ | 1, _ | 2, _ | 3, _ | 4, _ => rfl

/-- The digits that are emitted are those of the bits in the buffer. -/
theorem emit_spec {buffer : BitVec 32} {n : Nat} (h : ShiftRegister.Holds buffer n) {values : List Nat} {bitsLeft : Nat}
    (hvalues : Base32.number values = n / 2 ^ bitsLeft) (hbits : bitsLeft ≤ 32) :
    ∃ digits left, emit buffer bitsLeft = (digits.map digit, left) ∧ (∀ v ∈ digits, v < 32) ∧ left < 5 ∧
      bitsLeft = 5 * digits.length + left ∧ Base32.number (values ++ digits) = n / 2 ^ left := by
  induction bitsLeft using Nat.strongRecOn generalizing values with
  | _ bitsLeft ih =>
    rcases Nat.lt_or_ge bitsLeft 5 with hsmall | hlarge
    · exact ⟨[], bitsLeft, emit_of_lt hsmall, fun _ h => (nomatch h), hsmall, by simp, by rwa [List.append_nil]⟩
    · obtain ⟨rest, rfl⟩ := Nat.exists_eq_add_of_le' hlarge
      have hdigit : (buffer.sshiftRight rest &&& 0x1f#32).toNat = n / 2 ^ rest % 32 := h.bits hbits
      have hnumber : Base32.number (values ++ [n / 2 ^ rest % 32]) = n / 2 ^ rest := by
        rw [Base32.number_concat, hvalues, Nat.pow_add, ← Nat.div_div_eq_div_mul, Nat.mul_comm]
        exact Nat.div_add_mod (n / 2 ^ rest) 32
      obtain ⟨digits, left, hemit, hdigits, hleft, hcount, hall⟩ := ih rest (by omega) hnumber (by omega)
      refine ⟨n / 2 ^ rest % 32 :: digits, left, ?_, ?_, hleft, ?_, ?_⟩
      · rw [emit, hemit, hdigit]
        rfl
      · exact List.forall_mem_cons.2 ⟨Nat.mod_lt _ (by decide), hdigits⟩
      · rw [List.length_cons]
        omega
      · rwa [List.append_assoc] at hall

namespace EncodeLoop

/-- What the loop holds after some bytes: the digits of all bits but the last ones. -/
structure Written (bytes : List UInt8) (values : List Nat) (s : EncodeLoop) : Prop where
  result : s.result = values.map digit
  lt : ∀ v ∈ values, v < 32
  bitsLeft : s.bitsLeft < 5
  count : 8 * bytes.length = 5 * values.length + s.bitsLeft
  number : Base32.number values = Base32.ofBytes bytes / 2 ^ s.bitsLeft
  buffer : ShiftRegister.Holds s.buffer (Base32.ofBytes bytes)

theorem Written.step {bytes : List UInt8} {values : List Nat} {s : EncodeLoop} (h : Written bytes values s) (b : UInt8) :
    ∃ values', Written (bytes ++ [b]) values' (s.step b) := by
  have hb := b.toNat_lt
  have hbits := h.bitsLeft
  have hbuffer : ShiftRegister.Holds (s.buffer <<< 8 ||| BitVec.ofNat 32 b.toNat) (Base32.ofBytes (bytes ++ [b])) := by
    rw [Base32.ofBytes_concat]
    exact h.buffer.shiftIn (by decide) hb
  have hvalues : Base32.number values = Base32.ofBytes (bytes ++ [b]) / 2 ^ (s.bitsLeft + 8) := by
    rw [h.number, Base32.ofBytes_concat, Nat.pow_add', ← Nat.div_div_eq_div_mul]
    congr 1
    omega
  obtain ⟨digits, left, hemit, hdigits, hleft, hcount, hnumber⟩ := emit_spec hbuffer hvalues (by omega)
  have hlength := h.count
  rw [EncodeLoop.step, hemit]
  refine ⟨values ++ digits, ?_, ?_, hleft, ?_, hnumber, hbuffer⟩
  · simp only [h.result, List.map_append]
  · intro v hv
    rcases List.mem_append.1 hv with hv | hv
    · exact h.lt v hv
    · exact hdigits v hv
  · simp only [List.length_append, List.length_singleton]
    omega

theorem Written.run {bytes : List UInt8} {values : List Nat} {s : EncodeLoop} (h : Written bytes values s)
    (rest : List UInt8) : ∃ values', Written (bytes ++ rest) values' (rest.foldl EncodeLoop.step s) := by
  induction rest generalizing bytes values s with
  | nil => exact ⟨values, by rwa [List.append_nil]⟩
  | cons b rest ih =>
    obtain ⟨values', hstep⟩ := h.step b
    have hrest := ih hstep
    rwa [List.append_assoc] at hrest

end EncodeLoop

/-- The digits of a text of bytes, with zeros after the last bits. -/
theorem base32Encode_spec (bytes : List UInt8) :
    ∃ values, base32Encode bytes = values.map digit ∧ (∀ v ∈ values, v < 32) ∧ Base32.decode values = bytes := by
  have hstart : EncodeLoop.Written [] [] { result := [], buffer := 0, bitsLeft := 0 } :=
    ⟨rfl, fun _ h => (nomatch h), by decide, rfl, rfl, ShiftRegister.Holds.zero⟩
  obtain ⟨values, h⟩ := hstart.run bytes
  rw [List.nil_append] at h
  unfold base32Encode
  generalize bytes.foldl EncodeLoop.step { result := [], buffer := 0, bitsLeft := 0 } = s at h
  have hbits := h.bitsLeft
  have hcount := h.count
  dsimp only
  split
  · next hleft =>
    -- the last bits make a digit with zeros after them
    have hlast := (h.buffer.shiftIn (k := 5 - s.bitsLeft) (v := 0) (by omega) (Nat.two_pow_pos _)).bits
      (k := 0) (w := 5) (by decide)
    generalize hv : (s.buffer <<< (5 - s.bitsLeft) &&& 0x1f#32).toNat = v
    have hvalue : v = Base32.ofBytes bytes * 2 ^ (5 - s.bitsLeft) % 32 := by
      rw [← hv]
      simpa [ShiftRegister.bits, ShiftRegister.shiftIn] using hlast
    have hlt : v < 32 := by
      rw [hvalue]
      exact Nat.mod_lt _ (by decide)
    have hnumber : Base32.number (values ++ [v]) = Base32.ofBytes bytes * 2 ^ (5 - s.bitsLeft) := by
      have hpow : 2 ^ 5 = 2 ^ s.bitsLeft * 2 ^ (5 - s.bitsLeft) := by rw [← Nat.pow_add, Nat.add_sub_cancel' (by omega)]
      have hquot : Base32.ofBytes bytes / 2 ^ s.bitsLeft = Base32.ofBytes bytes * 2 ^ (5 - s.bitsLeft) / 32 := by
        rw [show 32 = 2 ^ 5 from rfl, hpow, Nat.mul_div_mul_right _ _ (Nat.two_pow_pos _)]
      rw [Base32.number_concat, h.number, hquot, hvalue, Nat.mul_comm]
      exact Nat.div_add_mod _ 32
    refine ⟨values ++ [v], ?_, ?_, ?_⟩
    · rw [h.result, List.map_append]
      rfl
    · intro v' hv'
      rcases List.mem_append.1 hv' with hv' | hv'
      · exact h.lt v' hv'
      · exact List.mem_singleton.1 hv' ▸ hlt
    · have hlength : 5 * (values ++ [v]).length = 8 * bytes.length + (5 - s.bitsLeft) := by
        rw [List.length_append, List.length_singleton]
        omega
      rw [Base32.decode, hlength, hnumber, show (8 * bytes.length + (5 - s.bitsLeft)) / 8 = bytes.length by omega,
        show (8 * bytes.length + (5 - s.bitsLeft)) % 8 = 5 - s.bitsLeft by omega,
        Nat.mul_div_cancel _ (Nat.two_pow_pos _), Base32.beBytes_ofBytes]
  · next hleft =>
    have hzero : s.bitsLeft = 0 := by omega
    have hlength : 5 * values.length = 8 * bytes.length := by omega
    refine ⟨values, h.result, h.lt, ?_⟩
    rw [Base32.decode, hlength, h.number, hzero, Nat.mul_div_cancel_left _ (by decide), Nat.mul_mod_right, Nat.pow_zero,
      Nat.div_one, Nat.div_one, Base32.beBytes_ofBytes]

/-! ## Reading back -/

theorem ascii_of_mem {c : Char} (h : c ∈ BASE32_ALPHABET) :
    c.toNat < 128 ∧ c.toUpper = c ∧ c ≠ '=' ∧ Ecma.isSpace c = false := by
  have hall : (BASE32_ALPHABET.all fun c =>
      decide (c.toNat < 128) && c.toUpper == c && c != '=' && !Ecma.isSpace c) = true := by decide
  have hc := List.all_eq_true.1 hall c h
  simp only [Bool.and_eq_true, decide_eq_true_eq, beq_iff_eq, bne_iff_ne, ne_eq, Bool.not_eq_true'] at hc
  exact ⟨hc.1.1.1, hc.1.1.2, hc.1.2, hc.2⟩

/-- A text of digits is not changed before it is read. -/
theorem noPadding_of_digits {text : Text} (h : ∀ c ∈ text, c ∈ BASE32_ALPHABET) : noPadding u text = text := by
  have hkept : text.filter (fun c => !Ecma.isSpace c) = text :=
    List.filter_eq_self.2 fun c hc => by rw [(ascii_of_mem (h c hc)).2.2.2]; rfl
  have hupper : Ecma.toUpperCase u text = text := by
    rw [Ecma.toUpperCase_of_ascii fun c hc => (ascii_of_mem (h c hc)).1]
    exact (List.map_congr_left fun c hc => (ascii_of_mem (h c hc)).2.1).trans (List.map_id _)
  rw [noPadding, hkept, hupper, List.rdropWhile_eq_self_iff]
  intro hne
  have hlast := (ascii_of_mem (h _ (List.getLast_mem hne))).2.2.1
  simpa using hlast

/-- **What is written is read back.** -/
theorem base32Decode_base32Encode (bytes : List UInt8) : base32Decode u (base32Encode bytes) = .ok bytes := by
  obtain ⟨values, hencode, hvalues, hdecode⟩ := base32Encode_spec bytes
  have hdigits : ∀ c ∈ base32Encode bytes, c ∈ BASE32_ALPHABET := fun c hc => by
    rw [hencode, List.mem_map] at hc
    obtain ⟨v, hv, rfl⟩ := hc
    exact digit_mem (hvalues v hv)
  have hindex : (values.map digit).map BASE32_ALPHABET.idxOf = values := by
    rw [List.map_map]
    exact (List.map_congr_left fun v hv => idxOf_digit (hvalues v hv)).trans (List.map_id _)
  have hsame : noPadding u (base32Encode bytes) = base32Encode bytes := noPadding_of_digits hdigits
  rw [base32Decode_ok (hsame.symm ▸ hdigits), hsame, hencode, hindex, hdecode]

end Bittery.Totp
