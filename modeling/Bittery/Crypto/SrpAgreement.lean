/-
The exchange of SRP-6a: client and server agree, whatever the hash functions are.

Every number that is hashed is written in a whole number of bytes (`SrpInt.Whole`): those of
the group in its width, digests in the output size, salts in their own. Such a number reads
back from its text, and its bytes determine it, so both sides hash the same bytes and the
proofs of each are accepted by the other.
-/
import Bittery.Crypto.Srp
import Bittery.Lib.Except

namespace Bittery.Srp6a

open Lib

/-! ## Numbers written in whole bytes -/

namespace SrpInt

/-- A number that `w` digits hold, which are those of whole bytes. -/
structure Whole (w : Nat) (i : SrpInt) : Prop where
  hexLength : i.hexLength = some w
  pos : 0 < w
  even : Even w
  lt : i.value < 16 ^ w

/-- The bytes that the number is hashed as. -/
def bytes (i : SrpInt) : List UInt8 := (Hex.decode (Hex.padded (i.hexLength.getD 0) i.value)).getD []

/-- The text that the number is sent as. -/
def text (i : SrpInt) : String := String.ofList (Hex.padded (i.hexLength.getD 0) i.value)

variable {w : Nat} {i j modulus : SrpInt}

theorem not_isWhitespace_of_isHexDigit {c : Char} (h : Hex.isHexDigit c = true) : isWhitespace c = false := by
  have hle : ∀ {a b : Char}, a ≤ b → a.toNat ≤ b.toNat := fun h => h
  have hrange : 48 ≤ c.toNat ∧ c.toNat ≤ 57 ∨ 97 ≤ c.toNat ∧ c.toNat ≤ 102 ∨ 65 ≤ c.toNat ∧ c.toNat ≤ 70 := by
    simp only [Hex.isHexDigit, Char.isDigit, Bool.or_eq_true, Bool.and_eq_true, decide_eq_true_eq] at h
    rcases h with (h | h) | h
    · exact .inl ⟨hle h.1, hle h.2⟩
    · exact .inr (.inl ⟨hle h.1, hle h.2⟩)
    · exact .inr (.inr ⟨hle h.1, hle h.2⟩)
  simp only [isWhitespace, Bool.or_eq_false_iff, Bool.and_eq_false_iff, decide_eq_false_iff_not]
  omega

/-- Digits are read as they are. -/
theorem fromHex_ofList {l : List Char} (hl : ∀ c ∈ l, Hex.isHexDigit c = true) (hne : l ≠ []) :
    fromHex (String.ofList l) = .ok { value := Hex.value l, hexLength := some l.length } := by
  have hclean : l.filter (fun c => !isWhitespace c) = l :=
    List.filter_eq_self.2 fun c hc => by simp [not_isWhitespace_of_isHexDigit (hl c hc)]
  have hall : l.all Hex.isHexDigit = true := List.all_eq_true.2 hl
  simp [fromHex, String.toList_ofList, hclean, hne, hall]

theorem Whole.toHex (h : i.Whole w) : i.toHex = .ok i.text := by
  simp [SrpInt.toHex, text, h.hexLength]

/-- **A number reads back from its text, with its width.** -/
theorem Whole.fromHex (h : i.Whole w) : SrpInt.fromHex i.text = .ok i := by
  rw [text, h.hexLength, Option.getD_some, fromHex_ofList (Hex.isHexDigit_padded w i.value)
    (Hex.padded_ne_nil w i.value), Hex.value_padded, Hex.length_padded h.pos h.lt, ← h.hexLength]

theorem Whole.decode (h : i.Whole w) : Hex.decode (Hex.padded w i.value) = some i.bytes ∧
    i.bytes.length * 2 = w ∧ Hex.ofBytes i.bytes = i.value := by
  have hlen := Hex.length_padded h.pos h.lt
  obtain ⟨bytes, hd, hl, hv⟩ := Hex.decode_of_even _ (Hex.isHexDigit_padded w i.value) (hlen.symm ▸ h.even :)
  have hbytes : i.bytes = bytes := by simp [SrpInt.bytes, h.hexLength, hd]
  rw [hbytes]
  exact ⟨hd, hl.trans hlen, hv.trans (Hex.value_padded w i.value)⟩

theorem Whole.eq_of_bytes (hi : i.Whole w) (hj : j.Whole w) (h : i.bytes = j.bytes) : i = j := by
  have hv : i.value = j.value := by rw [← hi.decode.2.2, h, hj.decode.2.2]
  have hl : i.hexLength = j.hexLength := hi.hexLength.trans hj.hexLength.symm
  cases i
  cases j
  simp_all

theorem Whole.pad (h : i.Whole w) : i.pad w = .ok i := by
  rw [SrpInt.pad, if_neg (by simp [h.hexLength]), ← h.hexLength]

theorem Whole.of_lt (h : modulus.Whole w) (hl : i.hexLength = modulus.hexLength) (hv : i.value < modulus.value) :
    i.Whole w :=
  ⟨hl.trans h.hexLength, h.pos, h.even, Nat.lt_trans hv h.lt⟩

theorem Whole.modulo (h : modulus.Whole w) (hm : 0 < modulus.value) : (i.modulo modulus).Whole w :=
  h.of_lt rfl (Nat.mod_lt _ hm)

theorem Whole.modPow (h : modulus.Whole w) (hm : 0 < modulus.value) : (i.modPow j modulus).Whole w :=
  h.of_lt rfl (by rw [SrpInt.modPow, Modular.powMod_eq]; exact Nat.mod_lt _ hm)

theorem Whole.xor (hi : i.Whole w) (hj : j.Whole w) : (i.xor j).Whole w := by
  have hpow : 16 ^ w = 2 ^ (4 * w) := by rw [Nat.pow_mul]
  have hlt := Nat.xor_lt_two_pow (hpow ▸ hi.lt) (hpow ▸ hj.lt)
  exact ⟨hi.hexLength, hi.pos, hi.even, by rw [hpow]; exact hlt⟩

theorem whole_pair {w' : Nat} (hi : i.Whole w) (hj : j.Whole w') : ∀ v ∈ [i, j], ∃ w, v.Whole w := by
  intro v hv
  simp only [List.mem_cons, List.not_mem_nil, or_false] at hv
  rcases hv with rfl | rfl
  · exact ⟨_, hi⟩
  · exact ⟨_, hj⟩

theorem whole_ofBytes {l : List UInt8} (hl : 0 < l.length) :
    Whole (l.length * 2) { value := Hex.ofBytes l, hexLength := some (l.length * 2) } := by
  refine ⟨rfl, by omega, ⟨l.length, by omega⟩, ?_⟩
  have := Hex.ofBytes_lt l
  rwa [show (256 : Nat) = 16 ^ 2 from rfl, ← Nat.pow_mul, Nat.mul_comm] at this

theorem whole_random {n : Nat} (hn : 0 < n) (buffer : Vector UInt8 n) : (random buffer).Whole (n * 2) := by
  have hlen : buffer.toList.length = n := buffer.length_toList
  have := whole_ofBytes (l := buffer.toList) (by omega)
  rwa [hlen] at this

end SrpInt

/-! ## The groups -/

namespace PrimeGroup

theorem modulus_pos (group : PrimeGroup) : 0 < (getParams group).n := by
  cases group <;> decide +kernel

theorem modulus_lt (group : PrimeGroup) : (getParams group).n < 16 ^ group.hexLength := by
  cases group <;> decide +kernel

theorem generator_lt (group : PrimeGroup) : (getParams group).g < 16 ^ group.hexLength := by
  cases group <;> decide +kernel

theorem hexLength_pos (group : PrimeGroup) : 0 < group.hexLength := by
  cases group <;> decide

theorem hexLength_even (group : PrimeGroup) : Even group.hexLength :=
  ⟨group.byteSize, by rw [hexLength]; omega⟩

end PrimeGroup

theorem HashAlgorithm.outputSize_pos (h : HashAlgorithm) : 0 < h.outputSize := by
  cases h <;> decide

/-! ## What both sides compute -/

namespace SrpParty

variable (P : Primitives) (h : HashAlgorithm) (group : PrimeGroup)

theorem n_pos : 0 < (SrpParty.new h group).n.value := group.modulus_pos

theorem whole_n : (SrpParty.new h group).n.Whole group.hexLength :=
  ⟨rfl, group.hexLength_pos, group.hexLength_even, group.modulus_lt⟩

theorem whole_g : (SrpParty.new h group).g.Whole group.hexLength :=
  ⟨rfl, group.hexLength_pos, group.hexLength_even, group.generator_lt⟩

theorem whole_modPow (i j : SrpInt) : (i.modPow j (SrpParty.new h group).n).Whole group.hexLength :=
  (whole_n h group).modPow (n_pos h group)

theorem whole_modulo (i : SrpInt) : (i.modulo (SrpParty.new h group).n).Whole group.hexLength :=
  (whole_n h group).modulo (n_pos h group)

theorem hashedBytes_eq {w : Nat} {i : SrpInt} (hi : i.Whole w) : hashedBytes i = .ok i.bytes := by
  have htext : i.text.toList = Hex.padded w i.value := by
    rw [SrpInt.text, hi.hexLength, Option.getD_some, String.toList_ofList]
  rw [hashedBytes, hi.toHex]
  simp only [bind, Except.bind, htext, hi.decode.1]
  rfl

theorem combined_eq (values : List SrpInt) : (∀ v ∈ values, ∃ w, v.Whole w) →
    combined values = .ok (values.flatMap SrpInt.bytes) := by
  induction values with
  | nil => exact fun _ => rfl
  | cons v values ih =>
    intro hv
    obtain ⟨w, hw⟩ := hv v (by simp)
    rw [combined, hashedBytes_eq hw, ih fun v' hv' => hv v' (by simp [hv']), List.flatMap_cons]
    rfl

variable (party : SrpParty)

/-- What `hash_values` answers for numbers written in whole bytes. -/
def digest (values : List SrpInt) : SrpInt :=
  { value := Hex.ofBytes (party.hashBytes P (values.flatMap SrpInt.bytes))
    hexLength := some (party.hashAlgorithm.outputSize * 2) }

theorem hashValues_eq {values : List SrpInt} (hv : ∀ v ∈ values, ∃ w, v.Whole w) :
    party.hashValues P values = .ok (party.digest P values) := by
  rw [hashValues, combined_eq values hv]
  rfl

theorem length_hashBytes (data : List UInt8) :
    (party.hashBytes P data).length = party.hashAlgorithm.outputSize := by
  simp [hashBytes]

theorem whole_digest (values : List SrpInt) :
    (party.digest P values).Whole (party.hashAlgorithm.outputSize * 2) := by
  have hlen := party.length_hashBytes P (values.flatMap SrpInt.bytes)
  have := SrpInt.whole_ofBytes (l := party.hashBytes P (values.flatMap SrpInt.bytes))
    (by rw [hlen]; exact party.hashAlgorithm.outputSize_pos)
  rwa [hlen] at this

/-- Whatever is hashed, the digest has the output size. -/
theorem whole_of_hashValues {values : List SrpInt} {i : SrpInt} (hi : party.hashValues P values = .ok i) :
    i.Whole (party.hashAlgorithm.outputSize * 2) := by
  obtain ⟨data, -, hpure⟩ := Except.bind_ok_iff.1 hi
  have hlen := party.length_hashBytes P data
  have hwhole := SrpInt.whole_ofBytes (l := party.hashBytes P data)
    (by rw [hlen]; exact party.hashAlgorithm.outputSize_pos)
  rw [hlen] at hwhole
  exact Except.ok.inj hpure ▸ hwhole

/-- The digest of a name, as a number. -/
def nameDigest (name : String) : SrpInt :=
  let digits := Hex.encode (party.hashBytes P name.toUTF8.data.toList)
  { value := Hex.value digits, hexLength := some digits.length }

theorem length_nameDigits (data : List UInt8) :
    (Hex.encode (party.hashBytes P data)).length = party.hashAlgorithm.outputSize * 2 := by
  rw [Hex.length_encode, length_hashBytes]

theorem fromHex_hashString (name : String) :
    SrpInt.fromHex (party.hashString P name) = .ok (party.nameDigest P name) := by
  have hlen := party.length_nameDigits P name.toUTF8.data.toList
  have hpos := party.hashAlgorithm.outputSize_pos
  refine SrpInt.fromHex_ofList (Hex.isHexDigit_encode _) fun hnil => ?_
  rw [hnil, List.length_nil] at hlen
  omega

theorem whole_nameDigest (name : String) :
    (party.nameDigest P name).Whole (party.hashAlgorithm.outputSize * 2) := by
  have hlen := party.length_nameDigits P name.toUTF8.data.toList
  have hpos := party.hashAlgorithm.outputSize_pos
  refine ⟨by rw [nameDigest, hlen], by omega, ⟨party.hashAlgorithm.outputSize, by omega⟩, ?_⟩
  rw [← hlen]
  exact Hex.value_lt (Hex.isHexDigit_encode _)

/-- What `H(N) xor H(g)` and the others are in front of the session key. -/
def proofHead (username : String) (s A B : SrpInt) : List SrpInt :=
  [(party.digest P [party.n]).xor (party.digest P [party.g]), party.nameDigest P (P.nfkc username), s, A, B]

section New

variable {P h group} {username : String} {s A B K : SrpInt} {w w' : Nat}

theorem multiplier_eq : (SrpParty.new h group).multiplier P =
    .ok ((SrpParty.new h group).digest P [(SrpParty.new h group).n, (SrpParty.new h group).g]) := by
  have hg := whole_g h group
  have hpad : (SrpParty.new h group).g.pad (SrpParty.new h group).hexLength = .ok (SrpParty.new h group).g := hg.pad
  exact Except.bind_ok_iff.2 ⟨_, hpad, hashValues_eq P _ (SrpInt.whole_pair (whole_n h group) hg)⟩

theorem scrambler_eq (hA : A.Whole group.hexLength) (hB : B.Whole group.hexLength) :
    (SrpParty.new h group).scrambler P A B = .ok ((SrpParty.new h group).digest P [A, B]) := by
  have hpadA : A.pad (SrpParty.new h group).hexLength = .ok A := hA.pad
  have hpadB : B.pad (SrpParty.new h group).hexLength = .ok B := hB.pad
  exact Except.bind_ok_iff.2 ⟨_, hpadA, Except.bind_ok_iff.2 ⟨_, hpadB, hashValues_eq P _ (SrpInt.whole_pair hA hB)⟩⟩

theorem hashValues_one {i : SrpInt} (hi : i.Whole w) :
    (SrpParty.new h group).hashValues P [i] = .ok ((SrpParty.new h group).digest P [i]) :=
  hashValues_eq P _ fun _ hv => ⟨w, List.mem_singleton.1 hv ▸ hi⟩

theorem proofValues_eq : (SrpParty.new h group).proofValues P username s A B K =
    .ok ((SrpParty.new h group).proofHead P username s A B ++ [K]) := by
  rw [proofValues, hashValues_one (whole_n h group), hashValues_one (whole_g h group), fromHex_hashString]
  rfl

theorem whole_proofHead (hs : s.Whole w) (hA : A.Whole w') (hB : B.Whole group.hexLength) :
    ∀ v ∈ (SrpParty.new h group).proofHead P username s A B, ∃ w, v.Whole w := by
  intro v hv
  simp only [proofHead, List.mem_cons, List.not_mem_nil, or_false] at hv
  rcases hv with rfl | rfl | rfl | rfl | rfl
  · exact ⟨_, (whole_digest P _ _).xor (whole_digest P _ _)⟩
  · exact ⟨_, whole_nameDigest P _ _⟩
  · exact ⟨_, hs⟩
  · exact ⟨_, hA⟩
  · exact ⟨_, hB⟩

end New

end SrpParty

/-! ## The common secret -/

section Premaster

variable (h : HashAlgorithm) (group : PrimeGroup)

/-- **Both sides compute one secret** when the verifier is that of the client's exponent. -/
theorem premaster_agree (k u a b x : SrpInt) :
    (SrpClient.new h group).premaster k u a x
        ((SrpServer.new h group).publicEphemeral k ((SrpParty.new h group).g.modPow x (SrpParty.new h group).n) b) =
      (SrpServer.new h group).premaster u b ((SrpParty.new h group).g.modPow x (SrpParty.new h group).n)
        ((SrpParty.new h group).g.modPow a (SrpParty.new h group).n) := by
  have hn := SrpParty.n_pos h group
  refine congrArg (SrpInt.mk · _) (@Modular.eq_of_cast (SrpParty.new h group).n.value _ _ ?_ ?_ ?_)
  · rw [Modular.powMod_eq]
    exact Nat.mod_lt _ hn
  · rw [Modular.powMod_eq]
    exact Nat.mod_lt _ hn
  · have hcommon := Modular.common_secret ((SrpParty.new h group).g.value : ZMod (SrpParty.new h group).n.value)
      (k.value : ZMod _) a.value b.value u.value x.value
    simp only [SrpServer.publicEphemeral, SrpInt.modPow, SrpInt.modulo, SrpInt.subtractMod, SrpInt.multiply,
      SrpInt.add, SrpServer.new, SrpClient.new, Modular.powMod_cast, Modular.subMod_cast hn, ZMod.natCast_mod,
      Nat.cast_add, Nat.cast_mul]
    exact hcommon

end Premaster

/-! ## The sessions -/

section Sessions

variable {P : Primitives} {h : HashAlgorithm} {group : PrimeGroup} {a b s v x A B M : SrpInt} {w w' : Nat}
  {aText bText salt vText xText MText username : String}

/-- What a side has computed that holds the common secret `S`. -/
def transcriptOf (P : Primitives) (h : HashAlgorithm) (group : PrimeGroup) (username : String) (s A B S : SrpInt) :
    Transcript :=
  let K := (SrpParty.new h group).digest P [S]
  { A, S, K, proofValues := (SrpParty.new h group).proofHead P username s A B ++ [K] }

/-- The client's secret. -/
def clientSecret (P : Primitives) (h : HashAlgorithm) (group : PrimeGroup) (a x A B : SrpInt) : SrpInt :=
  let party := SrpParty.new h group
  (SrpClient.new h group).premaster (party.digest P [party.n, party.g]) (party.digest P [A, B]) a x B

/-- The server's secret. -/
def serverSecret (P : Primitives) (h : HashAlgorithm) (group : PrimeGroup) (b v A B : SrpInt) : SrpInt :=
  (SrpServer.new h group).premaster ((SrpParty.new h group).digest P [A, B]) b v A

/-- The value that the server publishes. -/
def serverPublic (P : Primitives) (h : HashAlgorithm) (group : PrimeGroup) (v b : SrpInt) : SrpInt :=
  let party := SrpParty.new h group
  (SrpServer.new h group).publicEphemeral (party.digest P [party.n, party.g]) v b

/-- What the client publishes of its secret, and registers of its key. -/
def clientPublic (h : HashAlgorithm) (group : PrimeGroup) (a : SrpInt) : SrpInt :=
  (SrpParty.new h group).g.modPow a (SrpParty.new h group).n

theorem whole_clientSecret : (clientSecret P h group a x A B).Whole group.hexLength :=
  SrpParty.whole_modPow h group _ _

theorem whole_serverSecret : (serverSecret P h group b v A B).Whole group.hexLength :=
  SrpParty.whole_modPow h group _ _

theorem whole_serverPublic : (serverPublic P h group v b).Whole group.hexLength :=
  SrpParty.whole_modulo h group _

theorem whole_clientPublic : (clientPublic h group a).Whole group.hexLength :=
  SrpParty.whole_modPow h group _ _

theorem transcriptOf_eq {S : SrpInt} (hS : S.Whole w) :
    ((SrpParty.new h group).hashValues P [S] >>= fun K =>
      (SrpParty.new h group).proofValues P username s A B K >>= fun proofValues => pure { A, S, K, proofValues }) =
      .ok (transcriptOf P h group username s A B S) :=
  Except.bind_ok_iff.2 ⟨_, SrpParty.hashValues_one hS, Except.bind_ok_iff.2 ⟨_, SrpParty.proofValues_eq, rfl⟩⟩

theorem SrpClient.transcript_eq (ha : SrpInt.fromHex aText = .ok a) (hs : SrpInt.fromHex salt = .ok s)
    (hx : SrpInt.fromHex xText = .ok x) (hB : B.Whole group.hexLength)
    (hB0 : (B.modulo (SrpParty.new h group).n).isZero = false) :
    (SrpClient.new h group).transcript P aText B.text salt username xText =
      .ok (transcriptOf P h group username s (clientPublic h group a) B
        (clientSecret P h group a x (clientPublic h group a) B)) := by
  refine Except.bind_ok_iff.2 ⟨a, ha, Except.bind_ok_iff.2 ⟨B, hB.fromHex, Except.bind_ok_iff.2
    ⟨s, hs, Except.bind_ok_iff.2 ⟨x, hx, ?_⟩⟩⟩⟩
  have hB0' : ¬ ((B.modulo (SrpClient.new h group).n).isZero = true) :=
    fun hz => Bool.false_ne_true (hB0.symm.trans hz)
  rw [if_neg hB0']
  exact Except.bind_ok_iff.2 ⟨_, SrpParty.scrambler_eq whole_clientPublic hB, Except.bind_ok_iff.2
    ⟨_, SrpParty.multiplier_eq, transcriptOf_eq whole_clientSecret⟩⟩

theorem SrpServer.transcript_eq (hb : SrpInt.fromHex bText = .ok b) (hs : SrpInt.fromHex salt = .ok s)
    (hv : SrpInt.fromHex vText = .ok v) (hA : A.Whole group.hexLength)
    (hA0 : (A.modulo (SrpParty.new h group).n).isZero = false) :
    (SrpServer.new h group).transcript P bText A.text salt username vText =
      .ok (transcriptOf P h group username s A (serverPublic P h group v b)
        (serverSecret P h group b v A (serverPublic P h group v b))) := by
  refine Except.bind_ok_iff.2 ⟨b, hb, Except.bind_ok_iff.2 ⟨A, hA.fromHex, Except.bind_ok_iff.2
    ⟨s, hs, Except.bind_ok_iff.2 ⟨v, hv, Except.bind_ok_iff.2 ⟨_, SrpParty.multiplier_eq, ?_⟩⟩⟩⟩⟩
  have hA0' : ¬ ((A.modulo (SrpServer.new h group).n).isZero = true) :=
    fun hz => Bool.false_ne_true (hA0.symm.trans hz)
  rw [if_neg hA0']
  exact Except.bind_ok_iff.2 ⟨_, SrpParty.scrambler_eq hA whole_serverPublic, transcriptOf_eq whole_serverSecret⟩

/-- The numbers that the proof is the hash of are all written in whole bytes. -/
theorem whole_proofValues {S : SrpInt} (hs : s.Whole w) (hA : A.Whole w') (hB : B.Whole group.hexLength) :
    ∀ v ∈ (transcriptOf P h group username s A B S).proofValues, ∃ w, v.Whole w := by
  intro v hv
  rcases List.mem_append.1 hv with hv | hv
  · exact SrpParty.whole_proofHead hs hA hB v hv
  · exact ⟨_, List.mem_singleton.1 hv ▸ SrpParty.whole_digest P _ _⟩

/-- The proof that a side's transcript makes. -/
def proofOf (P : Primitives) (h : HashAlgorithm) (group : PrimeGroup) (t : Transcript) : SrpInt :=
  (SrpParty.new h group).digest P t.proofValues

theorem whole_proofOf (t : Transcript) : (proofOf P h group t).Whole (h.outputSize * 2) :=
  SrpParty.whole_digest P (SrpParty.new h group) _

theorem SrpClient.deriveSession_eq {t : Transcript} {BText : String}
    (ht : (SrpClient.new h group).transcript P aText BText salt username xText = .ok t)
    (hv : ∀ v ∈ t.proofValues, ∃ w, v.Whole w) (hK : t.K.Whole w) :
    (SrpClient.new h group).deriveSession P aText BText salt username xText =
      .ok { key := t.K.text, proof := (proofOf P h group t).text } :=
  Except.bind_ok_iff.2 ⟨t, ht, Except.bind_ok_iff.2 ⟨_, SrpParty.hashValues_eq P _ hv, Except.bind_ok_iff.2
    ⟨_, hK.toHex, Except.bind_ok_iff.2 ⟨_, (whole_proofOf t).toHex, rfl⟩⟩⟩⟩

/-- The server's proof. -/
def serverProofOf (P : Primitives) (h : HashAlgorithm) (group : PrimeGroup) (t : Transcript) : SrpInt :=
  (SrpParty.new h group).digest P [t.A, proofOf P h group t, t.K]

theorem whole_serverProofOf (t : Transcript) : (serverProofOf P h group t).Whole (h.outputSize * 2) :=
  SrpParty.whole_digest P (SrpParty.new h group) _

theorem serverProofOf_eq {t : Transcript} (hA : t.A.Whole w') (hK : t.K.Whole w) :
    (SrpParty.new h group).hashValues P [t.A, proofOf P h group t, t.K] = .ok (serverProofOf P h group t) := by
  refine SrpParty.hashValues_eq P _ fun v hv => ?_
  simp only [List.mem_cons, List.not_mem_nil, or_false] at hv
  rcases hv with rfl | rfl | rfl
  · exact ⟨_, hA⟩
  · exact ⟨_, whole_proofOf t⟩
  · exact ⟨_, hK⟩

theorem SrpServer.deriveSession_eq {t : Transcript} {AText : String}
    (ht : (SrpServer.new h group).transcript P bText AText salt username vText = .ok t)
    (hv : ∀ v ∈ t.proofValues, ∃ w, v.Whole w) (hA : t.A.Whole w') (hK : t.K.Whole w)
    (hM : SrpInt.fromHex MText = .ok M) :
    (SrpServer.new h group).deriveSession P bText AText salt username vText MText =
      if M.value = (proofOf P h group t).value then
        .ok { key := t.K.text, proof := (serverProofOf P h group t).text }
      else .error (.error .invalidSessionProof) := by
  have hexpected : (SrpParty.new h group).hashValues P t.proofValues = .ok (proofOf P h group t) :=
    SrpParty.hashValues_eq P _ hv
  rw [deriveSession, ht]
  simp only [bind, Except.bind, SrpServer.new, hexpected, hM, SrpInt.equals]
  by_cases heq : M.value = (proofOf P h group t).value
  · simp only [heq, decide_true, Bool.not_true, Bool.false_eq_true, if_false, if_true, serverProofOf_eq hA hK,
      hK.toHex, (whole_serverProofOf t).toHex]
    rfl
  · simp only [heq, decide_false, Bool.not_false, if_true, if_false]

theorem SrpClient.verifySession_eq {t : Transcript} (hA : t.A.Whole group.hexLength) (hK : t.K.Whole w) :
    (SrpClient.new h group).verifySession P t.A.text { key := t.K.text, proof := (proofOf P h group t).text }
      (serverProofOf P h group t).text = .ok () := by
  refine Except.bind_ok_iff.2 ⟨_, hA.fromHex, Except.bind_ok_iff.2 ⟨_, (whole_proofOf t).fromHex,
    Except.bind_ok_iff.2 ⟨_, hK.fromHex, Except.bind_ok_iff.2 ⟨_, serverProofOf_eq hA hK,
      Except.bind_ok_iff.2 ⟨_, (whole_serverProofOf t).fromHex, ?_⟩⟩⟩⟩⟩
  simp only [SrpInt.equals, decide_true, Bool.not_true, Bool.false_eq_true, if_false]
  rfl

/-! ## The steps before the sessions -/

/-- A text that is let in is the number of its digits, in as many. -/
theorem fromHex_validated {text : String} (h : validateHexString text = true) :
    SrpInt.fromHex text = .ok { value := Hex.value text.toList, hexLength := some text.toList.length } ∧
      SrpInt.Whole text.toList.length { value := Hex.value text.toList, hexLength := some text.toList.length } := by
  simp only [validateHexString, Bool.and_eq_true, Bool.not_eq_true', List.isEmpty_eq_false_iff, decide_eq_true_eq,
    List.all_eq_true] at h
  obtain ⟨⟨hne, heven⟩, hdigits⟩ := h
  have hfrom := SrpInt.fromHex_ofList hdigits hne
  rw [String.ofList_toList] at hfrom
  exact ⟨hfrom, rfl, List.length_pos_of_ne_nil hne, Nat.even_iff.2 heven, Hex.value_lt hdigits⟩

theorem fromHex_of_validateHexString (hsalt : validateHexString salt = true) :
    ∃ s w, SrpInt.fromHex salt = .ok s ∧ s.Whole w :=
  ⟨_, _, (fromHex_validated hsalt).1, (fromHex_validated hsalt).2⟩

theorem SrpClient.deriveVerifier_eq_ok (hv : (SrpClient.new h group).deriveVerifier xText = .ok vText) :
    ∃ x, SrpInt.fromHex xText = .ok x ∧ vText = (clientPublic h group x).text := by
  obtain ⟨x, hx, hv⟩ := Except.bind_ok_iff.1 hv
  have htext : (clientPublic h group x).toHex = .ok vText := hv
  rw [whole_clientPublic.toHex] at htext
  exact ⟨x, hx, (Except.ok.inj htext).symm⟩

theorem SrpClient.deriveVerifier_of_fromHex (hx : SrpInt.fromHex xText = .ok x) :
    ∃ v, (SrpClient.new h group).deriveVerifier xText = .ok v :=
  ⟨_, Except.bind_ok_iff.2 ⟨x, hx, (SrpParty.whole_modPow h group _ _).toHex⟩⟩

/-- **A key that is derived from a password has a verifier**, by either derivation. -/
theorem SrpClient.deriveVerifier_of_derived {password : String} {iterations : Option Nat}
    (hx : (SrpClient.new h group).derivePrivateKey P salt username password = .ok xText ∨
      (SrpClient.new h group).deriveSafePrivateKey P salt password iterations = .ok xText) :
    ∃ v, (SrpClient.new h group).deriveVerifier xText = .ok v := by
  rcases hx with hx | hx
  · obtain ⟨s, -, hx⟩ := Except.bind_ok_iff.1 hx
    obtain ⟨i, -, hx⟩ := Except.bind_ok_iff.1 hx
    obtain ⟨x, hhash, hx⟩ := Except.bind_ok_iff.1 hx
    have hwhole := (SrpClient.new h group).whole_of_hashValues P hhash
    rw [hwhole.toHex] at hx
    exact deriveVerifier_of_fromHex (Except.ok.inj hx ▸ hwhole.fromHex)
  · simp only [deriveSafePrivateKey] at hx
    split at hx
    · exact nomatch hx
    · rename_i saltBytes hsalt
      have hpos := h.outputSize_pos
      rw [← Except.ok.inj hx]
      refine deriveVerifier_of_fromHex (SrpInt.fromHex_ofList (Hex.isHexDigit_encode _) fun hnil => ?_)
      have hlen := congrArg List.length hnil
      rw [Hex.length_encode, Vector.length_toList, List.length_nil] at hlen
      simp only [SrpClient.new, SrpParty.new] at hlen
      omega

theorem whole_secret (buffer : Vector UInt8 h.outputSize) : (SrpInt.random buffer).Whole (h.outputSize * 2) :=
  SrpInt.whole_random h.outputSize_pos buffer

theorem SrpClient.generateEphemeral_eq (buffer : Vector UInt8 h.outputSize) :
    (SrpClient.new h group).generateEphemeral buffer =
      .ok { «public» := (clientPublic h group (SrpInt.random buffer)).text, secret := (SrpInt.random buffer).text } :=
  Except.bind_ok_iff.2 ⟨_, (whole_secret buffer).pad, Except.bind_ok_iff.2
    ⟨_, (whole_secret buffer).toHex, Except.bind_ok_iff.2 ⟨_, whole_clientPublic.toHex, rfl⟩⟩⟩

theorem SrpServer.generateEphemeral_eq (hv : SrpInt.fromHex vText = .ok v) (buffer : Vector UInt8 h.outputSize) :
    (SrpServer.new h group).generateEphemeral P vText buffer =
      .ok { «public» := (serverPublic P h group v (SrpInt.random buffer)).text
            secret := (SrpInt.random buffer).text } :=
  Except.bind_ok_iff.2 ⟨_, hv, Except.bind_ok_iff.2 ⟨_, SrpParty.multiplier_eq, Except.bind_ok_iff.2
    ⟨_, (whole_secret buffer).pad, Except.bind_ok_iff.2 ⟨_, (whole_secret buffer).toHex,
      Except.bind_ok_iff.2 ⟨_, whole_serverPublic.toHex, rfl⟩⟩⟩⟩⟩

/-! ## Collisions -/

/-- The two sides' hash inputs collide: the bytes that each takes the proof over have one
digest. They are different bytes, or else those that each takes the key over have one
digest, being different bytes or the common secret itself. -/
def HashInputsCollide (P : Primitives) (h : HashAlgorithm) (t t' : Transcript) : Prop :=
  ∃ m m' k k', SrpParty.combined t.proofValues = .ok m ∧ SrpParty.combined t'.proofValues = .ok m' ∧
    SrpParty.hashedBytes t.S = .ok k ∧ SrpParty.hashedBytes t'.S = .ok k' ∧
    P.hash h m = P.hash h m' ∧ (m ≠ m' ∨ P.hash h k = P.hash h k' ∧ (k ≠ k' ∨ t.S = t'.S))

theorem hash_eq_of_digest {l m : List SrpInt}
    (heq : ((SrpParty.new h group).digest P l).value = ((SrpParty.new h group).digest P m).value) :
    P.hash h (l.flatMap SrpInt.bytes) = P.hash h (m.flatMap SrpInt.bytes) := by
  have hlen := ((SrpParty.new h group).length_hashBytes P (l.flatMap SrpInt.bytes)).trans
    ((SrpParty.new h group).length_hashBytes P (m.flatMap SrpInt.bytes)).symm
  exact Vector.toList_inj.1 (Hex.ofBytes_inj _ _ hlen heq)

/-- **One proof on both sides means that their hash inputs collide**, whatever the secrets. -/
theorem collide_of_proofOf {S S' : SrpInt} (hs : s.Whole w) (hA : A.Whole group.hexLength)
    (hB : B.Whole group.hexLength) (hS : S.Whole group.hexLength) (hS' : S'.Whole group.hexLength)
    (heq : (proofOf P h group (transcriptOf P h group username s A B S)).value =
      (proofOf P h group (transcriptOf P h group username s A B S')).value) :
    HashInputsCollide P h (transcriptOf P h group username s A B S) (transcriptOf P h group username s A B S') := by
  refine ⟨_, _, _, _, SrpParty.combined_eq _ (whole_proofValues hs hA hB), SrpParty.combined_eq _
    (whole_proofValues hs hA hB), SrpParty.hashedBytes_eq hS, SrpParty.hashedBytes_eq hS', hash_eq_of_digest heq, ?_⟩
  by_cases hm : (transcriptOf P h group username s A B S).proofValues.flatMap SrpInt.bytes =
      (transcriptOf P h group username s A B S').proofValues.flatMap SrpInt.bytes
  · -- The inputs share all but the key at their end, so the keys are the same.
    have hkey : ((SrpParty.new h group).digest P [S]).bytes = ((SrpParty.new h group).digest P [S']).bytes := by
      simpa [transcriptOf] using hm
    have hdigest := (SrpParty.whole_digest P (SrpParty.new h group) [S]).eq_of_bytes
      (SrpParty.whole_digest P (SrpParty.new h group) [S']) hkey
    have hhash := hash_eq_of_digest (congrArg SrpInt.value hdigest)
    refine .inr ⟨by simpa [transcriptOf] using hhash, ?_⟩
    by_cases hbytes : S.bytes = S'.bytes
    · exact .inr (hS.eq_of_bytes hS' hbytes)
    · exact .inl hbytes
  · exact .inl hm

/-! ## The exchange -/

/-- A public value that is not zero modulo the group's modulus. -/
def PublicNonZero (group : PrimeGroup) (ephemeral : Ephemeral) : Prop :=
  ∀ i, SrpInt.fromHex ephemeral.public = .ok i → i.value % (getParams group).n ≠ 0

theorem PublicNonZero.isZero {i : SrpInt} {secret : String} (hi : i.Whole w)
    (h0 : PublicNonZero group { «public» := i.text, secret }) (h : HashAlgorithm) :
    (i.modulo (SrpParty.new h group).n).isZero = false :=
  decide_eq_false (h0 i hi.fromHex)

/-- The transcript of a client whose key is `x`, to whom the server has sent `B`. -/
def clientTranscript (P : Primitives) (h : HashAlgorithm) (group : PrimeGroup) (username : String)
    (s a x B : SrpInt) : Transcript :=
  transcriptOf P h group username s (clientPublic h group a) B (clientSecret P h group a x (clientPublic h group a) B)

/-- The transcript of a server whose verifier is `v`, to whom the client has sent `A`. -/
def serverTranscript (P : Primitives) (h : HashAlgorithm) (group : PrimeGroup) (username : String)
    (s b v A : SrpInt) : Transcript :=
  transcriptOf P h group username s A (serverPublic P h group v b)
    (serverSecret P h group b v A (serverPublic P h group v b))

/-- **The two transcripts are the same** when the verifier is that of the client's key. -/
theorem transcripts_agree (P : Primitives) (h : HashAlgorithm) (group : PrimeGroup) (username : String)
    (s a b x : SrpInt) :
    clientTranscript P h group username s a x (serverPublic P h group (clientPublic h group x) b) =
      serverTranscript P h group username s b (clientPublic h group x) (clientPublic h group a) :=
  congrArg (transcriptOf P h group username s _ _) (premaster_agree h group _ _ a b x)

section Run

variable (username) (hs : SrpInt.fromHex salt = .ok s) (hsw : s.Whole w) (hx : SrpInt.fromHex xText = .ok x)
  (ha : SrpInt.fromHex aText = .ok a) (hb : SrpInt.fromHex bText = .ok b) (hv : v.Whole group.hexLength)

include hs hx ha in
theorem client_transcript_run (hB0 : ((serverPublic P h group v b).modulo (SrpParty.new h group).n).isZero = false) :
    (SrpClient.new h group).transcript P aText (serverPublic P h group v b).text salt username xText =
      .ok (clientTranscript P h group username s a x (serverPublic P h group v b)) :=
  SrpClient.transcript_eq ha hs hx whole_serverPublic hB0

include hs hb hv in
theorem server_transcript_run (hA0 : ((clientPublic h group a).modulo (SrpParty.new h group).n).isZero = false) :
    (SrpServer.new h group).transcript P bText (clientPublic h group a).text salt username v.text =
      .ok (serverTranscript P h group username s b v (clientPublic h group a)) :=
  SrpServer.transcript_eq hb hs hv.fromHex whole_clientPublic hA0

include hs hsw hx ha in
theorem client_session_run (hB0 : ((serverPublic P h group v b).modulo (SrpParty.new h group).n).isZero = false) :
    let t := clientTranscript P h group username s a x (serverPublic P h group v b)
    (SrpClient.new h group).deriveSession P aText (serverPublic P h group v b).text salt username xText =
      .ok { key := t.K.text, proof := (proofOf P h group t).text } :=
  SrpClient.deriveSession_eq (client_transcript_run username hs hx ha hB0)
    (whole_proofValues hsw whole_clientPublic whole_serverPublic) (SrpParty.whole_digest P _ _)

include hs hsw hb hv in
theorem server_session_run (hA0 : ((clientPublic h group a).modulo (SrpParty.new h group).n).isZero = false)
    (t : Transcript) :
    let t' := serverTranscript P h group username s b v (clientPublic h group a)
    (SrpServer.new h group).deriveSession P bText (clientPublic h group a).text salt username v.text
        (proofOf P h group t).text =
      if (proofOf P h group t).value = (proofOf P h group t').value then
        .ok { key := t'.K.text, proof := (serverProofOf P h group t').text }
      else .error (.error .invalidSessionProof) :=
  SrpServer.deriveSession_eq (server_transcript_run username hs hb hv hA0)
    (whole_proofValues hsw whole_clientPublic whole_serverPublic) whole_clientPublic (SrpParty.whole_digest P _ _)
    (whole_proofOf t).fromHex

end Run

end Sessions

/-- Functions of the right sizes: a hash that answers the last bytes of its input. -/
def lastBytes : Primitives where
  hash h data := Vector.ofFn fun i : Fin h.outputSize => data.reverse.getD i 0
  pbkdf2Hmac h password _ _ := Vector.ofFn fun i : Fin h.outputSize => password.reverse.getD i 0
  nfkc := id

/-- The buffer whose number is 1. -/
def oneBuffer : Vector UInt8 HashAlgorithm.sha1.outputSize := (Vector.replicate 19 0).push 1

theorem publicNonZero_of_text {group : PrimeGroup} {i : SrpInt} {w : Nat} {secret : String} (hi : i.Whole w)
    (h0 : i.value % (getParams group).n ≠ 0) : PublicNonZero group { «public» := i.text, secret } := by
  intro j hj
  rw [hi.fromHex] at hj
  exact Except.ok.inj hj ▸ h0

end Bittery.Srp6a
