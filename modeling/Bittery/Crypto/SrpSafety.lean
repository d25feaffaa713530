/-
What the SRP sessions do with the texts that the server lets in: `validate_hex_string` before
`derive_session`.

A text that is let in is a number in whole bytes, of any width. `pad` panics when it is given a wider
number than the group has, and the server pads the client's public value.
-/
import Bittery.Crypto.SrpAgreement

namespace Bittery.Srp6a

open Lib

/-- A call that answers or fails, but does not panic. -/
def NoPanic {α : Type} (result : Except SrpFailure α) : Prop := ∀ message, result ≠ .error (.panicked message)

theorem NoPanic.ok {α : Type} {result : Except SrpFailure α} {a : α} (h : result = .ok a) : NoPanic result := by
  intro message he
  rw [h] at he
  cases he

theorem NoPanic.error {α : Type} {result : Except SrpFailure α} {e : CryptoError} (h : result = .error (.error e)) :
    NoPanic result := by
  intro message he
  rw [h] at he
  cases he

/-! ## The server -/

section Server

variable {P : Primitives} {h : HashAlgorithm} {group : PrimeGroup} {A b s v M : SrpInt} {w w' : Nat}
  {AText bText salt vText MText username : String}

/-- A number in the width of the group. -/
def inGroupWidth (group : PrimeGroup) (A : SrpInt) : SrpInt := { A with hexLength := some group.hexLength }

theorem SrpInt.Whole.inGroupWidth (hA : A.Whole w) (hle : w ≤ group.hexLength) :
    (Srp6a.inGroupWidth group A).Whole group.hexLength :=
  ⟨rfl, group.hexLength_pos, group.hexLength_even, Nat.lt_of_lt_of_le hA.lt (Nat.pow_le_pow_right (by decide) hle)⟩

/-- What the server has computed for a public value that is not too wide. -/
def receivedTranscript (P : Primitives) (h : HashAlgorithm) (group : PrimeGroup) (username : String) (s b v A : SrpInt) :
    Transcript :=
  let B := serverPublic P h group v b
  transcriptOf P h group username s A B
    ((SrpServer.new h group).premaster ((SrpParty.new h group).digest P [inGroupWidth group A, B]) b v A)

theorem SrpServer.transcript_of_le (hb : SrpInt.fromHex bText = .ok b) (hAText : SrpInt.fromHex AText = .ok A)
    (hs : SrpInt.fromHex salt = .ok s) (hv : SrpInt.fromHex vText = .ok v) (hA : A.Whole w) (hle : w ≤ group.hexLength)
    (hA0 : (A.modulo (SrpParty.new h group).n).isZero = false) :
    (SrpServer.new h group).transcript P bText AText salt username vText =
      .ok (receivedTranscript P h group username s b v A) := by
  refine Except.bind_ok_iff.2 ⟨b, hb, Except.bind_ok_iff.2 ⟨A, hAText, Except.bind_ok_iff.2
    ⟨s, hs, Except.bind_ok_iff.2 ⟨v, hv, Except.bind_ok_iff.2 ⟨_, SrpParty.multiplier_eq, ?_⟩⟩⟩⟩⟩
  have hA0' : ¬ ((A.modulo (SrpServer.new h group).n).isZero = true) :=
    fun hz => Bool.false_ne_true (hA0.symm.trans hz)
  have hpad : A.pad (SrpParty.new h group).hexLength = .ok (inGroupWidth group A) := by
    rw [SrpInt.pad, hA.hexLength, Option.any_some, if_neg]
    · rfl
    · rw [decide_eq_true_iff, Nat.not_lt]
      exact hle
  have hscrambler : (SrpParty.new h group).scrambler P A (serverPublic P h group v b) =
      .ok ((SrpParty.new h group).digest P [inGroupWidth group A, serverPublic P h group v b]) := by
    have hB : (serverPublic P h group v b).Whole group.hexLength := whole_serverPublic
    have hpadB : (serverPublic P h group v b).pad (SrpParty.new h group).hexLength = .ok (serverPublic P h group v b) := hB.pad
    have hwhole := SrpInt.whole_pair (hA.inGroupWidth hle) hB
    exact Except.bind_ok_iff.2 ⟨_, hpad, Except.bind_ok_iff.2 ⟨_, hpadB, SrpParty.hashValues_eq P _ hwhole⟩⟩
  rw [if_neg hA0']
  exact Except.bind_ok_iff.2 ⟨_, hscrambler, transcriptOf_eq (SrpParty.whole_modPow h group _ _)⟩

/-- A public value that is zero modulo the group's modulus is refused. -/
theorem SrpServer.deriveSession_of_zero (hb : SrpInt.fromHex bText = .ok b) (hAText : SrpInt.fromHex AText = .ok A)
    (hs : SrpInt.fromHex salt = .ok s) (hv : SrpInt.fromHex vText = .ok v)
    (hA0 : (A.modulo (SrpParty.new h group).n).isZero = true) :
    (SrpServer.new h group).deriveSession P bText AText salt username vText MText = .error (.error .invalidPublicEphemeral) := by
  obtain ⟨k, hmultiplier⟩ : ∃ k, (SrpParty.new h group).multiplier P = .ok k := ⟨_, SrpParty.multiplier_eq⟩
  have htranscript : (SrpServer.new h group).transcript P bText AText salt username vText =
      .error (.error .invalidPublicEphemeral) := by
    unfold transcript
    simp only [hb, hAText, hs, hv, bind, Except.bind, SrpServer.new, hmultiplier, hA0, if_true]
  rw [deriveSession, htranscript]
  rfl

/-- A public value that is too wide, and not refused before, makes the server panic. -/
theorem SrpServer.deriveSession_of_wide (hb : SrpInt.fromHex bText = .ok b) (hAText : SrpInt.fromHex AText = .ok A)
    (hs : SrpInt.fromHex salt = .ok s) (hv : SrpInt.fromHex vText = .ok v) (hA : A.Whole w) (hlt : group.hexLength < w)
    (hA0 : (A.modulo (SrpParty.new h group).n).isZero = false) :
    (SrpServer.new h group).deriveSession P bText AText salt username vText MText =
      .error (.panicked "Cannot pad to shorter length") := by
  obtain ⟨k, hmultiplier⟩ : ∃ k, (SrpParty.new h group).multiplier P = .ok k := ⟨_, SrpParty.multiplier_eq⟩
  have hpad : A.pad (SrpParty.new h group).hexLength = .error (.panicked "Cannot pad to shorter length") := by
    rw [SrpInt.pad, hA.hexLength, Option.any_some, if_pos]
    exact decide_eq_true hlt
  have htranscript : (SrpServer.new h group).transcript P bText AText salt username vText =
      .error (.panicked "Cannot pad to shorter length") := by
    unfold transcript
    simp only [hb, hAText, hs, hv, bind, Except.bind, SrpServer.new, hmultiplier, hA0, Bool.false_eq_true, if_false,
      SrpParty.scrambler, hpad]
  rw [deriveSession, htranscript]
  rfl

/-- A public value that is not too wide: the proof decides. -/
theorem SrpServer.deriveSession_of_le (hb : SrpInt.fromHex bText = .ok b) (hAText : SrpInt.fromHex AText = .ok A)
    (hs : SrpInt.fromHex salt = .ok s) (hsw : s.Whole w') (hv : SrpInt.fromHex vText = .ok v) (hA : A.Whole w)
    (hle : w ≤ group.hexLength) (hA0 : (A.modulo (SrpParty.new h group).n).isZero = false)
    (hM : SrpInt.fromHex MText = .ok M) :
    let t := receivedTranscript P h group username s b v A
    (SrpServer.new h group).deriveSession P bText AText salt username vText MText =
      if M.value = (proofOf P h group t).value then .ok { key := t.K.text, proof := (serverProofOf P h group t).text }
      else .error (.error .invalidSessionProof) :=
  SrpServer.deriveSession_eq (SrpServer.transcript_of_le hb hAText hs hv hA hle hA0)
    (whole_proofValues hsw hA whole_serverPublic) hA (SrpParty.whole_digest P _ _) hM

end Server

/-! ## The client -/

section Client

variable {P : Primitives} {h : HashAlgorithm} {group : PrimeGroup} {a b s v x : SrpInt} {w : Nat}
  {aText salt xText username password : String} {iterations : Option Nat}

/-- A salt that is let in makes a private key, by either derivation. -/
theorem SrpClient.privateKey_ok (hsalt : validateHexString salt = true) :
    (∃ x, (SrpClient.new h group).derivePrivateKey P salt username password = .ok x) ∧
      NoPanic ((SrpClient.new h group).deriveSafePrivateKey P salt password iterations) := by
  obtain ⟨hs, hsw⟩ := fromHex_validated hsalt
  have hidentity := (SrpParty.new h group).fromHex_hashString P (P.nfkc username ++ ":" ++ password)
  constructor
  · have hwhole := SrpInt.whole_pair hsw
      (SrpParty.whole_nameDigest P (SrpParty.new h group) (P.nfkc username ++ ":" ++ password))
    exact ⟨_, Except.bind_ok_iff.2 ⟨_, hs, Except.bind_ok_iff.2 ⟨_, hidentity, Except.bind_ok_iff.2
      ⟨_, SrpParty.hashValues_eq P _ hwhole, (SrpParty.whole_digest P _ _).toHex⟩⟩⟩⟩
  · unfold deriveSafePrivateKey
    dsimp only
    split
    · exact .error rfl
    · exact .ok rfl

/-- A private key that was derived is a number. -/
theorem SrpClient.fromHex_privateKey (hx : (SrpClient.new h group).derivePrivateKey P salt username password = .ok xText ∨
    (SrpClient.new h group).deriveSafePrivateKey P salt password iterations = .ok xText) :
    ∃ x, SrpInt.fromHex xText = .ok x := by
  obtain ⟨v, hv⟩ := SrpClient.deriveVerifier_of_derived hx
  obtain ⟨x, hx, -⟩ := Except.bind_ok_iff.1 hv
  exact ⟨x, hx⟩

/-- The client computes a session from what the server publishes, or refuses a value that is zero. -/
theorem SrpClient.deriveSession_published (hsalt : validateHexString salt = true) (ha : SrpInt.fromHex aText = .ok a)
    (hx : SrpInt.fromHex xText = .ok x) :
    (((serverPublic P h group v b).modulo (SrpParty.new h group).n).isZero = true ∧
      (SrpClient.new h group).deriveSession P aText (serverPublic P h group v b).text salt username xText =
        .error (.error .invalidPublicEphemeral)) ∨
    ∃ session, (SrpClient.new h group).deriveSession P aText (serverPublic P h group v b).text salt username xText = .ok session := by
  obtain ⟨hs, hsw⟩ := fromHex_validated hsalt
  have hB : (serverPublic P h group v b).Whole group.hexLength := whole_serverPublic
  by_cases hB0 : ((serverPublic P h group v b).modulo (SrpParty.new h group).n).isZero = true
  · left
    have htranscript : (SrpClient.new h group).transcript P aText (serverPublic P h group v b).text salt username xText =
        .error (.error .invalidPublicEphemeral) := by
      unfold transcript
      simp only [ha, hB.fromHex, hs, hx, bind, Except.bind, SrpClient.new, hB0, if_true]
    refine ⟨hB0, ?_⟩
    rw [deriveSession, htranscript]
    rfl
  · right
    rw [Bool.not_eq_true] at hB0
    exact ⟨_, SrpClient.deriveSession_eq (SrpClient.transcript_eq ha hs hx hB hB0)
      (whole_proofValues hsw whole_clientPublic hB) (SrpParty.whole_digest P _ _)⟩

end Client

/-! ## What an accepted proof was made of -/

section Accepted

variable {P : Primitives} {h : HashAlgorithm} {group : PrimeGroup} {aText bText AText BText salt xText vText username : String}
  {session accepted : Session}

theorem SrpParty.hashValues_ok {party : SrpParty} {values : List SrpInt} {i : SrpInt} (hi : party.hashValues P values = .ok i) :
    ∃ m, SrpParty.combined values = .ok m ∧ i.value = Hex.ofBytes (party.hashBytes P m) := by
  obtain ⟨m, hm, hi⟩ := Except.bind_ok_iff.1 hi
  exact ⟨m, hm, Except.ok.inj hi ▸ rfl⟩

/-- The proof of a client's session. -/
theorem SrpClient.deriveSession_ok
    (hsession : (SrpClient.new h group).deriveSession P aText BText salt username xText = .ok session) :
    ∃ t M, (SrpClient.new h group).transcript P aText BText salt username xText = .ok t ∧
      (SrpParty.new h group).hashValues P t.proofValues = .ok M ∧ SrpInt.fromHex session.proof = .ok M := by
  obtain ⟨t, ht, hsession⟩ := Except.bind_ok_iff.1 hsession
  obtain ⟨M, hM, hsession⟩ := Except.bind_ok_iff.1 hsession
  obtain ⟨K, -, hsession⟩ := Except.bind_ok_iff.1 hsession
  obtain ⟨proof, hproof, hsession⟩ := Except.bind_ok_iff.1 hsession
  have hwhole := (SrpClient.new h group).whole_of_hashValues P hM
  rw [hwhole.toHex] at hproof
  refine ⟨t, M, ht, hM, ?_⟩
  rw [← Except.ok.inj hsession, ← Except.ok.inj hproof]
  exact hwhole.fromHex

/-- The proof that a server has accepted. -/
theorem SrpServer.deriveSession_ok {MText : String}
    (haccepted : (SrpServer.new h group).deriveSession P bText AText salt username vText MText = .ok accepted) :
    ∃ t M M', (SrpServer.new h group).transcript P bText AText salt username vText = .ok t ∧
      (SrpParty.new h group).hashValues P t.proofValues = .ok M ∧ SrpInt.fromHex MText = .ok M' ∧ M'.value = M.value := by
  obtain ⟨t, ht, haccepted⟩ := Except.bind_ok_iff.1 haccepted
  obtain ⟨M, hM, haccepted⟩ := Except.bind_ok_iff.1 haccepted
  obtain ⟨M', hM', haccepted⟩ := Except.bind_ok_iff.1 haccepted
  refine ⟨t, M, M', ht, hM, hM', ?_⟩
  split at haccepted
  · cases haccepted
  · next hequals => simpa [SrpInt.equals] using hequals

/-- **Both sides have hashed the same encodings** when the server accepts a client's proof, or two inputs
that collide. -/
theorem encodings_agree
    (hsession : (SrpClient.new h group).deriveSession P aText BText salt username xText = .ok session)
    (haccepted : (SrpServer.new h group).deriveSession P bText AText salt username vText session.proof = .ok accepted) :
    ∃ t t' m m', (SrpClient.new h group).transcript P aText BText salt username xText = .ok t ∧
      (SrpServer.new h group).transcript P bText AText salt username vText = .ok t' ∧
      SrpParty.combined t.proofValues = .ok m ∧ SrpParty.combined t'.proofValues = .ok m' ∧
      (m = m' ∨ m ≠ m' ∧ P.hash h m = P.hash h m') := by
  obtain ⟨t, M, ht, hM, hproof⟩ := SrpClient.deriveSession_ok hsession
  obtain ⟨t', M', M'', ht', hM', hproof', hequal⟩ := SrpServer.deriveSession_ok haccepted
  obtain ⟨m, hm, hvalue⟩ := SrpParty.hashValues_ok hM
  obtain ⟨m', hm', hvalue'⟩ := SrpParty.hashValues_ok hM'
  refine ⟨t, t', m, m', ht, ht', hm, hm', ?_⟩
  rw [hproof] at hproof'
  rw [← Except.ok.inj hproof', hvalue, hvalue'] at hequal
  have hlength := ((SrpParty.new h group).length_hashBytes P m).trans ((SrpParty.new h group).length_hashBytes P m').symm
  by_cases hsame : m = m'
  · exact .inl hsame
  · exact .inr ⟨hsame, Vector.toList_inj.1 (Hex.ofBytes_inj _ _ hlength hequal)⟩

end Accepted

/-- What is asked of the two derivations for texts that are let in and a value `b` that the server
publishes. -/
structure SessionsSafe (P : Primitives) (h : HashAlgorithm) (group : PrimeGroup) (username salt vText AText MText : String)
    (b : Ephemeral) : Prop where
  server : NoPanic ((SrpServer.new h group).deriveSession P b.secret AText salt username vText MText)
  serverNonZero : ∀ accepted, (SrpServer.new h group).deriveSession P b.secret AText salt username vText MText = .ok accepted →
    Hex.value AText.toList % (getParams group).n ≠ 0
  clientKey : ∀ password iterations, NoPanic ((SrpClient.new h group).derivePrivateKey P salt username password) ∧
    NoPanic ((SrpClient.new h group).deriveSafePrivateKey P salt password iterations)
  client : ∀ password iterations x, ((SrpClient.new h group).derivePrivateKey P salt username password = .ok x ∨
      (SrpClient.new h group).deriveSafePrivateKey P salt password iterations = .ok x) →
    ∀ buffer a, (SrpClient.new h group).generateEphemeral buffer = .ok a →
      NoPanic ((SrpClient.new h group).deriveSession P a.secret b.public salt username x)
  clientNonZero : ∀ a x session, (SrpClient.new h group).deriveSession P a b.public salt username x = .ok session →
    PublicNonZero group b
  encodings : ∀ a x session accepted, (SrpClient.new h group).deriveSession P a b.public salt username x = .ok session →
    (SrpServer.new h group).deriveSession P b.secret AText salt username vText MText = .ok accepted → session.proof = MText →
    ∃ t t' m m', (SrpClient.new h group).transcript P a b.public salt username x = .ok t ∧
      (SrpServer.new h group).transcript P b.secret AText salt username vText = .ok t' ∧
      SrpParty.combined t.proofValues = .ok m ∧ SrpParty.combined t'.proofValues = .ok m' ∧
      (m = m' ∨ m ≠ m' ∧ P.hash h m = P.hash h m')

/-- **The sessions are safe exactly when the client's public value is not wider than the group**, or is
refused as it is zero. -/
theorem sessionsSafe_iff (P : Primitives) (h : HashAlgorithm) (group : PrimeGroup) (username : String)
    {salt vText AText MText : String} (hsalt : validateHexString salt = true) (hv : validateHexString vText = true)
    (hA : validateHexString AText = true) (hM : validateHexString MText = true) {buffer : Vector UInt8 h.outputSize}
    {b : Ephemeral} (hb : (SrpServer.new h group).generateEphemeral P vText buffer = .ok b) :
    SessionsSafe P h group username salt vText AText MText b ↔
      AText.toList.length ≤ group.hexLength ∨ Hex.value AText.toList % (getParams group).n = 0 := by
  obtain ⟨hs, hsw⟩ := fromHex_validated hsalt
  obtain ⟨hv, -⟩ := fromHex_validated hv
  obtain ⟨hA, hAw⟩ := fromHex_validated hA
  obtain ⟨hM, -⟩ := fromHex_validated hM
  rw [SrpServer.generateEphemeral_eq hv] at hb
  obtain rfl := Except.ok.inj hb
  have hsecret := (whole_secret buffer).fromHex
  have hzero : (SrpInt.modulo ⟨Hex.value AText.toList, some AText.toList.length⟩ (SrpParty.new h group).n).isZero = true ↔
      Hex.value AText.toList % (getParams group).n = 0 := decide_eq_true_iff
  have hnonzero : (SrpInt.modulo ⟨Hex.value AText.toList, some AText.toList.length⟩ (SrpParty.new h group).n).isZero = false ↔
      ¬ Hex.value AText.toList % (getParams group).n = 0 := decide_eq_false_iff_not
  constructor
  · intro hsafe
    by_contra hwide
    rw [not_or, Nat.not_le] at hwide
    exact hsafe.server _ (SrpServer.deriveSession_of_wide hsecret hA hs hv hAw hwide.1 (hnonzero.mpr hwide.2))
  · intro hfits
    refine ⟨?_, fun accepted haccepted hz => ?_, fun password iterations => ?_, fun password iterations x hx buffer a ha => ?_,
      fun a x session hsession i hi hz => ?_, fun a x session accepted hsession haccepted hproof => ?_⟩
    · by_cases hA0 : Hex.value AText.toList % (getParams group).n = 0
      · exact .error (SrpServer.deriveSession_of_zero hsecret hA hs hv (hzero.mpr hA0))
      · have hrun := @SrpServer.deriveSession_of_le P h group _ _ _ _ _ _ _ _ _ _ _ _ username hsecret hA hs hsw hv hAw
          (hfits.resolve_right hA0) (hnonzero.mpr hA0) hM
        dsimp only at hrun
        split at hrun
        · exact .ok hrun
        · exact .error hrun
    · rw [SrpServer.deriveSession_of_zero hsecret hA hs hv (hzero.mpr hz)] at haccepted
      cases haccepted
    · obtain ⟨⟨x, hx⟩, hsafeKey⟩ := @SrpClient.privateKey_ok P h group _ username password iterations hsalt
      exact ⟨.ok hx, hsafeKey⟩
    · obtain ⟨x', hx'⟩ := SrpClient.fromHex_privateKey hx
      obtain rfl := Except.ok.inj ((SrpClient.generateEphemeral_eq buffer).symm.trans ha)
      rcases SrpClient.deriveSession_published hsalt (whole_secret buffer).fromHex hx' with ⟨-, hrun⟩ | ⟨session, hrun⟩
      · exact .error hrun
      · exact .ok hrun
    · obtain ⟨t, ht, -⟩ := Except.bind_ok_iff.1 hsession
      obtain ⟨a', -, ht⟩ := Except.bind_ok_iff.1 ht
      obtain ⟨B, hB, ht⟩ := Except.bind_ok_iff.1 ht
      obtain ⟨s', -, ht⟩ := Except.bind_ok_iff.1 ht
      obtain ⟨x', -, ht⟩ := Except.bind_ok_iff.1 ht
      obtain rfl : B = i := Except.ok.inj (hB.symm.trans hi)
      have hB0 : (B.modulo (SrpClient.new h group).n).isZero = true := decide_eq_true hz
      dsimp only at ht
      rw [if_pos hB0] at ht
      cases ht
    · subst hproof
      exact encodings_agree hsession haccepted

/-- A short public value. -/
theorem sessionsSafe_iff_short : ∃ b, (SrpServer.new .sha1 .G1024).generateEphemeral lastBytes "03" oneBuffer = .ok b ∧
    SessionsSafe lastBytes .sha1 .G1024 "name" "0a" "03" "02" "00" b := by
  have hv := (fromHex_validated (by decide +kernel : validateHexString "03" = true)).1
  have hb := @SrpServer.generateEphemeral_eq lastBytes .sha1 .G1024 _ _ hv oneBuffer
  exact ⟨_, hb, (sessionsSafe_iff lastBytes .sha1 .G1024 "name" (by decide +kernel) (by decide +kernel) (by decide +kernel)
    (by decide +kernel) hb).mpr (.inl (by decide +kernel))⟩

/-- **A public value with one byte more than the group makes the server panic**: the number 1, with zeros
before it. -/
theorem wide_public_value_panics : ∃ AText, validateHexString AText = true ∧ AText.toList.length = 1026 ∧
    ∀ P buffer b, (SrpServer.new .sha256 .G4096).generateEphemeral P "03" buffer = .ok b →
      (SrpServer.new .sha256 .G4096).deriveSession P b.secret AText "0a" "" "03" "00" =
        .error (.panicked "Cannot pad to shorter length") := by
  obtain ⟨digits, hdigits⟩ : ∃ digits : List Char, digits = List.replicate 1025 '0' ++ ['1'] := ⟨_, rfl⟩
  have hlength : digits.length = 1026 := by rw [hdigits, List.length_append, List.length_replicate, List.length_singleton]
  have hvalue : Hex.value digits = 1 := by
    rw [hdigits, Hex.value_append, Hex.value_replicate_zero]
    rfl
  have hhex : ∀ c ∈ digits, Hex.isHexDigit c = true := by
    intro c hc
    rw [hdigits, List.mem_append, List.mem_replicate, List.mem_singleton] at hc
    rcases hc with ⟨-, rfl⟩ | rfl
    · decide
    · decide
  have hvalid : validateHexString (String.ofList digits) = true := by
    simp only [validateHexString, String.toList_ofList, hlength, Bool.and_eq_true, Bool.not_eq_true', List.isEmpty_eq_false_iff,
      List.all_eq_true, decide_eq_true_eq]
    exact ⟨⟨List.ne_nil_of_length_pos (by omega), trivial⟩, hhex⟩
  refine ⟨String.ofList digits, hvalid, by rw [String.toList_ofList, hlength], fun P buffer b hb => ?_⟩
  obtain ⟨hA, hAw⟩ := fromHex_validated hvalid
  rw [String.toList_ofList, hvalue, hlength] at hA hAw
  have hs := (fromHex_validated (by decide +kernel : validateHexString "0a" = true)).1
  have hv := (fromHex_validated (by decide +kernel : validateHexString "03" = true)).1
  obtain rfl := Except.ok.inj ((SrpServer.generateEphemeral_eq hv buffer).symm.trans hb)
  have hwidth : PrimeGroup.hexLength .G4096 < 1026 := by decide
  have hnonzero : (SrpInt.modulo ⟨1, some 1026⟩ (SrpParty.new .sha256 .G4096).n).isZero = false := by decide +kernel
  exact SrpServer.deriveSession_of_wide (whole_secret buffer).fromHex hA hs hv hAw hwidth hnonzero

end Bittery.Srp6a
