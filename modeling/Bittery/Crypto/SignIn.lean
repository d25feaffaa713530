/-
An account from its registration to its sign-in: `generate_srp_registration` and `derive_client_session`, and what
`start_login` and `finish_login` of the server do with what they are sent.

The client keeps no key, so it derives them at each sign-in from what is entered.
-/
import Bittery.Crypto.KeyDerivation
import Bittery.Crypto.SrpAgreement

namespace Bittery.CryptoCore

open Lib Srp6a

/-- The server's side. -/
def srpServer : SrpServer := .new .sha256 .G4096

/-- What is sent in whole bytes is let in. -/
theorem validateHexString_text {w : Nat} {i : SrpInt} (h : i.Whole w) : validateHexString i.text = true := by
  simp only [validateHexString, SrpInt.text, h.hexLength, Option.getD_some, String.toList_ofList, Bool.and_eq_true,
    Bool.not_eq_true', List.isEmpty_eq_false_iff, decide_eq_true_eq, List.all_eq_true]
  exact ⟨⟨Hex.padded_ne_nil w i.value, by rw [Hex.length_padded h.pos h.lt]; exact Nat.even_iff.1 h.even⟩,
    Hex.isHexDigit_padded w i.value⟩

/-- **Who has registered signs in.** The server takes the registration. From the same password and
secret key, and the email in any spelling, the client derives the same keys again; the server
lets in what the client sends and accepts its proof, both hold one session key, and the client
accepts the server's proof. -/
theorem registration_signs_in (K : Kdf) (P : Primitives) {accountPassword secretKey email email' : String}
    {profile : CoreKdfProfile} {keys : DerivedKeys} (hkeys : deriveKeys K accountPassword secretKey email profile = .ok keys)
    (hemail : normalizeEmail K.text email' = normalizeEmail K.text email) (salt a b : Vector UInt8 HashAlgorithm.sha256.outputSize) :
    ∃ registration A B,
      generateSrpRegistration P salt (deriveSrpPassword keys.authKey) = .ok registration ∧
      validateHexString registration.salt = true ∧ validateHexString registration.verifier = true ∧
      deriveKeys K accountPassword secretKey email' profile = .ok keys ∧
      srpClient.generateEphemeral a = .ok A ∧ validateHexString A.public = true ∧
      srpServer.generateEphemeral P registration.verifier b = .ok B ∧
      (PublicNonZero .G4096 A → PublicNonZero .G4096 B → ∃ session accepted,
        deriveClientSession P A.secret ⟨registration.salt, B.public⟩ (deriveSrpPassword keys.authKey) = .ok session ∧
        validateHexString session.proof = true ∧
        srpServer.deriveSession P B.secret A.public registration.salt "" registration.verifier session.proof = .ok accepted ∧
        session.key = accepted.key ∧ srpClient.verifySession P A.public session accepted.proof = .ok ()) := by
  have hsalt : (SrpInt.random salt).Whole _ := whole_secret salt
  obtain ⟨x, hx⟩ : ∃ x, srpClient.deriveSafePrivateKey P (SrpInt.random salt).text (deriveSrpPassword keys.authKey) none = .ok x := by
    simp only [SrpClient.deriveSafePrivateKey, SrpInt.text, hsalt.hexLength, Option.getD_some, String.toList_ofList,
      hsalt.decode.1]
    exact ⟨_, rfl⟩
  obtain ⟨_, hv⟩ := SrpClient.deriveVerifier_of_derived (.inr hx : srpClient.derivePrivateKey P _ "" _ = _ ∨ _)
  obtain ⟨xi, hxi, rfl⟩ := SrpClient.deriveVerifier_eq_ok hv
  have hvw : (clientPublic .sha256 .G4096 xi).Whole _ := whole_clientPublic
  have hregistration : generateSrpRegistration P salt (deriveSrpPassword keys.authKey) =
      .ok ⟨(SrpInt.random salt).text, (clientPublic .sha256 .G4096 xi).text⟩ := by
    unfold generateSrpRegistration SrpClient.generateSalt
    exact Except.bind_ok_iff.2 ⟨_, hsalt.toHex, Except.bind_ok_iff.2 ⟨x, hx, Except.bind_ok_iff.2 ⟨_, hv, rfl⟩⟩⟩
  have hkeys' : deriveKeys K accountPassword secretKey email' profile = .ok keys := by
    simp only [deriveKeys, deriveMasterKey, deriveKeysFromMasterKey, hemail] at hkeys ⊢
    exact hkeys
  have hA : srpClient.generateEphemeral a = _ := SrpClient.generateEphemeral_eq a
  have hB : srpServer.generateEphemeral P (clientPublic .sha256 .G4096 xi).text b = _ := SrpServer.generateEphemeral_eq hvw.fromHex b
  refine ⟨_, _, _, hregistration, validateHexString_text hsalt, validateHexString_text hvw, hkeys', hA,
    validateHexString_text whole_clientPublic, hB, fun hA0 hB0 => ?_⟩
  have hclient := client_session_run "" hsalt.fromHex hsalt hxi (whole_secret a).fromHex (hB0.isZero whole_serverPublic .sha256)
  have hserver := server_session_run (P := P) "" hsalt.fromHex hsalt (whole_secret b).fromHex hvw
    (hA0.isZero whole_clientPublic .sha256) (clientTranscript P .sha256 .G4096 "" (.random salt) (.random a) xi
      (serverPublic P .sha256 .G4096 (clientPublic .sha256 .G4096 xi) (.random b)))
  rw [transcripts_agree] at hclient hserver
  have hsession : deriveClientSession P _ ⟨_, _⟩ (deriveSrpPassword keys.authKey) = _ := Except.bind_ok_iff.2 ⟨x, hx, hclient⟩
  have hverify := SrpClient.verifySession_eq (P := P) (h := .sha256)
    (t := serverTranscript P .sha256 .G4096 "" (.random salt) (.random b) (clientPublic .sha256 .G4096 xi)
      (clientPublic .sha256 .G4096 (.random a))) whole_clientPublic (SrpParty.whole_digest P _ _)
  exact ⟨_, _, hsession, validateHexString_text (whole_proofOf _), hserver.trans (if_pos rfl), rfl, hverify⟩

/-- The keys are zeros, and the email is entered with a space. -/
theorem registration_signs_in_ann : ∃ registration,
    generateSrpRegistration lastBytes (Vector.replicate 32 1) (deriveSrpPassword (Vector.replicate KEY_LENGTH 0)) = .ok registration ∧
      validateHexString registration.salt = true ∧ validateHexString registration.verifier = true := by
  obtain ⟨registration, -, -, h, hsalt, hverifier, -⟩ := @registration_signs_in
    ⟨⟨id, id⟩, fun _ _ _ => Vector.replicate KEY_LENGTH 0, fun _ _ _ => Vector.replicate KEY_LENGTH 0⟩ lastBytes
    "password" "secret" "ann@example.test" "ann@example.test " currentKdfProfile
    ⟨Vector.replicate KEY_LENGTH 0, Vector.replicate KEY_LENGTH 0⟩ (by rfl) (by decide +kernel)
    (Vector.replicate 32 1) (Vector.replicate 32 1) (Vector.replicate 32 1)
  exact ⟨registration, h, hsalt, hverifier⟩

end Bittery.CryptoCore
