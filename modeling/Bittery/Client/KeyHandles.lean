/-
The key handles of the account key ceremonies: what the crypto port makes, what is destroyed, and
what is handed to the account store or to the caller.

A ceremony waits for each of its commands, so a handle is in no call but the one that is waited for.
The port makes a new handle for each key; `destroyKey` retires a handle even when it rejects. The
store takes a key over unless `setMasterUnlockKey` rejects.
-/
import Bittery.Client.VaultCrypto
import Mathlib.Data.Finset.Basic
import Mathlib.Data.Finset.Filter

namespace Bittery

open Lib

/-! ## Runs of a ceremony -/

/-- What the port, the store and the server find a command to give. A new key is given by its
material. -/
def CeremonyCommand.Found (κ : Type) : CeremonyCommand → Type
  | newKey _ => κ
  | deriveKeysFromMasterKey _ _ => κ × κ
  | c => c.Answer

/-- What came of the keys that were made, which are numbered, and the payloads that were sent, the
last one first. -/
structure CeremonyState (κ : Type) where
  keys : List κ
  destroyed : List KeyRef
  stored : List KeyRef
  sent : List CommitPayload
deriving Repr

namespace CeremonyState

variable {κ : Type}

def initial : CeremonyState κ where
  keys := []
  destroyed := []
  stored := []
  sent := []

/-- A command is settled. -/
def settle (s : CeremonyState κ) : (c : CeremonyCommand) → Option (c.Found κ) → CeremonyState κ × Option c.Answer
  | .newKey _, some key => ({ s with keys := s.keys ++ ([key] : List κ) }, some ⟨s.keys.length⟩)
  | .newKey _, none => (s, none)
  | .deriveKeysFromMasterKey _ _, some (authKey, masterUnlockKey) =>
    ({ s with keys := s.keys ++ ([authKey, masterUnlockKey] : List κ) }, some ⟨⟨s.keys.length⟩, ⟨s.keys.length + 1⟩⟩)
  | .deriveKeysFromMasterKey _ _, none => (s, none)
  | .destroyKey _ key, found => ({ s with destroyed := key :: s.destroyed }, found)
  | .setMasterUnlockKey key _, some done => ({ s with stored := key :: s.stored }, some done)
  | .setMasterUnlockKey _ _, none => (s, none)
  | .commit payload, found => ({ s with sent := payload :: s.sent }, found)
  | .deriveSrpPassword _, found => (s, found)
  | .encryptMasterKey _ _ _, found => (s, found)
  | .encrypt _ _, found => (s, found)
  | .decrypt _ _, found => (s, found)
  | .encryptVaultKeyWithMuk _ _ _ _ _, found => (s, found)
  | .generateSrpRegistration _, found => (s, found)
  | .generateRsaKeyPair, found => (s, found)
  | .generateSecretKey, found => (s, found)
  | .generateRecoveryKey, found => (s, found)
  | .generateUuid, found => (s, found)
  | .validateRecoveryKey _, found => (s, found)
  | .getPinnedKdfProfile _, found => (s, found)
  | .getStoredSessionData _, found => (s, found)
  | .storePinnedKdfProfile _ _, found => (s, found)
  | .storeSecretKey _ _, found => (s, found)
  | .storeEncryptedPrivateKey _ _, found => (s, found)
  | .storeVaultKeys _ _, found => (s, found)
  | .storeSessionData _ _ _ _ _, found => (s, found)
  | .loadRecoveryData, found => (s, found)

/-- The keys that are neither destroyed nor the store's. -/
def live (s : CeremonyState κ) : Finset Nat :=
  (Finset.range s.keys.length).filter fun n => (⟨n⟩ : KeyRef) ∉ s.destroyed ∧ (⟨n⟩ : KeyRef) ∉ s.stored

/-- No key is destroyed or handed over twice, or before it was made. -/
def Once (s : CeremonyState κ) : Prop := ∀ key : KeyRef,
  s.destroyed.count key + s.stored.count key ≤ if key.id < s.keys.length then 1 else 0

end CeremonyState

/-- What the port, the store and the server would find, whatever the command. -/
abbrev Finds (κ : Type) := (c : CeremonyCommand) → Option (c.Found κ)

/-- A command that neither makes, destroys nor hands over a key. -/
def CeremonyCommand.sparesKeys : CeremonyCommand → Bool
  | newKey .. | deriveKeysFromMasterKey .. | destroyKey .. | setMasterUnlockKey .. => false
  | _ => true

/-- A `destroyKey` that may reject without a key being lost: in `deriveAccountKeys` the master key
is destroyed only after the unlock key has been, and where a `finally` destroys a key, the keys
made after it are lost if they are still there. -/
def DestroyCall.Harmless (live : Finset Nat) (key : KeyRef) : DestroyCall → Prop
  | .failedUnlockKey => False
  | .masterKey | .currentUnlockKey | .oldMasterKey | .oldUnlockKey => ∀ n ∈ live, n ≤ key.id
  | .authKey | .vaultKey | .nextUnlockKey | .committedUnlockKey | .recoveryUnlockKey | .oldAuthKey |
    .createdUnlockKey => True

namespace CeremonyState

variable {κ : Type}

def RejectsHarmlessly (s : CeremonyState κ) : (c : CeremonyCommand) → Option (c.Found κ) → Prop
  | .destroyKey site key, none => site.Harmless s.live key
  | _, _ => True

/-- A ceremony on its own: whatever is found, as long as no `destroyKey` rejects that loses a key. A
command is only given keys that are there. -/
def handles (κ : Type) : Contract (CeremonyState κ) CeremonyCommand (Finds κ) CeremonyCommand.Answer where
  inv := Once
  rely s t := s = t
  rely_refl _ := rfl
  rely_trans _ _ _ h h' := h.trans h'
  allowed _ s c found := s.RejectsHarmlessly c (found c)
  guar _ s c _ := ∀ key ∈ c.keys, key.id ∈ s.live

def perform (s : CeremonyState κ) (c : CeremonyCommand) (found : Finds κ) : Option (CeremonyState κ × Option c.Answer) :=
  some (s.settle c (found c))

/-- How many keys were made, and those that are there. -/
def part (s : CeremonyState κ) : Nat × Finset Nat := (s.keys.length, s.live)

/-! ## What a command does to the keys -/

variable {s : CeremonyState κ} {n : Nat} {key : KeyRef}

theorem mem_live : n ∈ s.live ↔ n < s.keys.length ∧ (⟨n⟩ : KeyRef) ∉ s.destroyed ∧ (⟨n⟩ : KeyRef) ∉ s.stored := by
  rw [live, Finset.mem_filter, Finset.mem_range]

/-- A key that was not made is nowhere. -/
theorem Once.notMem (h : s.Once) (hn : s.keys.length ≤ n) :
    (⟨n⟩ : KeyRef) ∉ s.destroyed ∧ (⟨n⟩ : KeyRef) ∉ s.stored := by
  have hnone := h ⟨n⟩
  rw [if_neg (Nat.not_lt.mpr hn)] at hnone
  exact ⟨List.count_eq_zero.mp (by omega), List.count_eq_zero.mp (by omega)⟩

theorem Once.made (h : s.Once) (ks : List κ) : Once { s with keys := s.keys ++ ks } := by
  intro key
  have hle : s.destroyed.count key + s.stored.count key ≤ if key.id < s.keys.length then 1 else 0 := h key
  refine Nat.le_trans hle ?_
  simp only [List.length_append]
  split
  · next hlt => rw [if_pos (by omega)]
  · exact Nat.zero_le _

theorem Once.mem_live_made (h : s.Once) (ks : List κ) (n : Nat) :
    n ∈ live { s with keys := s.keys ++ ks } ↔ n ∈ s.live ∨ (s.keys.length ≤ n ∧ n < s.keys.length + ks.length) := by
  simp only [mem_live, List.length_append]
  constructor
  · rintro ⟨hlt, hout⟩
    rcases Nat.lt_or_ge n s.keys.length with hold | hnew
    · exact .inl ⟨hold, hout⟩
    · exact .inr ⟨hnew, hlt⟩
  · rintro (⟨hlt, hout⟩ | ⟨hle, hlt⟩)
    · exact ⟨by omega, hout⟩
    · exact ⟨hlt, h.notMem hle⟩

theorem Once.part_newKey (h : s.Once) (key : κ) :
    part { s with keys := s.keys ++ [key] } = (s.keys.length + 1, insert s.keys.length s.live) := by
  refine Prod.ext (by simp [part]) ?_
  ext m
  simp only [part, h.mem_live_made [key], Finset.mem_insert, List.length_singleton]
  constructor
  · rintro (hold | ⟨hle, hlt⟩)
    · exact .inr hold
    · exact .inl (by omega)
  · rintro (rfl | hold)
    · exact .inr ⟨Nat.le_refl _, Nat.lt_succ_self _⟩
    · exact .inl hold

theorem Once.part_deriveKeys (h : s.Once) (authKey masterUnlockKey : κ) :
    part { s with keys := s.keys ++ [authKey, masterUnlockKey] } =
      (s.keys.length + 2, insert s.keys.length (insert (s.keys.length + 1) s.live)) := by
  refine Prod.ext (by simp [part]) ?_
  ext m
  simp only [part, h.mem_live_made [authKey, masterUnlockKey], Finset.mem_insert, List.length_cons, List.length_nil]
  constructor
  · rintro (hold | ⟨hle, hlt⟩)
    · exact .inr (.inr hold)
    · rcases Nat.lt_or_ge m (s.keys.length + 1) with h | h
      · exact .inl (by omega)
      · exact .inr (.inl (by omega))
  · rintro (rfl | rfl | hold)
    · exact .inr ⟨by omega, by omega⟩
    · exact .inr ⟨by omega, by omega⟩
    · exact .inl hold

/-- A key that is there is destroyed. -/
theorem Once.destroyed (h : s.Once) (hkey : key.id ∈ s.live) : Once { s with destroyed := key :: s.destroyed } := by
  obtain ⟨hlt, hdestroyed, hstored⟩ := mem_live.mp hkey
  intro key'
  by_cases hne : key' = key
  · subst hne
    simp [hlt, List.count_eq_zero.mpr hdestroyed, List.count_eq_zero.mpr hstored]
  · simpa [List.count_cons_of_ne (Ne.symm hne)] using h key'

theorem Once.stored (h : s.Once) (hkey : key.id ∈ s.live) : Once { s with stored := key :: s.stored } := by
  obtain ⟨hlt, hdestroyed, hstored⟩ := mem_live.mp hkey
  intro key'
  by_cases hne : key' = key
  · subst hne
    simp [hlt, List.count_eq_zero.mpr hdestroyed, List.count_eq_zero.mpr hstored]
  · simpa [List.count_cons_of_ne (Ne.symm hne)] using h key'

theorem live_destroyed (s : CeremonyState κ) (key : KeyRef) :
    live { s with destroyed := key :: s.destroyed } = s.live.erase key.id := by
  ext n
  obtain ⟨id⟩ := key
  simp only [mem_live, Finset.mem_erase, List.mem_cons, not_or, KeyRef.mk.injEq]
  tauto

theorem live_stored (s : CeremonyState κ) (key : KeyRef) :
    live { s with stored := key :: s.stored } = s.live.erase key.id := by
  ext n
  obtain ⟨id⟩ := key
  simp only [mem_live, Finset.mem_erase, List.mem_cons, not_or, KeyRef.mk.injEq]
  tauto

theorem settle_spares {c : CeremonyCommand} (hc : c.sparesKeys = true) (found : Option (c.Found κ)) :
    (s.settle c found).1.keys = s.keys ∧ (s.settle c found).1.destroyed = s.destroyed ∧
      (s.settle c found).1.stored = s.stored := by
  cases c with
  | newKey | deriveKeysFromMasterKey | destroyKey | setMasterUnlockKey => cases hc
  | _ => exact ⟨rfl, rfl, rfl⟩

theorem live_congr {t : CeremonyState κ} (hkeys : t.keys = s.keys) (hdestroyed : t.destroyed = s.destroyed)
    (hstored : t.stored = s.stored) : t.live = s.live := by
  ext n
  rw [mem_live, mem_live, hkeys, hdestroyed, hstored]

theorem Once.congr {t : CeremonyState κ} (h : s.Once) (hkeys : t.keys = s.keys) (hdestroyed : t.destroyed = s.destroyed)
    (hstored : t.stored = s.stored) : t.Once := by
  intro key
  rw [hkeys, hdestroyed, hstored]
  exact h key

end CeremonyState

open CeremonyState Ceremony

/-! ## What a command of a ceremony does -/

section

variable {κ α β : Type} {n : Nat} {F : Finset Nat}

/-- From a state with `n` keys made and those in `F` there, a ceremony ends with `Q`. -/
abbrev Leaves (κ : Type) (Q : Option α → Nat × Finset Nat → Prop) (p : Ceremony α) (n : Nat) (F : Finset Nat) : Prop :=
  Does (handles κ) perform part Q p (n, F)

theorem part_stable (s t : CeremonyState κ) (h : (handles κ).rely s t) : part t = part s := by
  obtain rfl : s = t := h
  rfl

theorem leaves_newKey {source : KeySource} {Q : Option KeyRef → Nat × Finset Nat → Prop}
    (hkeys : ∀ key ∈ source.keys, key.id ∈ F) (hsome : Q (some ⟨n⟩) (n + 1, insert n F)) (hnone : Q none (n, F)) :
    Leaves κ Q (call (.newKey source)) n F := by
  refine does_await part_stable fun seen s hinv hs found t x hallowed hperform => ?_
  obtain ⟨rfl, rfl⟩ : s.keys.length = n ∧ s.live = F := Prod.mk.inj hs
  obtain ⟨rfl, rfl⟩ := Prod.mk.inj (Option.some.inj hperform)
  refine ⟨fun key hkey => hkeys key hkey, ?_⟩
  cases found (.newKey source) with
  | none => exact ⟨hinv, hnone⟩
  | some key =>
    have hpart := Once.part_newKey hinv key
    rw [← hpart] at hsome
    exact ⟨Once.made hinv [key], hsome⟩

theorem leaves_deriveKeys {masterKey : KeyRef} {email : String} {Q : Option DerivedKeyRefs → Nat × Finset Nat → Prop}
    (hkey : masterKey.id ∈ F) (hsome : Q (some ⟨⟨n⟩, ⟨n + 1⟩⟩) (n + 2, insert n (insert (n + 1) F)))
    (hnone : Q none (n, F)) : Leaves κ Q (call (.deriveKeysFromMasterKey masterKey email)) n F := by
  refine does_await part_stable fun seen s hinv hs found t x hallowed hperform => ?_
  obtain ⟨rfl, rfl⟩ : s.keys.length = n ∧ s.live = F := Prod.mk.inj hs
  obtain ⟨rfl, rfl⟩ := Prod.mk.inj (Option.some.inj hperform)
  refine ⟨fun key hkey' => List.mem_singleton.mp hkey' ▸ hkey, ?_⟩
  cases found (.deriveKeysFromMasterKey masterKey email) with
  | none => exact ⟨hinv, hnone⟩
  | some ks =>
    obtain ⟨authKey, masterUnlockKey⟩ : κ × κ := ks
    have hpart := Once.part_deriveKeys hinv authKey masterUnlockKey
    rw [← hpart] at hsome
    exact ⟨Once.made hinv [authKey, masterUnlockKey], hsome⟩

/-- A key is destroyed, even by a call that rejects. -/
theorem leaves_destroy {site : DestroyCall} {key : KeyRef} {Q : Option PUnit → Nat × Finset Nat → Prop}
    (hkey : key.id ∈ F) (hsome : Q (some ⟨⟩) (n, F.erase key.id))
    (hnone : site.Harmless F key → Q none (n, F.erase key.id)) : Leaves κ Q (destroy site key) n F := by
  refine Does.bind (Q := fun r w => w = (n, F.erase key.id) ∧ (r = none → site.Harmless F key)) ?_
    (fun _ w hw => does_ret part_stable (hw.1 ▸ hsome)) (fun w hw => hw.1 ▸ hnone (hw.2 rfl))
  refine does_await part_stable fun seen s hinv hs found t x hallowed hperform => ?_
  obtain ⟨rfl, rfl⟩ : s.keys.length = n ∧ s.live = F := Prod.mk.inj hs
  obtain ⟨rfl, rfl⟩ := Prod.mk.inj (Option.some.inj hperform)
  refine ⟨fun key' hkey' => List.mem_singleton.mp hkey' ▸ hkey, Once.destroyed hinv hkey, ?_, fun hx => ?_⟩
  · exact Prod.ext rfl (live_destroyed s key)
  · have hfound : found (.destroyKey site key) = none := hx
    simpa [handles, RejectsHarmlessly, hfound] using hallowed

/-- A key is handed to the store. -/
theorem leaves_setMasterUnlockKey {key : KeyRef} {accountId : String} {Q : Option Unit → Nat × Finset Nat → Prop}
    (hkey : key.id ∈ F) (hsome : Q (some ()) (n, F.erase key.id)) (hnone : Q none (n, F)) :
    Leaves κ Q (call (.setMasterUnlockKey key accountId)) n F := by
  refine does_await part_stable fun seen s hinv hs found t x hallowed hperform => ?_
  obtain ⟨rfl, rfl⟩ : s.keys.length = n ∧ s.live = F := Prod.mk.inj hs
  obtain ⟨rfl, rfl⟩ := Prod.mk.inj (Option.some.inj hperform)
  refine ⟨fun key' hkey' => List.mem_singleton.mp hkey' ▸ hkey, ?_⟩
  cases found (.setMasterUnlockKey key accountId) with
  | none => exact ⟨hinv, hnone⟩
  | some done =>
    have hpart : part { s with stored := key :: s.stored } = (s.keys.length, s.live.erase key.id) :=
      Prod.ext rfl (live_stored s key)
    rw [← hpart] at hsome
    exact ⟨Once.stored hinv hkey, hsome⟩

/-- The commands that only use keys that are there. -/
def Uses (F : Finset Nat) (c : CeremonyCommand) : Prop := c.sparesKeys = true ∧ ∀ key ∈ c.keys, key.id ∈ F

theorem leaves_of_uses {p : Ceremony α} (hp : p.Uses (Uses F)) : Leaves κ (fun _ w => w = (n, F)) p n F := by
  refine does_of_uses part_stable hp fun seen s c found t x hc hinv hs hallowed hperform => ?_
  obtain ⟨rfl, rfl⟩ := Prod.mk.inj (Option.some.inj hperform)
  obtain ⟨hkeys, hdestroyed, hstored⟩ := settle_spares (s := s) hc.1 (found c)
  have hlive : s.live = F := (Prod.mk.inj hs).2
  refine ⟨fun key hkey => hlive ▸ hc.2 key hkey, Once.congr hinv hkeys hdestroyed hstored, ?_⟩
  have hpart : part (s.settle c (found c)).1 = part s := Prod.ext (congrArg List.length hkeys) (live_congr hkeys hdestroyed hstored)
  exact hpart.trans hs

/-! ## What a ceremony returns -/

/-- Of the keys made since `n`, only `key` is there, beside those in `F`. -/
def Gives (n : Nat) (F : Finset Nat) : Option KeyRef → Nat × Finset Nat → Prop
  | none, w => n ≤ w.1 ∧ w.2 = F
  | some key, w => n ≤ key.id ∧ key.id < w.1 ∧ w.2 = insert key.id F

/-- From `m` keys and those in `G`, the ceremony ends with the key it returns, if it does return, as the
only one made since `n` that is there beside those in `F`. -/
abbrev ReturnsTo (κ : Type) (n : Nat) (F : Finset Nat) (key : α → Option KeyRef) (p : Ceremony α) (m : Nat)
    (G : Finset Nat) : Prop := Leaves κ (fun r w => Gives n F (r.bind key) w) p m G

/-- The ceremony leaves nothing behind but the key it returns, if it does return. -/
abbrev Returns (κ : Type) (key : α → Option KeyRef) (p : Ceremony α) (n : Nat) (F : Finset Nat) : Prop :=
  ReturnsTo κ n F key p n F

/-- A key that was made later than those in `F`. -/
theorem notMem_of_made {key : KeyRef} (hF : ∀ x ∈ F, x < n) (hle : n ≤ key.id) : key.id ∉ F :=
  fun h => Nat.lt_irrefl _ (Nat.lt_of_lt_of_le (hF _ h) hle)

theorem lt_of_mem_insert {m : Nat} {key : KeyRef} (hF : ∀ x ∈ F, x < n) (hle : n ≤ key.id) (hlt : key.id < m) :
    ∀ x ∈ insert key.id F, x < m := by
  intro x hx
  rcases Finset.mem_insert.mp hx with rfl | hx
  · exact hlt
  · have := hF x hx
    omega

theorem Gives.mono {m : Nat} {key : Option KeyRef} {w : Nat × Finset Nat} (h : Gives m F key w) (hle : n ≤ m) :
    Gives n F key w := by
  cases key with
  | none => exact ⟨Nat.le_trans hle h.1, h.2⟩
  | some key => exact ⟨Nat.le_trans hle h.1, h.2⟩

theorem returns_ret {key : α → Option KeyRef} {a : α} (h : key a = none) : Returns κ key (.ret a) n F :=
  does_ret part_stable (by simp [Gives, h])

theorem returns_throw {key : α → Option KeyRef} : Returns κ key .throw n F :=
  does_throw part_stable ⟨Nat.le_refl n, rfl⟩

theorem returns_of_uses {p : Ceremony α} (hp : p.Uses (Uses F)) : Returns κ (fun _ => none) p n F :=
  (leaves_of_uses hp).mono fun r w hw => by
    subst hw
    cases r with
    | none => exact ⟨Nat.le_refl n, rfl⟩
    | some a => exact ⟨Nat.le_refl n, rfl⟩

/-- A command that only uses keys that are there. -/
theorem returns_call {c : CeremonyCommand} (hc : c.sparesKeys = true) (hkeys : ∀ key ∈ c.keys, key.id ∈ F) :
    Returns κ (fun _ => none) (call c) n F :=
  returns_of_uses (Async.uses_await ⟨hc, hkeys⟩)

theorem returns_check {check' : Except String α} : Returns κ (fun _ => none) (check check') n F := by
  cases check' with
  | ok a => exact returns_ret rfl
  | error e => exact returns_throw

theorem returns_parse {text : SealedText} : Returns κ (fun _ => none) (parseEncryptedData text) n F := by
  cases text with
  | some data => exact returns_ret rfl
  | none => exact returns_throw

/-- A ceremony that goes on after a part that leaves nothing behind. -/
theorem ReturnsTo.bind {p : Ceremony α} {f : α → Ceremony β} {key : β → Option KeyRef} {n' : Nat} {G : Finset Nat}
    (hp : ReturnsTo κ n F (fun _ => none) p n' G) (hf : ∀ a m, n ≤ m → Returns κ key (f a) m F) :
    ReturnsTo κ n F key (p.bind f) n' G := by
  refine Does.bind hp (fun a w hw => ?_) (fun w hw => hw)
  obtain ⟨m, H⟩ := w
  obtain ⟨hle, rfl⟩ : n ≤ m ∧ H = F := hw
  exact (hf a m hle).mono fun r w hw => hw.mono hle

/-- A ceremony that goes on in another way after a part that leaves nothing behind. -/
theorem ReturnsTo.thenLeaves {p : Ceremony α} {f : α → Ceremony β} {Q : Option β → Nat × Finset Nat → Prop} {n' : Nat}
    {G : Finset Nat} (hp : ReturnsTo κ n F (fun _ => none) p n' G) (hf : ∀ a m, n ≤ m → Leaves κ Q (f a) m F)
    (hnone : ∀ m, n ≤ m → Q none (m, F)) : Leaves κ Q (p.bind f) n' G := by
  refine Does.bind hp (fun a w hw => ?_) (fun w hw => ?_)
  · obtain ⟨m, H⟩ := w
    obtain ⟨hle, rfl⟩ : n ≤ m ∧ H = F := hw
    exact hf a m hle
  · obtain ⟨m, H⟩ := w
    obtain ⟨hle, rfl⟩ : n ≤ m ∧ H = F := hw
    exact hnone m hle

/-- A ceremony that goes on with a key of its own. -/
theorem ReturnsTo.bindKey {p : Ceremony α} {f : α → Ceremony β} {own : α → KeyRef} {key : β → Option KeyRef} {n' : Nat}
    {G : Finset Nat} (hp : ReturnsTo κ n F (fun a => some (own a)) p n' G)
    (hf : ∀ a m, n ≤ (own a).id → (own a).id < m →
      ReturnsTo κ n F key (f a) m (insert (own a).id F)) :
    ReturnsTo κ n F key (p.bind f) n' G := by
  refine Does.bind hp (fun a w hw => ?_) (fun w hw => hw)
  obtain ⟨m, H⟩ := w
  obtain ⟨hle, hlt, rfl⟩ : n ≤ (own a).id ∧ (own a).id < m ∧ H = insert (own a).id F := hw
  exact hf a m hle hlt

theorem returns_newKey {source : KeySource} (hkeys : ∀ key ∈ source.keys, key.id ∈ F) :
    Returns κ some (call (.newKey source)) n F :=
  leaves_newKey hkeys ⟨Nat.le_refl n, Nat.lt_succ_self n, rfl⟩ ⟨Nat.le_refl n, rfl⟩

/-- A key that a `finally` destroys, however its body ends. When the body returns another key, the
`finally` has to be one that does not reject then. -/
theorem ReturnsTo.always {p : Ceremony α} (key : α → Option KeyRef) {site : DestroyCall} {own : KeyRef}
    {n' : Nat} {G : Finset Nat} (hp : ReturnsTo κ n (insert own.id F) key p n' G) (hlt : own.id < n) (hnew : own.id ∉ F)
    (hguard : (∀ a, key a = none) ∨ ∀ H, site.Harmless H own → ∀ x ∈ H, x ≤ own.id) :
    ReturnsTo κ n F key (p.always (destroy site own)) n' G := by
  have herase : (insert own.id F).erase own.id = F := Finset.erase_insert hnew
  have hgone : ∀ w, Gives n (insert own.id F) none w →
      Leaves κ (fun (_ : Option PUnit) w => Gives n F none w) (destroy site own) w.1 w.2 := by
    rintro ⟨m, H⟩ ⟨hle, rfl⟩
    have : Gives n F none (m, (insert own.id F).erase own.id) := ⟨hle, herase⟩
    exact leaves_destroy (Finset.mem_insert_self ..) this fun _ => this
  refine Does.always part_stable hp (fun a w hw => ?_) fun w hw => hgone w hw
  cases hkey : key a with
  | none =>
    simp only [Option.bind_some, hkey] at hw
    refine (hgone w hw).mono fun r w hr => ?_
    cases r with
    | none => exact hr
    | some _ => simpa [hkey] using hr
  | some other =>
    simp only [Option.bind_some, hkey] at hw
    obtain ⟨m, H⟩ := w
    obtain ⟨hother, hlt', rfl⟩ : n ≤ other.id ∧ other.id < m ∧ H = insert other.id (insert own.id F) := hw
    refine leaves_destroy (by simp) ?_ fun hharmless => ?_
    · have : (insert other.id (insert own.id F)).erase own.id = insert other.id F := by
        rw [Finset.erase_insert_of_ne (by omega), herase]
      simp only [Option.map_some, Option.bind_some, hkey]
      exact ⟨hother, hlt', this⟩
    · rcases hguard with hnone | hguard
      · rw [hnone a] at hkey
        cases hkey
      · have := hguard _ hharmless other.id (Finset.mem_insert_self ..)
        omega

/-- A key that is destroyed when its body rejects, and is handed on otherwise. -/
theorem ReturnsTo.onThrow {p : Ceremony α} {key : α → KeyRef} {site : DestroyCall} {own : KeyRef} {k m n' : Nat}
    {G : Finset Nat} (hp : ReturnsTo κ m (insert own.id F) (fun _ => none) p n' G) (hends : p.Ends fun a => key a = own) (hk : k ≤ own.id)
    (hlt : own.id < m) (hnew : own.id ∉ F) :
    ReturnsTo κ k F (fun a => some (key a)) (p.onThrow (destroy site own)) n' G := by
  refine Does.onThrow part_stable (Does.ends hp hends) (fun a w hw => ?_) fun w hw => ?_
  · obtain ⟨hgives, hown⟩ := hw
    have : key a = own := hown a rfl
    rw [Option.bind_some, this]
    exact ⟨hk, Nat.lt_of_lt_of_le hlt hgives.1, hgives.2⟩
  · obtain ⟨m', H⟩ := w
    obtain ⟨hle, rfl⟩ : m ≤ m' ∧ H = insert own.id F := hw.1
    have : Gives k F none (m', (insert own.id F).erase own.id) := ⟨by omega, Finset.erase_insert hnew⟩
    exact leaves_destroy (Finset.mem_insert_self ..) this fun _ => this

/-! ## The keys of an account -/

theorem returns_pinnedProfile (accountId : Option String) : Returns κ (fun _ => none) (pinnedProfile accountId) n F := by
  unfold pinnedProfile
  split
  · exact returns_call rfl (by simp [CeremonyCommand.keys])
  · exact returns_ret rfl

theorem returns_sealMasterKey {masterKey : KeyRef} (input : DeriveAccountKeysInput) (hmaster : masterKey.id ∈ F) :
    Returns κ (fun _ => none) (sealMasterKey masterKey input) n F := by
  unfold sealMasterKey
  split
  · exact ReturnsTo.bind (returns_call rfl (by simp [CeremonyCommand.keys, hmaster])) fun _ _ _ => returns_ret rfl
  · exact returns_ret rfl

/-- The authentication key is destroyed, and the others stay. -/
theorem returns_finishDerivation {input : DeriveAccountKeysInput} {masterKey : KeyRef} {derivedKeys : DerivedKeyRefs}
    (hmaster : masterKey.id ∈ F) (hlt : derivedKeys.authKey.id < n) (hnew : derivedKeys.authKey.id ∉ F) :
    Leaves κ (fun _ w => Gives n F none w) (finishDerivation input masterKey derivedKeys) n
      (insert derivedKeys.authKey.id F) := by
  have hsrp : Leaves κ (fun (_ : Option String) w => Gives n F none w)
      ((call (.deriveSrpPassword derivedKeys.authKey)).always (destroy .authKey derivedKeys.authKey)) n
      (insert derivedKeys.authKey.id F) := by
    have hcall : Returns κ (fun _ => none) (call (.deriveSrpPassword derivedKeys.authKey)) n
        (insert derivedKeys.authKey.id F) := returns_call rfl (by simp [CeremonyCommand.keys])
    refine (hcall.always _ hlt hnew (.inl fun _ => rfl)).mono fun r w hw => ?_
    cases r <;> exact hw
  refine Does.bind hsrp (fun srpPassword w hw => ?_) (fun w hw => hw)
  obtain ⟨m, G⟩ := w
  obtain ⟨hle, rfl⟩ : n ≤ m ∧ G = F := hw
  refine Does.bind (returns_sealMasterKey input hmaster) (fun encryptedMasterKey w hw => ?_) fun w hw => Gives.mono hw hle
  exact does_ret part_stable (Gives.mono hw hle)

theorem ends_finishDerivation (input : DeriveAccountKeysInput) (masterKey : KeyRef) (derivedKeys : DerivedKeyRefs) :
    (finishDerivation input masterKey derivedKeys).Ends fun d => d.masterUnlockKey = derivedKeys.masterUnlockKey :=
  Async.ends_bind fun _ => Async.ends_bind fun encryptedMasterKey => by exact rfl

/-- **The derivation of the account's keys leaves the unlock key that it returns.** -/
theorem returns_deriveAccountKeys (input : DeriveAccountKeysInput) (hF : ∀ x ∈ F, x < n) :
    Returns κ (fun d => some d.masterUnlockKey) (deriveAccountKeys input) n F := by
  refine ReturnsTo.bind (returns_pinnedProfile _) fun pinned n₁ hn₁ => ?_
  refine ReturnsTo.bind returns_check fun _ n₂ hn₂ => ?_
  refine ReturnsTo.bindKey (returns_newKey (by simp [KeySource.keys])) fun masterKey n₃ hmaster hlt₃ => ?_
  have hle : n ≤ masterKey.id := by omega
  have hF₃ := lt_of_mem_insert hF hle hlt₃
  have hnew := notMem_of_made hF hle
  have hgone : ∀ m, n₃ ≤ m → Leaves κ (fun (_ : Option PUnit) w => Gives n₂ F none w) (destroy .masterKey masterKey) m
      (insert masterKey.id F) := by
    intro m hle
    have : Gives n₂ F none (m, (insert masterKey.id F).erase masterKey.id) := ⟨by omega, Finset.erase_insert hnew⟩
    exact leaves_destroy (Finset.mem_insert_self ..) this fun _ => this
  -- the keys derived from the master key: if there are none, the master key is destroyed
  have hderive : Leaves κ (fun r w => match r with
      | some derivedKeys => derivedKeys = ⟨⟨n₃⟩, ⟨n₃ + 1⟩⟩ ∧
          w = (n₃ + 2, insert n₃ (insert (n₃ + 1) (insert masterKey.id F)))
      | none => w = (n₃, insert masterKey.id F)) (call (.deriveKeysFromMasterKey masterKey input.email)) n₃
      (insert masterKey.id F) := leaves_deriveKeys (Finset.mem_insert_self ..) ⟨rfl, rfl⟩ rfl
  have hderive' : Leaves κ (fun r w => match r with
      | some derivedKeys => derivedKeys = ⟨⟨n₃⟩, ⟨n₃ + 1⟩⟩ ∧
          w = (n₃ + 2, insert n₃ (insert (n₃ + 1) (insert masterKey.id F)))
      | none => Gives n₂ F none w)
      ((call (.deriveKeysFromMasterKey masterKey input.email)).onThrow (destroy .masterKey masterKey)) n₃
      (insert masterKey.id F) :=
    Does.onThrow part_stable hderive (fun _ _ hw => hw) fun w hw => hw ▸ hgone n₃ (Nat.le_refl _)
  refine Does.bind hderive' (fun derivedKeys w hw => ?_) fun w hw => hw
  obtain ⟨rfl, rfl⟩ := hw
  -- the unlock key and the master key stay when the derivation is finished
  have hauth : n₃ ∉ insert (n₃ + 1) (insert masterKey.id F) := by
    intro h
    rcases Finset.mem_insert.mp h with h | h
    · omega
    · have := hF₃ n₃ h
      omega
  have hunlock : n₃ + 1 ∉ insert masterKey.id F := fun h => by
    have := hF₃ _ h
    omega
  have hfinish : Leaves κ (fun r w => Gives (n₃ + 2) (insert (n₃ + 1) (insert masterKey.id F)) none w ∧
      ∀ d ∈ r, d.masterUnlockKey = ⟨n₃ + 1⟩) (finishDerivation input masterKey ⟨⟨n₃⟩, ⟨n₃ + 1⟩⟩) (n₃ + 2)
      (insert n₃ (insert (n₃ + 1) (insert masterKey.id F))) :=
    Does.ends (returns_finishDerivation (by simp) (by simp) hauth) (ends_finishDerivation input masterKey _)
  have hfinish' : Leaves κ (fun r w => match r with
      | some d => d.masterUnlockKey = ⟨n₃ + 1⟩ ∧ n₃ + 2 ≤ w.1 ∧ w.2 = insert (n₃ + 1) (insert masterKey.id F)
      | none => Gives n₂ F none w)
      ((finishDerivation input masterKey ⟨⟨n₃⟩, ⟨n₃ + 1⟩⟩).onThrow do
        destroy .failedUnlockKey ⟨n₃ + 1⟩
        destroy .masterKey masterKey) (n₃ + 2) (insert n₃ (insert (n₃ + 1) (insert masterKey.id F))) := by
    refine Does.onThrow part_stable hfinish (fun d w hw => ⟨hw.2 d rfl, hw.1⟩) fun w hw => ?_
    obtain ⟨m, G⟩ := w
    obtain ⟨hle, rfl⟩ : n₃ + 2 ≤ m ∧ G = insert (n₃ + 1) (insert masterKey.id F) := hw.1
    -- the unlock key is destroyed by a call that does not reject, and so is the master key
    refine Does.bind (Q := fun r w => r ≠ none ∧ w = (m, insert masterKey.id F)) ?_ (fun _ w hw => ?_)
      fun _ hw => absurd rfl hw.1
    · refine leaves_destroy (by simp) ⟨by simp, ?_⟩ fun h => h.elim
      exact Prod.ext rfl (Finset.erase_insert hunlock)
    · obtain ⟨-, rfl⟩ := hw
      exact hgone m (by omega)
  refine Does.bind hfinish' (fun d w hw => ?_) fun w hw => hw
  obtain ⟨m, G⟩ := w
  obtain ⟨hd, hle, rfl⟩ : d.masterUnlockKey = ⟨n₃ + 1⟩ ∧ n₃ + 2 ≤ m ∧ G = insert (n₃ + 1) (insert masterKey.id F) := hw
  -- the unlock key was made after the master key, whose destruction does not reject then
  have herase : (insert (n₃ + 1) (insert masterKey.id F)).erase masterKey.id = insert (n₃ + 1) F := by
    rw [Finset.erase_insert_of_ne (by omega), Finset.erase_insert hnew]
  refine Does.bind (Q := fun r w => r ≠ none ∧ w = (m, insert (n₃ + 1) F)) ?_ (fun _ w hw => ?_)
    fun _ hw => absurd rfl hw.1
  · refine leaves_destroy (by simp) ⟨by simp, Prod.ext rfl herase⟩ fun hharmless => ?_
    have := hharmless (n₃ + 1) (by simp)
    omega
  · obtain ⟨-, rfl⟩ := hw
    refine does_ret part_stable ?_
    rw [Option.bind_some, hd]
    exact ⟨by simp only; omega, by simp only; omega, rfl⟩

/-! ## Vault keys -/

theorem returns_unwrapVaultKey {encryptedVaultKey : EncryptedVaultKey} {masterUnlockKey : KeyRef}
    {encryptedPrivateKey : Option SealedText} {expectedVaultId expectedUserId : Option String}
    (hkey : masterUnlockKey.id ∈ F) :
    Returns κ some (unwrapVaultKey encryptedVaultKey masterUnlockKey encryptedPrivateKey expectedVaultId expectedUserId)
      n F := by
  unfold unwrapVaultKey
  split
  · exact returns_check.bind fun _ _ _ => returns_newKey (by simp [KeySource.keys, hkey])
  · split
    · exact returns_throw
    · exact returns_parse.bind fun _ _ _ => returns_newKey (by simp [KeySource.keys, hkey])

/-- A vault key is opened, wrapped again, and destroyed. -/
theorem returns_rewrapVaultKey {userId : String} {current next : KeyRef} {entry : WrappedVaultKeyRecord}
    (hcurrent : current.id ∈ F) (hnext : next.id ∈ F) (hF : ∀ x ∈ F, x < n) :
    Returns κ (fun _ => none) (rewrapVaultKey userId current next entry) n F := by
  refine ReturnsTo.bindKey (returns_unwrapVaultKey hcurrent) fun vaultKey m hle hlt => ?_
  have hnew := notMem_of_made hF hle
  have hbody : Returns κ (fun _ => none) (do
      let keyVersion ← check (ownerWrapKeyVersion entry.encryptedVaultKey)
      wrapVaultKeyForOwner vaultKey next entry.vaultId userId keyVersion) m (insert vaultKey.id F) :=
    returns_check.bind fun _ _ _ => returns_call rfl (by simp [CeremonyCommand.keys, hnext])
  refine Does.bind (hbody.always _ hlt hnew (.inl fun _ => rfl)) (fun _ w hw => does_ret part_stable ?_) fun w hw => ?_
  · exact Gives.mono hw (by omega)
  · exact Gives.mono hw (by omega)

theorem returns_rewrapVaultKeys {userId : String} {current next : KeyRef} (entries : List WrappedVaultKeyRecord)
    (hcurrent : current.id ∈ F) (hnext : next.id ∈ F) (hF : ∀ x ∈ F, x < n) :
    Returns κ (fun _ => none) (rewrapVaultKeys userId current next entries) n F := by
  induction entries generalizing n with
  | nil => exact returns_ret rfl
  | cons entry rest ih =>
    have hlater : ∀ m, n ≤ m → ∀ x ∈ F, x < m := fun m hle x hx => Nat.lt_of_lt_of_le (hF x hx) hle
    unfold rewrapVaultKeys
    split
    · refine (returns_rewrapVaultKey hcurrent hnext hF).bind fun _ m hle => ?_
      exact (ih (hlater m hle)).bind fun _ _ _ => returns_ret rfl
    · exact (ih hF).bind fun _ _ _ => returns_ret rfl

theorem returns_decryptPrivateKey {encryptedPrivateKey : SealedText} {masterUnlockKey : KeyRef}
    (hkey : masterUnlockKey.id ∈ F) : Returns κ (fun _ => none) (decryptPrivateKey encryptedPrivateKey masterUnlockKey) n F :=
  returns_parse.bind fun _ _ _ => returns_call rfl (by simp [CeremonyCommand.keys, hkey])

/-! ## The re-key ceremonies -/

theorem returns_reKeyUnder {input : ReKeyInput} {privateKeyPem : String} {current : KeyRef} {next : DerivedAccountKeys}
    (hcurrent : current.id ∈ F) (hnext : next.masterUnlockKey.id ∈ F) (hF : ∀ x ∈ F, x < n) :
    Returns κ (fun _ => none) (reKeyUnder input privateKeyPem current next) n F := by
  refine ReturnsTo.bind (returns_call rfl (by simp [CeremonyCommand.keys])) fun _ n₁ hn₁ => ?_
  refine ReturnsTo.bind (returns_call rfl (by simp [CeremonyCommand.keys, hnext])) fun _ n₂ hn₂ => ?_
  refine ReturnsTo.bind (returns_rewrapVaultKeys input.vaultKeys hcurrent hnext fun x hx => ?_) fun _ _ _ => returns_ret rfl
  have := hF x hx
  omega

theorem ends_reKeyUnder (input : ReKeyInput) (privateKeyPem : String) (current : KeyRef) (next : DerivedAccountKeys) :
    (reKeyUnder input privateKeyPem current next).Ends fun r => r.masterUnlockKey = next.masterUnlockKey :=
  Async.ends_bind fun _ => Async.ends_bind fun _ => Async.ends_bind fun _ => by exact rfl

/-- **The body of the re-key ceremonies leaves the next unlock key, which it returns.** -/
theorem returns_reKeyAccount (input : ReKeyInput) (hF : ∀ x ∈ F, x < n) :
    Returns κ (fun r => some r.masterUnlockKey) (reKeyAccount input) n F := by
  refine ReturnsTo.bind (returns_call rfl (by simp [CeremonyCommand.keys])) fun currentProfile n₁ hn₁ => ?_
  cases currentProfile with
  | none => exact returns_throw
  | some currentProfile =>
    refine ReturnsTo.bindKey (returns_deriveAccountKeys _ fun x hx => Nat.lt_of_lt_of_le (hF x hx) hn₁)
      fun current n₂ hcurrent hlt₂ => ?_
    have hle : n ≤ current.masterUnlockKey.id := by omega
    have hnew := notMem_of_made hF hle
    have hF₂ := lt_of_mem_insert hF hle hlt₂
    refine Does.mono (ReturnsTo.always (fun r => some r.masterUnlockKey) ?_ hlt₂ hnew (.inr fun G hharmless => hharmless))
      fun r w hw => hw.mono (by omega)
    refine (returns_decryptPrivateKey (Finset.mem_insert_self ..)).bind fun _ n₃ hn₃ => ?_
    refine returns_check.bind fun _ n₄ hn₄ => ?_
    have hF₄ : ∀ x ∈ insert current.masterUnlockKey.id F, x < n₄ := fun x hx => by
      have := hF₂ x hx
      omega
    refine (returns_deriveAccountKeys _ hF₄).bindKey fun next n₅ hnext hlt₅ => ?_
    refine ReturnsTo.onThrow (returns_reKeyUnder (by simp) (Finset.mem_insert_self ..) ?_) (ends_reKeyUnder _ _ _ _) hnext
      hlt₅ (notMem_of_made hF₄ hnext)
    exact lt_of_mem_insert hF₄ hnext hlt₅

theorem returns_changeAccountPassword (input : ChangeAccountPasswordInput) (hF : ∀ x ∈ F, x < n) :
    Returns κ (fun _ => none) (changeAccountPassword input) n F := by
  refine (returns_reKeyAccount _ hF).bindKey fun reKeyed m hle hlt => ?_
  have hcommit : Returns κ (fun _ => none) (call (.commit (.changePassword reKeyed.payload))) m
      (insert reKeyed.masterUnlockKey.id F) := returns_call rfl (by simp [CeremonyCommand.keys])
  refine Does.mono (ReturnsTo.bind (hcommit.always _ hlt (notMem_of_made hF hle) (.inl fun _ => rfl)) fun _ _ _ => ?_)
    fun r w hw => hw.mono (by omega)
  exact (returns_call rfl (by simp [CeremonyCommand.keys])).bind fun _ _ _ => returns_ret rfl

theorem returns_changeAccountEmail (normalizeEmail : String → String) (input : ChangeAccountEmailInput)
    (hF : ∀ x ∈ F, x < n) : Returns κ (fun _ => none) (changeAccountEmail normalizeEmail input) n F := by
  refine (returns_reKeyAccount _ hF).bindKey fun reKeyed m hle hlt => ?_
  have hcommit : Returns κ (fun _ => none)
      (call (.commit (.updateEmail reKeyed.payload (normalizeEmail input.newEmail)))) m
      (insert reKeyed.masterUnlockKey.id F) := returns_call rfl (by simp [CeremonyCommand.keys])
  refine Does.mono (ReturnsTo.bind (hcommit.always _ hlt (notMem_of_made hF hle) (.inl fun _ => rfl)) fun _ _ _ => ?_)
    fun r w hw => hw.mono (by omega)
  exact (returns_call rfl (by simp [CeremonyCommand.keys])).bind fun _ _ _ => returns_ret rfl

/-- The local writes after a new secret key end with the unlock key in the store, or reject with the
key still there. -/
theorem leaves_adoptSecretKey (input : RegenerateSecretKeyInput) (reKeyed : ReKeyedAccount)
    (hnew : reKeyed.masterUnlockKey.id ∉ F) :
    Leaves κ (fun r w => n ≤ w.1 ∧ w.2 = if r.isSome then F else insert reKeyed.masterUnlockKey.id F)
      (adoptSecretKey input reKeyed) n (insert reKeyed.masterUnlockKey.id F) := by
  have hstep : ∀ {c : CeremonyCommand} {f : c.Answer → Ceremony PUnit} {m : Nat}, c.sparesKeys = true →
      (∀ key ∈ c.keys, key.id ∈ insert reKeyed.masterUnlockKey.id F) →
      (∀ a m', m ≤ m' → Leaves κ (fun r w => n ≤ w.1 ∧ w.2 = if r.isSome then F else insert reKeyed.masterUnlockKey.id F)
        (f a) m' (insert reKeyed.masterUnlockKey.id F)) → n ≤ m →
      Leaves κ (fun r w => n ≤ w.1 ∧ w.2 = if r.isSome then F else insert reKeyed.masterUnlockKey.id F)
        ((call c).bind f) m (insert reKeyed.masterUnlockKey.id F) := by
    intro c f m hc hkeys hf hle
    exact (returns_call hc hkeys).thenLeaves hf fun m' hle' => ⟨Nat.le_trans hle hle', rfl⟩
  refine hstep rfl (by simp [CeremonyCommand.keys]) (fun _ n₁ h₁ => ?_) (Nat.le_refl n)
  refine hstep rfl (by simp [CeremonyCommand.keys]) (fun _ n₂ h₂ => ?_) (by omega)
  refine hstep rfl (by simp [CeremonyCommand.keys]) (fun _ n₃ h₃ => ?_) (by omega)
  refine hstep rfl (by simp [CeremonyCommand.keys]) (fun _ n₄ h₄ => ?_) (by omega)
  refine hstep rfl (by simp [CeremonyCommand.keys]) (fun _ n₅ h₅ => ?_) (by omega)
  refine hstep rfl (by simp [CeremonyCommand.keys]) (fun _ n₆ h₆ => ?_) (by omega)
  exact leaves_setMasterUnlockKey (Finset.mem_insert_self ..) ⟨by simp only; omega, Finset.erase_insert hnew⟩
    ⟨by simp only; omega, rfl⟩

theorem returns_regenerateAccountSecretKey (input : RegenerateSecretKeyInput) (hF : ∀ x ∈ F, x < n) :
    Returns κ (fun _ => none) (regenerateAccountSecretKey input) n F := by
  refine (returns_reKeyAccount _ hF).bindKey fun reKeyed m hle hlt => ?_
  have hnew := notMem_of_made hF hle
  have hcommit : Returns κ (fun _ => none)
      (call (.commit (.regenerateSecretKey reKeyed.payload (getSecretKeyHint input.newSecretKey)))) m
      (insert reKeyed.masterUnlockKey.id F) := returns_call rfl (by simp [CeremonyCommand.keys])
  have hcommitted : ReturnsTo κ n F (fun _ => some reKeyed.masterUnlockKey)
      ((call (.commit (.regenerateSecretKey reKeyed.payload (getSecretKeyHint input.newSecretKey)))).onThrow
        (destroy .committedUnlockKey reKeyed.masterUnlockKey)) m (insert reKeyed.masterUnlockKey.id F) :=
    ReturnsTo.onThrow hcommit (Async.ends_of_all (fun _ => rfl) _) hle hlt hnew
  refine hcommitted.bindKey fun _ m₁ hle₁ hlt₁ => ?_
  -- the store takes the key over, or it is destroyed
  refine Does.bind (Q := fun _ w => Gives n F none w) ?_ (fun _ w hw => does_ret part_stable hw) fun w hw => hw
  refine Does.onThrow part_stable (leaves_adoptSecretKey input reKeyed hnew) (fun _ w hw => ?_) fun w hw => ?_
  · exact ⟨by omega, hw.2⟩
  · obtain ⟨m₂, G⟩ := w
    obtain ⟨hle₂, rfl⟩ : m₁ ≤ m₂ ∧ G = insert reKeyed.masterUnlockKey.id F := hw
    have : Gives n F none (m₂, (insert reKeyed.masterUnlockKey.id F).erase reKeyed.masterUnlockKey.id) :=
      ⟨by omega, Finset.erase_insert hnew⟩
    exact leaves_destroy (Finset.mem_insert_self ..) this fun _ => this

/-! ## The Recovery Key and new accounts -/

theorem returns_prepareRecoveryKey (input : PrepareRecoveryKeyInput) (hF : ∀ x ∈ F, x < n) :
    Returns κ (fun _ => none) (prepareRecoveryKey input) n F := by
  refine (returns_call rfl (by simp [CeremonyCommand.keys])).bind fun profile n₁ hn₁ => ?_
  cases profile with
  | none => exact returns_throw
  | some profile =>
    refine (returns_call rfl (by simp [CeremonyCommand.keys])).bind fun recoveryKey n₂ hn₂ => ?_
    have hF₂ : ∀ x ∈ F, x < n₂ := fun x hx => by
      have := hF x hx
      omega
    refine (returns_deriveAccountKeys _ hF₂).bindKey fun derived m hle hlt => ?_
    refine Does.mono (ReturnsTo.always (fun _ => none) ?_ hlt (notMem_of_made hF₂ hle) (.inl fun _ => rfl))
      fun r w hw => hw.mono (by omega)
    refine (returns_decryptPrivateKey (Finset.mem_insert_self ..)).bind fun _ _ _ => ?_
    exact returns_parse.bind fun _ _ _ => returns_ret rfl

theorem returns_recoverUnder {input : RecoverAccountInput} {recoveryData : AccountRecoveryData}
    {privateKeyPem secretKey : String} {old : KeyRef} {next : DerivedAccountKeys} (hold : old.id ∈ F)
    (hnext : next.masterUnlockKey.id ∈ F) (hF : ∀ x ∈ F, x < n) :
    Returns κ (fun _ => none) (recoverUnder input recoveryData privateKeyPem secretKey old next) n F := by
  refine returns_parse.bind fun _ n₁ hn₁ => ?_
  refine (returns_call rfl (by simp [CeremonyCommand.keys])).bind fun _ n₂ hn₂ => ?_
  refine (returns_call rfl (by simp [CeremonyCommand.keys, hnext])).bind fun _ n₃ hn₃ => ?_
  refine ReturnsTo.bind (returns_rewrapVaultKeys recoveryData.vaultKeys hold hnext fun x hx => ?_) fun _ _ _ => ?_
  · have := hF x hx
    omega
  · exact (returns_call rfl (by simp [CeremonyCommand.keys])).bind fun _ _ _ => returns_ret rfl

theorem ends_recoverUnder (input : RecoverAccountInput) (recoveryData : AccountRecoveryData)
    (privateKeyPem secretKey : String) (old : KeyRef) (next : DerivedAccountKeys) :
    (recoverUnder input recoveryData privateKeyPem secretKey old next).Ends
      fun r => r.masterUnlockKey = next.masterUnlockKey :=
  Async.ends_bind fun _ => Async.ends_bind fun _ => Async.ends_bind fun _ => Async.ends_bind fun _ =>
    Async.ends_bind fun _ => by exact rfl

/-- **Recovery leaves the next unlock key, which it returns.** -/
theorem returns_recoverAccount (input : RecoverAccountInput) (hF : ∀ x ∈ F, x < n) :
    Returns κ (fun r => some r.masterUnlockKey) (recoverAccount input) n F := by
  refine (returns_call rfl (by simp [CeremonyCommand.keys])).bind fun valid n₁ hn₁ => ?_
  cases valid with
  | false => exact returns_throw
  | true =>
    refine (returns_call rfl (by simp [CeremonyCommand.keys])).bind fun recoveryData n₂ hn₂ => ?_
    refine returns_parse.bind fun encryptedMasterKey n₃ hn₃ => ?_
    have hF₃ : ∀ x ∈ F, x < n₃ := fun x hx => by
      have := hF x hx
      omega
    refine ReturnsTo.bindKey (returns_newKey (by simp [KeySource.keys])) fun oldMasterKey m hle hlt => ?_
    have hnew := notMem_of_made hF₃ hle
    have hFm := lt_of_mem_insert hF₃ hle hlt
    -- the old keys are derived, and the old master key is destroyed
    have hderive : Leaves κ (fun r w => match r with
        | some oldKeys => oldKeys = ⟨⟨m⟩, ⟨m + 1⟩⟩ ∧ w = (m + 2, insert m (insert (m + 1) (insert oldMasterKey.id F)))
        | none => w = (m, insert oldMasterKey.id F)) (call (.deriveKeysFromMasterKey oldMasterKey input.email)) m
        (insert oldMasterKey.id F) := leaves_deriveKeys (Finset.mem_insert_self ..) ⟨rfl, rfl⟩ rfl
    have hderive' : Leaves κ (fun r w => match r with
        | some oldKeys => oldKeys = ⟨⟨m⟩, ⟨m + 1⟩⟩ ∧ w = (m + 2, insert m (insert (m + 1) F))
        | none => Gives n₃ F none w)
        ((call (.deriveKeysFromMasterKey oldMasterKey input.email)).always (destroy .oldMasterKey oldMasterKey)) m
        (insert oldMasterKey.id F) := by
      refine Does.always part_stable hderive (fun oldKeys w hw => ?_) fun w hw => ?_
      · obtain ⟨rfl, rfl⟩ := hw
        have herase : (insert m (insert (m + 1) (insert oldMasterKey.id F))).erase oldMasterKey.id =
            insert m (insert (m + 1) F) := by
          rw [Finset.erase_insert_of_ne (by omega), Finset.erase_insert_of_ne (by omega), Finset.erase_insert hnew]
        refine leaves_destroy (by simp) ⟨rfl, Prod.ext rfl herase⟩ fun hharmless => ?_
        have := hharmless m (Finset.mem_insert_self ..)
        omega
      · subst hw
        have : Gives n₃ F none (m, (insert oldMasterKey.id F).erase oldMasterKey.id) :=
          ⟨by omega, Finset.erase_insert hnew⟩
        exact leaves_destroy (Finset.mem_insert_self ..) this fun _ => this
    refine Does.bind hderive' (fun oldKeys w hw => ?_) fun w hw => Gives.mono hw (by omega)
    obtain ⟨rfl, rfl⟩ := hw
    have hunlock : m + 1 ∉ F := fun h => by
      have := hF₃ _ h
      omega
    have hauth : m ∉ insert (m + 1) F := by
      intro h
      rcases Finset.mem_insert.mp h with h | h
      · omega
      · have := hF₃ _ h
        omega
    have hF₅ : ∀ x ∈ insert (m + 1) F, x < m + 2 := by
      intro x hx
      rcases Finset.mem_insert.mp hx with rfl | hx
      · omega
      · have := hF₃ _ hx
        omega
    refine Does.mono (Q := fun r w => Gives (m + 2) F (r.bind fun r => some r.masterUnlockKey) w) ?_
      fun r w hw => hw.mono (by omega)
    have hguard : ∀ H, DestroyCall.oldUnlockKey.Harmless H ⟨m + 1⟩ → ∀ x ∈ H, x ≤ m + 1 := fun H hharmless => hharmless
    refine ReturnsTo.always (n := m + 2) (fun r : RecoveredAccount => some r.masterUnlockKey) ?_ (Nat.lt_succ_self (m + 1))
      hunlock (.inr hguard)
    -- the authentication key goes first, and the old unlock key last
    have hdestroyed : ReturnsTo κ (m + 2) (insert (m + 1) F) (fun _ => none) (destroy .oldAuthKey ⟨m⟩) (m + 2)
        (insert m (insert (m + 1) F)) := by
      have : Gives (m + 2) (insert (m + 1) F) none (m + 2, (insert m (insert (m + 1) F)).erase m) :=
        ⟨Nat.le_refl _, Finset.erase_insert hauth⟩
      exact leaves_destroy (Finset.mem_insert_self ..) this fun _ => this
    refine hdestroyed.bind fun _ n₆ hn₆ => ?_
    refine (returns_decryptPrivateKey (Finset.mem_insert_self ..)).bind fun privateKeyPem n₇ hn₇ => ?_
    refine (returns_call rfl (by simp [CeremonyCommand.keys])).bind fun secretKey n₈ hn₈ => ?_
    refine returns_check.bind fun _ n₉ hn₉ => ?_
    have hF₉ : ∀ x ∈ insert (m + 1) F, x < n₉ := fun x hx => by
      have := hF₅ x hx
      omega
    refine (returns_deriveAccountKeys _ hF₉).bindKey fun next n₁₀ hnext hlt₁₀ => ?_
    exact ReturnsTo.onThrow (returns_recoverUnder (by simp) (Finset.mem_insert_self ..)
      (lt_of_mem_insert hF₉ hnext hlt₁₀)) (ends_recoverUnder _ _ _ _ _ _) hnext hlt₁₀ (notMem_of_made hF₉ hnext)

theorem returns_createUnder {input : CreateAccountKeysInput} {derived : DerivedAccountKeys}
    (hkey : derived.masterUnlockKey.id ∈ F) (hF : ∀ x ∈ F, x < n) :
    Returns κ (fun _ => none) (createUnder input derived) n F := by
  refine returns_parse.bind fun _ n₁ hn₁ => ?_
  refine (returns_call rfl (by simp [CeremonyCommand.keys])).bind fun _ n₂ hn₂ => ?_
  refine (returns_call rfl (by simp [CeremonyCommand.keys])).bind fun _ n₃ hn₃ => ?_
  refine (returns_call rfl (by simp [CeremonyCommand.keys])).bind fun _ n₄ hn₄ => ?_
  refine (returns_call rfl (by simp [CeremonyCommand.keys])).bind fun _ n₅ hn₅ => ?_
  refine (returns_call rfl (by simp [CeremonyCommand.keys, hkey])).bind fun _ n₆ hn₆ => ?_
  have hF₆ : ∀ x ∈ F, x < n₆ := fun x hx => by
    have := hF x hx
    omega
  refine ReturnsTo.bindKey (returns_newKey (by simp [KeySource.keys])) fun (vaultKey : KeyRef) m hle hlt => ?_
  have hwrap : ∀ vaultId userId, Returns κ (fun _ => none)
      (wrapVaultKeyForOwner vaultKey derived.masterUnlockKey vaultId userId 1) m (insert vaultKey.id F) :=
    fun vaultId userId => returns_call rfl (by simp [CeremonyCommand.keys, hkey])
  refine Does.mono (ReturnsTo.bind ((hwrap _ _).always _ hlt (notMem_of_made hF₆ hle) (.inl fun _ => rfl)) fun _ _ _ => ?_)
    fun r w hw => hw.mono (by omega)
  exact (returns_call rfl (by simp [CeremonyCommand.keys, hkey])).bind fun _ _ _ => returns_ret rfl

theorem ends_createUnder (input : CreateAccountKeysInput) (derived : DerivedAccountKeys) :
    (createUnder input derived).Ends fun keys => keys.masterUnlockKey = derived.masterUnlockKey :=
  Async.ends_bind fun _ => Async.ends_bind fun _ => Async.ends_bind fun _ => Async.ends_bind fun _ =>
    Async.ends_bind fun _ => Async.ends_bind fun _ => Async.ends_bind fun _ => Async.ends_bind fun _ =>
    Async.ends_bind fun _ => by exact rfl

theorem returns_createAccountKeys (input : CreateAccountKeysInput) (hF : ∀ x ∈ F, x < n) :
    Returns κ (fun keys => some keys.masterUnlockKey) (createAccountKeys input) n F := by
  refine returns_check.bind fun _ n₁ hn₁ => ?_
  have hF₁ : ∀ x ∈ F, x < n₁ := fun x hx => by
    have := hF x hx
    omega
  refine (returns_deriveAccountKeys _ hF₁).bindKey fun derived m hle hlt => ?_
  exact ReturnsTo.onThrow (returns_createUnder (Finset.mem_insert_self ..) (lt_of_mem_insert hF₁ hle hlt))
    (ends_createUnder input derived) hle hlt (notMem_of_made hF₁ hle)

end

/-! ## All ceremonies -/

/-- A ceremony on the keys of an account. -/
inductive KeyCeremony
  | unlock (input : DeriveAccountKeysInput)
  | changePassword (input : ChangeAccountPasswordInput)
  | changeEmail (normalizeEmail : String → String) (input : ChangeAccountEmailInput)
  | regenerateSecretKey (input : RegenerateSecretKeyInput)
  | prepareRecovery (input : PrepareRecoveryKeyInput)
  | recover (input : RecoverAccountInput)
  | create (input : CreateAccountKeysInput)

/-- The ceremony, and the key that its caller is handed. -/
def KeyCeremony.run : KeyCeremony → Ceremony (Option KeyRef)
  | .unlock input => (deriveAccountKeys input).bind fun d => .ret (some d.masterUnlockKey)
  | .changePassword input => (changeAccountPassword input).bind fun _ => .ret none
  | .changeEmail normalizeEmail input => (changeAccountEmail normalizeEmail input).bind fun _ => .ret none
  | .regenerateSecretKey input => (regenerateAccountSecretKey input).bind fun _ => .ret none
  | .prepareRecovery input => (prepareRecoveryKey input).bind fun _ => .ret none
  | .recover input => (recoverAccount input).bind fun r => .ret (some r.masterUnlockKey)
  | .create input => (createAccountKeys input).bind fun keys => .ret (some keys.masterUnlockKey)

section

variable {κ α : Type} {n : Nat} {F : Finset Nat}

theorem Returns.key {key : α → Option KeyRef} {p : Ceremony α} (h : Returns κ key p n F) :
    Returns κ id (p.bind fun a => .ret (key a)) n F :=
  Does.bind h (fun _ _ hw => does_ret part_stable hw) fun _ hw => hw

theorem returns_run (ceremony : KeyCeremony) : Returns κ id ceremony.run 0 ∅ := by
  have hF : ∀ x ∈ (∅ : Finset Nat), x < 0 := fun x hx => absurd hx (Finset.notMem_empty x)
  cases ceremony with
  | unlock input => exact (returns_deriveAccountKeys input hF).key
  | changePassword input => exact (returns_changeAccountPassword input hF).key
  | changeEmail normalizeEmail input => exact (returns_changeAccountEmail normalizeEmail input hF).key
  | regenerateSecretKey input => exact (returns_regenerateAccountSecretKey input hF).key
  | prepareRecovery input => exact (returns_prepareRecoveryKey input hF).key
  | recover input => exact (returns_recoverAccount input hF).key
  | create input => exact (returns_createAccountKeys input hF).key

theorem once_initial : (initial : CeremonyState κ).Once := fun key => by simp [initial]

theorem part_initial : part (initial : CeremonyState κ) = (0, ∅) := by
  refine Prod.ext rfl ?_
  ext n
  simp [part, mem_live, initial]

/-- **The handles of a ceremony.** However a ceremony runs, as long as no `destroyKey` rejects that loses
a key: each key that was made has been destroyed once, or the store has taken it over once, or the
caller has it, and each command was given keys that were there. -/
theorem KeyCeremony.handles_once {ceremony : KeyCeremony} {r : Option (Option KeyRef)}
    {moments : List (Moment (CeremonyState κ) CeremonyCommand CeremonyCommand.Answer)} {s : CeremonyState κ}
    (hrun : Plays (handles κ) perform ceremony.run [] initial r moments s) :
    (∀ key : KeyRef, key.id < s.keys.length →
      s.destroyed.count key + s.stored.count key + (r.bind id).toList.count key = 1) ∧
    ∀ m ∈ moments, ∀ key ∈ m.command.keys, key.id ∈ m.state.live := by
  obtain ⟨hgives, honce, hmoments⟩ := (returns_run ceremony [] initial once_initial part_initial).plays once_initial hrun
  refine ⟨fun key hlt => ?_, fun m hm key hkey => ?_⟩
  · have hle := honce key
    rw [if_pos hlt] at hle
    -- a key that is not there was destroyed or handed over
    have hgone : key.id ∉ s.live → s.destroyed.count key + s.stored.count key = 1 := by
      intro hdead
      have : 0 < s.destroyed.count key + s.stored.count key := by
        by_contra hzero
        refine hdead (mem_live.mpr ⟨hlt, ?_, ?_⟩)
        · exact List.count_eq_zero.mp (show s.destroyed.count key = 0 by omega)
        · exact List.count_eq_zero.mp (show s.stored.count key = 0 by omega)
      omega
    cases hr : r.bind id with
    | none =>
      rw [hr] at hgives
      have hlive : s.live = ∅ := hgives.2
      simp [hgone (by simp [hlive])]
    | some own =>
      rw [hr] at hgives
      have hlive : s.live = insert own.id ∅ := hgives.2.2
      by_cases hown : key = own
      · subst hown
        obtain ⟨-, hdestroyed, hstored⟩ := mem_live.mp (show key.id ∈ s.live by simp [hlive])
        simp [List.count_eq_zero.mpr hdestroyed, List.count_eq_zero.mpr hstored]
      · have hne : key.id ≠ own.id := fun h => hown (by cases key; cases own; simp_all)
        rw [hgone (by simp [hlive, hne])]
        simp [Ne.symm hown]
  · rcases hmoments m hm with hnil | ⟨before, t, hguar⟩
    · cases hnil
    · exact hguar key hkey

end

end Bittery
