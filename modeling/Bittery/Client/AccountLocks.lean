/-
The keys of the account store: which account is locked, and what becomes of the keys that the
store has taken.

Each account is a resource of its own. As long as no two operations on one account overlap,
an account that was locked has no cached key, and a key that the store has cached is destroyed
once, when the account has another key or none.
-/
import Bittery.Client.AccountStoreFacts
import Mathlib.Data.List.Nodup

namespace Bittery

open Lib

/-! ## The keys of an account -/

/-- What was done with a key. -/
structure KeyRecord where
  destroyed : Nat
  owned : Bool
deriving DecidableEq, Repr

@[ext]
structure AccountKeys where
  entry : Option CacheEntry
  locked : Bool
  /-- The keys that were made or handed over for the account. -/
  keys : MasterKeyRef → Option KeyRecord

namespace AccountKeys

variable (x : AccountKeys)

def current : Option MasterKeyRef := x.entry.map (·.key)

/-- Every key that was cached has been destroyed once, but for the one that is. -/
def Free : Prop := ∀ key k, x.keys key = some k → k.destroyed = if k.owned ∧ x.current ≠ some key then 1 else 0

/-- The same while the keys are destroyed one after the other: those up to a serial have been. -/
def FreeFrom (after : Option Nat) : Prop := ∀ key k, x.keys key = some k →
  k.destroyed = if k.owned ∧ (x.current ≠ some key ∨ ∃ e ∈ x.entry, ∃ n ∈ after, e.serial ≤ n) then 1 else 0

variable {x}

theorem freeFrom_none : x.FreeFrom none ↔ x.Free := by
  simp [FreeFrom, Free]

/-- A new key is neither cached nor destroyed. -/
theorem Free.made (h : x.Free) (key : MasterKeyRef) :
    Free { x with keys := Function.update x.keys key (some ⟨0, false⟩) } := by
  intro key' k hk
  by_cases hkey : key' = key
  · subst hkey
    simp only [Function.update_self, Option.some.injEq] at hk
    subst hk
    rfl
  · simp only [Function.update_of_ne hkey] at hk
    exact h key' k hk

end AccountKeys

def AccountStore.accountKeys (s : AccountStore) (accountId : String) : AccountKeys where
  entry := s.mukCache.find? (·.accountId = accountId)
  locked := s.locked accountId
  keys key := if s.destined key = some accountId then some ⟨s.destroyed.count key, s.owned.contains key⟩ else none

/-- What holds of the keys in every state. -/
structure AccountStore.KeysInv (s : AccountStore) : Prop where
  cached : ∀ e ∈ s.mukCache, s.destined e.key = some e.accountId ∧ e.key ∈ s.owned
  accounts : (s.mukCache.map (·.accountId)).Nodup
  ordered : s.mukCache.Pairwise (·.serial < ·.serial)
  below : ∀ e ∈ s.mukCache, e.serial < s.nextSerial
  known : ∀ key, key ∈ s.owned ∨ key ∈ s.destroyed → s.destined key ≠ none
  once : ∀ key, s.destroyed.count key ≤ 1
  locked : ∀ a, s.locked a = true → s.entry a = none

/-- A command that does nothing with keys. -/
def Command.sparesKeys : Command → Prop
  | .setEntry _ _ | .nextEntry _ | .destroyKey _ | .unwrapKey _ _ => False
  | _ => True

namespace AccountStore

variable {s t : AccountStore} {c : Command} {answer : PortAnswer} {a b : String} {key : MasterKeyRef}

theorem accountKeys_current (s : AccountStore) (a : String) : (s.accountKeys a).current = s.entry a := rfl

/-- The parts of the state that are about keys. -/
structure SameKeys (s t : AccountStore) : Prop where
  mukCache : t.mukCache = s.mukCache
  nextSerial : t.nextSerial = s.nextSerial
  destined : t.destined = s.destined
  owned : t.owned = s.owned
  destroyed : t.destroyed = s.destroyed

theorem Performed.sameKeys (h : s.Performed c t) (hc : c.sparesKeys) : SameKeys s t := by
  cases h with
  | getDeviceKey =>
    unfold loadDeviceKey
    split <;> exact ⟨rfl, rfl, rfl, rfl, rfl⟩
  | setEntry | deleteEntry | clear | destroyKey | unwrapKey => exact hc.elim
  | _ => exact ⟨rfl, rfl, rfl, rfl, rfl⟩

theorem SameKeys.accountKeys (h : SameKeys s t) (hlocked : t.locked = s.locked) : t.accountKeys = s.accountKeys := by
  funext a
  unfold AccountStore.accountKeys
  rw [h.mukCache, h.destined, h.owned, h.destroyed, hlocked]

theorem SameKeys.inv (h : SameKeys s t) (hinv : s.KeysInv) (hlocked : ∀ a, t.locked a = true → t.entry a = none) :
    t.KeysInv := by
  obtain ⟨hcache, hserial, hdestined, howned, hdestroyed⟩ := h
  refine ⟨?_, ?_, ?_, ?_, ?_, ?_, hlocked⟩
  · rw [hcache, hdestined, howned]
    exact hinv.cached
  · rw [hcache]
    exact hinv.accounts
  · rw [hcache]
    exact hinv.ordered
  · rw [hcache, hserial]
    exact hinv.below
  · rw [hdestined, howned, hdestroyed]
    exact hinv.known
  · rw [hdestroyed]
    exact hinv.once

theorem SameKeys.entry (h : SameKeys s t) (a : String) : t.entry a = s.entry a := by
  unfold AccountStore.entry
  rw [h.mukCache]

theorem KeysInv.of_spares (hinv : s.KeysInv) (h : s.Performed c t) (hc : c.sparesKeys) :
    t.KeysInv ∧ t.accountKeys = s.accountKeys := by
  have hsame := h.sameKeys hc
  have hlocked := h.sameRecords.locked
  refine ⟨hsame.inv hinv fun a ha => ?_, hsame.accountKeys hlocked⟩
  rw [hsame.entry]
  exact hinv.locked a (hlocked ▸ ha)

/-! ## Programs that do nothing with keys -/

theorem sparesKeys_of_reads (c : Command) (h : c.reads) : c.sparesKeys := by
  cases c with
  | get | now | readCache | isAvailable | getDetails => trivial
  | _ => exact h.elim

theorem spares_authenticateWithBiometric (accountId : String) :
    (authenticateWithBiometric accountId).Uses Command.sparesKeys := by
  refine .orElse (.bind (Async.uses_await trivial) fun success => ?_) trivial
  split
  · exact (Async.uses_await trivial).bind fun _ => (Async.uses_await trivial).bind fun _ => trivial
  · trivial

theorem answers_refreshNativeView (unlocked : List String) : (refreshNativeView unlocked).Answers Command.sparesKeys :=
  (reads_readAccountsList.mono sparesKeys_of_reads).bind fun accounts =>
    ((reads_readValue _).mono sparesKeys_of_reads).bind fun active =>
      ((reads_getAutoLockTimeoutOrDefault active).mono sparesKeys_of_reads).bind fun _ =>
        ((reads_projectAccounts accounts).mono sparesKeys_of_reads).bind fun _ => Async.answers_await trivial

theorem answers_refreshNativeViewNow : refreshNativeViewNow.Answers Command.sparesKeys :=
  (reads_readCache.mono sparesKeys_of_reads).bind fun _ => answers_refreshNativeView _

theorem answers_deleteValue (name : ValueName) : (deleteValue name).Answers Command.sparesKeys :=
  Async.answers_await trivial

theorem answers_writeActiveAccount (accountId : Option String) : (writeActiveAccount accountId).Answers Command.sparesKeys := by
  cases accountId with
  | none => exact (answers_deleteValue _).bind fun _ => answers_refreshNativeViewNow
  | some accountId => exact (Async.answers_await trivial).bind fun _ => answers_refreshNativeViewNow

theorem answers_writeAccountsList (accounts : List AccountMetadata) : (writeAccountsList accounts).Answers Command.sparesKeys :=
  Async.Answers.bind (Async.answers_await trivial) fun _ => answers_refreshNativeViewNow

/-! ## Entries -/

theorem KeysInv.entry_of_mem (hinv : s.KeysInv) {e : CacheEntry} (he : e ∈ s.mukCache) :
    (s.accountKeys e.accountId).entry = some e := by
  cases hfind : (s.accountKeys e.accountId).entry with
  | none => exact absurd (List.find?_eq_none.mp hfind e he) (by simp)
  | some e' =>
    have hmem := List.mem_of_find?_eq_some hfind
    have hid : e'.accountId = e.accountId := by simpa using List.find?_some hfind
    rw [List.inj_on_of_nodup_map hinv.accounts hmem he hid]

theorem mem_of_entry {e : CacheEntry} (h : (s.accountKeys a).entry = some e) : e ∈ s.mukCache ∧ e.accountId = a :=
  ⟨List.mem_of_find?_eq_some h, by simpa using List.find?_some h⟩

/-- The key of an account is one that was made for it. -/
theorem KeysInv.keys_of_entry (hinv : s.KeysInv) {e : CacheEntry} (h : (s.accountKeys a).entry = some e) :
    (s.accountKeys a).keys e.key = some ⟨s.destroyed.count e.key, true⟩ := by
  obtain ⟨hmem, rfl⟩ := mem_of_entry h
  obtain ⟨hdestined, howned⟩ := hinv.cached e hmem
  simp [accountKeys, hdestined, howned]

theorem destined_of_keys {k : KeyRecord} (h : (s.accountKeys a).keys key = some k) :
    s.destined key = some a ∧ k = ⟨s.destroyed.count key, s.owned.contains key⟩ := by
  unfold accountKeys at h
  dsimp only at h
  split at h
  · next hdestined => exact ⟨hdestined, (Option.some.inj h).symm⟩
  · cases h

/-! ## What the commands do -/

/-- Another account has nothing to do with a key of this one. -/
theorem keys_of_other (hdestined : s.destined key = some a) (hne : b ≠ a) {key' : MasterKeyRef}
    (h : s.destined key' = some b) : key' ≠ key := by
  rintro rfl
  exact hne (Option.some.inj (h.symm.trans hdestined))

theorem destroyKey_keys (hdestined : s.destined key = some a) :
    AccountStore.accountKeys { s with destroyed := key :: s.destroyed } = Function.update s.accountKeys a
      { s.accountKeys a with
        keys := Function.update (s.accountKeys a).keys key
          (some ⟨s.destroyed.count key + 1, s.owned.contains key⟩) } := by
  funext b
  by_cases hb : b = a
  · subst hb
    rw [Function.update_self]
    refine AccountKeys.ext rfl rfl (funext fun key' => ?_)
    by_cases hkey : key' = key
    · subst hkey
      simp [accountKeys, hdestined]
    · simp [accountKeys, hkey, List.count_cons_of_ne (Ne.symm hkey)]
  · rw [Function.update_of_ne hb]
    refine AccountKeys.ext rfl rfl (funext fun key' => if_ctx_congr Iff.rfl (fun h => ?_) fun _ => rfl)
    rw [List.count_cons_of_ne (keys_of_other hdestined hb h).symm]

theorem unwrapKey_keys (hinv : s.KeysInv) (hnew : s.destined key = none) :
    AccountStore.accountKeys { s with destined := Function.update s.destined key (some a) } =
      Function.update s.accountKeys a
        { s.accountKeys a with keys := Function.update (s.accountKeys a).keys key (some ⟨0, false⟩) } := by
  have howned : key ∉ s.owned := fun h => hinv.known key (.inl h) hnew
  have hdestroyed : key ∉ s.destroyed := fun h => hinv.known key (.inr h) hnew
  funext b
  by_cases hb : b = a
  · subst hb
    rw [Function.update_self]
    refine AccountKeys.ext rfl rfl (funext fun key' => ?_)
    by_cases hkey : key' = key
    · subst hkey
      simp [accountKeys, howned, List.count_eq_zero_of_not_mem hdestroyed]
    · simp [accountKeys, hkey]
  · rw [Function.update_of_ne hb]
    refine AccountKeys.ext rfl rfl (funext fun key' => ?_)
    by_cases hkey : key' = key
    · subst hkey
      simp [accountKeys, hnew, Ne.symm hb]
    · simp [accountKeys, hkey]

/-- A new entry, or the one that was there with another key. -/
theorem setEntry_cases (s : AccountStore) (a : String) (key : MasterKeyRef) : ∃ e : CacheEntry, e.key = key ∧ e.accountId = a ∧
    ∀ b, (s.setEntry a key).mukCache.find? (·.accountId = b) =
      if b = a then some e else s.mukCache.find? (·.accountId = b) := by
  unfold AccountStore.setEntry
  split
  · next hany =>
    have hsame : ∀ b, ((fun e : CacheEntry => decide (e.accountId = b)) ∘
        fun e : CacheEntry => if e.accountId = a then { e with key := key } else e) = fun e => decide (e.accountId = b) := by
      intro b
      funext e
      simp only [Function.comp_apply]
      split <;> rfl
    obtain ⟨e, he⟩ := Option.isSome_iff_exists.mp (List.find?_isSome.mpr (List.any_eq_true.mp hany))
    have hid : e.accountId = a := by simpa using List.find?_some he
    refine ⟨{ e with key := key }, rfl, hid, fun b => ?_⟩
    rw [List.find?_map, hsame]
    by_cases hb : b = a
    · subst hb
      simp [he, hid]
    · rw [if_neg hb]
      cases hfind : s.mukCache.find? (·.accountId = b) with
      | none => rfl
      | some e' =>
        have hid' : e'.accountId = b := by simpa using List.find?_some hfind
        simp [hid', hb]
  · next hany =>
    refine ⟨⟨a, key, s.nextSerial⟩, rfl, rfl, fun b => ?_⟩
    rw [List.find?_append]
    by_cases hb : b = a
    · subst hb
      have hnone : s.mukCache.find? (·.accountId = b) = none := by
        simpa using hany
      simp [hnone]
    · simp [hb, Ne.symm hb]

theorem setEntry_rest (s : AccountStore) (a : String) (key : MasterKeyRef) :
    (s.setEntry a key).destined = s.destined ∧ (s.setEntry a key).destroyed = s.destroyed ∧
      (s.setEntry a key).owned = key :: s.owned ∧ (s.setEntry a key).locked = s.locked := by
  unfold AccountStore.setEntry
  split <;> exact ⟨rfl, rfl, rfl, rfl⟩

theorem setEntry_keys (hdestined : s.destined key = some a) : ∃ e : CacheEntry, e.key = key ∧
    (s.setEntry a key).accountKeys = Function.update s.accountKeys a
      { s.accountKeys a with
        entry := some e
        keys := Function.update (s.accountKeys a).keys key (some ⟨s.destroyed.count key, true⟩) } := by
  obtain ⟨e, hkey, -, hfind⟩ := setEntry_cases s a key
  obtain ⟨hdest, hdestroyed, howned, hlocked⟩ := setEntry_rest s a key
  refine ⟨e, hkey, funext fun b => ?_⟩
  by_cases hb : b = a
  · subst hb
    rw [Function.update_self]
    refine AccountKeys.ext ((hfind b).trans (if_pos rfl)) (congrFun hlocked b) (funext fun key' => ?_)
    by_cases hkey' : key' = key
    · subst hkey'
      simp [accountKeys, hdest, hdestroyed, howned, hdestined]
    · simp [accountKeys, hdest, hdestroyed, howned, hkey']
  · rw [Function.update_of_ne hb]
    refine AccountKeys.ext ((hfind b).trans (if_neg hb)) (congrFun hlocked b) (funext fun key' => ?_)
    unfold accountKeys
    rw [hdest, hdestroyed, howned]
    refine if_ctx_congr Iff.rfl (fun h => ?_) fun _ => rfl
    simp [keys_of_other hdestined hb h]

theorem deleteEntry_keys (s : AccountStore) (a : String) : (s.deleteEntry a).accountKeys = Function.update s.accountKeys a
    { s.accountKeys a with entry := none } := by
  funext b
  by_cases hb : b = a
  · subst hb
    rw [Function.update_self]
    refine AccountKeys.ext ?_ rfl rfl
    simp [accountKeys, AccountStore.deleteEntry]
  · rw [Function.update_of_ne hb]
    refine AccountKeys.ext ?_ rfl rfl
    simp only [accountKeys, AccountStore.deleteEntry, List.find?_filter]
    congr 1
    funext e
    by_cases he : e.accountId = b
    · simp [he, hb]
    · simp [he]

theorem clear_keys : AccountStore.accountKeys { s with mukCache := [] } = fun a => { s.accountKeys a with entry := none } := rfl

/-! ## What the commands keep -/

theorem KeysInv.destroyKey (hinv : s.KeysInv) (hdestined : s.destined key = some a) (hcount : s.destroyed.count key = 0) :
    KeysInv { s with destroyed := key :: s.destroyed } where
  cached := hinv.cached
  accounts := hinv.accounts
  ordered := hinv.ordered
  below := hinv.below
  known key' h := by
    by_cases hkey : key' = key
    · subst hkey
      simp [hdestined]
    · exact hinv.known key' (h.imp id fun h => (List.mem_cons.mp h).resolve_left hkey)
  once key' := by
    by_cases hkey : key' = key
    · subst hkey
      simp [hcount]
    · simpa [List.count_cons_of_ne (Ne.symm hkey)] using hinv.once key'
  locked := hinv.locked

theorem KeysInv.unwrapKey (hinv : s.KeysInv) (hnew : s.destined key = none) :
    KeysInv { s with destined := Function.update s.destined key (some a) } where
  cached e he := by
    obtain ⟨hdestined, howned⟩ := hinv.cached e he
    refine ⟨?_, howned⟩
    rw [← hdestined]
    refine Function.update_of_ne ?_ _ _
    rintro hkey
    rw [hkey, hnew] at hdestined
    cases hdestined
  accounts := hinv.accounts
  ordered := hinv.ordered
  below := hinv.below
  known key' h := by
    by_cases hkey : key' = key
    · subst hkey
      simp
    · simpa [hkey] using hinv.known key' h
  once := hinv.once
  locked := hinv.locked

theorem entry_setEntry_of_ne (s : AccountStore) (key : MasterKeyRef) (hne : b ≠ a) : (s.setEntry a key).entry b = s.entry b := by
  obtain ⟨e, -, -, hfind⟩ := setEntry_cases s a key
  exact congrArg (Option.map CacheEntry.key) ((hfind b).trans (if_neg hne))

theorem KeysInv.setEntry (hinv : s.KeysInv) (hdestined : s.destined key = some a) (hlocked : s.locked a = false) :
    (s.setEntry a key).KeysInv := by
  have hentry : ∀ b, (s.setEntry a key).locked b = true → (s.setEntry a key).entry b = none := by
    intro b hb
    rw [(setEntry_rest s a key).2.2.2] at hb
    have hne : b ≠ a := by
      rintro rfl
      rw [hlocked] at hb
      cases hb
    rw [entry_setEntry_of_ne s key hne]
    exact hinv.locked b hb
  have hknown : ∀ key', key' ∈ (s.setEntry a key).owned ∨ key' ∈ (s.setEntry a key).destroyed →
      (s.setEntry a key).destined key' ≠ none := by
    obtain ⟨hdest, hdestroyed, howned, -⟩ := setEntry_rest s a key
    intro key' h
    rw [hdest]
    rw [howned, hdestroyed] at h
    by_cases hkey : key' = key
    · subst hkey
      simp [hdestined]
    · exact hinv.known key' (h.imp (fun h => (List.mem_cons.mp h).resolve_left hkey) id)
  have honce : ∀ key', (s.setEntry a key).destroyed.count key' ≤ 1 := by
    rw [(setEntry_rest s a key).2.1]
    exact hinv.once
  have hmap : ∀ e : CacheEntry, (if e.accountId = a then { e with key := key } else e).accountId = e.accountId ∧
      (if e.accountId = a then { e with key := key } else e).serial = e.serial := by
    intro e
    split <;> exact ⟨rfl, rfl⟩
  refine ⟨?_, ?_, ?_, ?_, hknown, honce, hentry⟩
  all_goals
    unfold AccountStore.setEntry
    split
  · intro e he
    obtain ⟨e', he', rfl⟩ := List.mem_map.mp he
    obtain ⟨hdest, howned⟩ := hinv.cached e' he'
    dsimp only
    split
    · next hid => exact ⟨hid ▸ hdestined, List.mem_cons_self⟩
    · exact ⟨hdest, List.mem_cons_of_mem key howned⟩
  · intro e he
    rcases List.mem_append.mp he with he | he
    · exact ⟨(hinv.cached e he).1, List.mem_cons_of_mem key (hinv.cached e he).2⟩
    · obtain rfl := List.mem_singleton.mp he
      exact ⟨hdestined, List.mem_cons_self⟩
  · rw [List.map_map]
    exact (List.map_congr_left fun e _ => (hmap e).1) ▸ hinv.accounts
  · next hany =>
    rw [List.map_append]
    refine hinv.accounts.append (List.nodup_singleton a) fun b hb hb' => hany ?_
    obtain ⟨e, he, rfl⟩ := List.mem_map.mp hb
    exact List.any_eq_true.mpr ⟨e, he, by simpa using hb'⟩
  · exact List.pairwise_map.mpr (hinv.ordered.imp fun {e e'} h => by rwa [(hmap e).2, (hmap e').2])
  · refine List.pairwise_append.mpr ⟨hinv.ordered, List.pairwise_singleton _ _, fun e he e' he' => ?_⟩
    obtain rfl := List.mem_singleton.mp he'
    exact hinv.below e he
  · intro e he
    obtain ⟨e', he', rfl⟩ := List.mem_map.mp he
    rw [(hmap e').2]
    exact hinv.below e' he'
  · intro e he
    rcases List.mem_append.mp he with he | he
    · exact Nat.lt_succ_of_lt (hinv.below e he)
    · obtain rfl := List.mem_singleton.mp he
      exact Nat.lt_succ_self _

theorem KeysInv.of_sublist (hinv : s.KeysInv) {cache : List CacheEntry} (hcache : cache.Sublist s.mukCache)
    (hlocked : ∀ a, s.locked a = true → AccountStore.entry { s with mukCache := cache } a = none) :
    KeysInv { s with mukCache := cache } where
  cached e he := hinv.cached e (hcache.subset he)
  accounts := hinv.accounts.sublist (hcache.map _)
  ordered := hinv.ordered.sublist hcache
  below e he := hinv.below e (hcache.subset he)
  known := hinv.known
  once := hinv.once
  locked := hlocked

theorem KeysInv.deleteEntry (hinv : s.KeysInv) (a : String) : (s.deleteEntry a).KeysInv := by
  refine hinv.of_sublist List.filter_sublist fun b hb => ?_
  have hkeys := congrArg AccountKeys.current (congrFun (deleteEntry_keys s a) b)
  change (s.deleteEntry a).entry b = none
  rw [← accountKeys_current, hkeys]
  by_cases hne : b = a
  · subst hne
    rw [Function.update_self]
    rfl
  · rw [Function.update_of_ne hne]
    exact hinv.locked b hb

theorem KeysInv.clear (hinv : s.KeysInv) : KeysInv { s with mukCache := [] } :=
  hinv.of_sublist (List.nil_sublist _) fun _ _ => rfl

end AccountStore

/-! ## Whose keys an operation touches -/

inductive Touched
  | nobody
  | one (accountId : String)
  | everybody
deriving DecidableEq, Repr

namespace Touched

def has : Touched → String → Bool
  | .nobody, _ => false
  | .one a, b => b = a
  | .everybody, _ => true

def meets : Touched → Touched → Bool
  | .nobody, _ | _, .nobody => false
  | .one a, .one b => a = b
  | _, _ => true

theorem meets_of_has {x y : Touched} {a : String} (hx : x.has a = true) (hy : y.has a = true) : x.meets y = true := by
  cases x with
  | nobody => cases hx
  | one b =>
    cases y with
    | nobody => cases hy
    | one c => simpa [has, meets] using (of_decide_eq_true hx).symm.trans (of_decide_eq_true hy)
    | everybody => rfl
  | everybody =>
    cases y with
    | nobody => cases hy
    | one c => rfl
    | everybody => rfl

end Touched

namespace StoreOp

def touched : StoreOp → Touched
  | .removeAccount a | .tryRestoreSession _ a | .tryRestoreSessionWithoutPrompt a | .clearSession a | .forgetSession a
  | .clearAllStoredData (some a) | .setMasterUnlockKey _ a | .clearMasterUnlockKey a | .unlockWithBiometric a => .one a
  | .clearAllStoredData none | .lockAllAccounts _ | .unlockAllAccountsWithBiometric => .everybody
  | _ => .nobody

theorem touched_of_locks {op : StoreOp} {a : String} (h : op.locks a = true) : op.touched.has a = true := by
  cases op with
  | clearAllStoredData b => cases b with
    | none => cases h
    | some b => exact h
  | removeAccount | clearSession | forgetSession | clearMasterUnlockKey => exact h
  | lockAllAccounts => rfl
  | _ => cases h

theorem touched_of_unlocks {op : StoreOp} {a : String} (h : op.unlocks a = true) : op.touched.has a = true := by
  cases op with
  | tryRestoreSession | tryRestoreSessionWithoutPrompt | setMasterUnlockKey | unlockWithBiometric => exact h
  | unlockAllAccountsWithBiometric => rfl
  | _ => cases h

end StoreOp

def Command.destroys : Command → Bool
  | .destroyKey _ => true
  | _ => false

/-- How a command may be answered: a key that is to be destroyed is, and an operation that is to lock
an account meets no failure while a key of it is cached. -/
def AnsweredFor (op : StoreOp) (s : AccountStore) (c : Command) (answer : PortAnswer) : Prop :=
  answer = .failed → c.destroys = false ∧ ∀ e ∈ s.mukCache, op.locks e.accountId = false

/-- A key that is handed over is a new one, or was not taken, or is the one that the account has. -/
def Startable (op : StoreOp) (s : AccountStore) : Prop :=
  match op with
  | .setMasterUnlockKey key a =>
    s.destined key = none ∨ s.destined key = some a ∧ (s.entry a = some key ∨ key ∉ s.owned)
  | _ => True

/-- The keys of every account are a resource. -/
def keysResources (normalizeAccountServerUrl : String → String) : Resources (accountStore normalizeAccountServerUrl) String where
  inv := AccountStore.KeysInv
  base _ _ := True
  base_refl _ := trivial
  base_trans _ _ _ _ _ := trivial
  same a s t := s.accountKeys a = t.accountKeys a
  same_refl _ _ := rfl
  same_trans _ _ _ _ h h' := h.trans h'
  free a s := (s.accountKeys a).Free
  free_same _ _ _ _ hsame hfree := hsame ▸ hfree
  foot op a := op.touched.has a = true
  allowed op _ s c answer := AnsweredFor op s c answer
  guar _ _ _ _ _ := True
  startable := Startable

/-- The keys of the accounts that an operation touches. -/
def AccountStore.touchedKeys (op : StoreOp) (s : AccountStore) : String → Option AccountKeys := fun a =>
  if op.touched.has a then some (s.accountKeys a) else none

namespace AccountStore

variable {s t : AccountStore} {c : Command} {answer : PortAnswer} {a b : String} {key : MasterKeyRef}
  {normalizeAccountServerUrl : String → String} {op : StoreOp}

theorem rely_touchedKeys (s t : AccountStore) (h : ((keysResources normalizeAccountServerUrl).contract op).rely s t) :
    t.touchedKeys op = s.touchedKeys op := by
  funext a
  unfold touchedKeys
  split
  · next htouched =>
    have hsame : s.accountKeys a = t.accountKeys a := h.2 a htouched
    rw [hsame]
  · rfl

/-! ## Programs on the keys of one account -/

section Keys

variable {α β : Type} {p : StoreM α} {x y : AccountKeys} {Q Q' : Option α → AccountKeys → Prop}

/-- What a program does to the keys of an account that its operation touches, when no other does. -/
def Keys (normalizeAccountServerUrl : String → String) (op : StoreOp) (a : String) (Q : Option α → AccountKeys → Prop)
    (p : StoreM α) (x : AccountKeys) : Prop :=
  ∀ v : String → Option AccountKeys, v a = some x →
    Does ((keysResources normalizeAccountServerUrl).contract op) AccountStore.perform (touchedKeys op)
      (fun r w => ∃ y, w = Function.update v a (some y) ∧ Q r y) p v

theorem Keys.mono (h : Keys normalizeAccountServerUrl op a Q p x) (hQ : ∀ r y, Q r y → Q' r y) :
    Keys normalizeAccountServerUrl op a Q' p x := fun v hv =>
  (h v hv).mono fun r _ ⟨y, hw, hy⟩ => ⟨y, hw, hQ r y hy⟩

theorem Keys.bind {f : α → StoreM β} {Q' : Option β → AccountKeys → Prop} (h : Keys normalizeAccountServerUrl op a Q p x)
    (hsome : ∀ r y, Q (some r) y → Keys normalizeAccountServerUrl op a Q' (f r) y) (hnone : ∀ y, Q none y → Q' none y) :
    Keys normalizeAccountServerUrl op a Q' (p.bind f) x := by
  intro v hv
  refine Does.bind (h v hv) (fun r w hw => ?_) fun w ⟨y, hw, hy⟩ => ⟨y, hw, hnone y hy⟩
  obtain ⟨y, rfl, hy⟩ := hw
  refine (hsome r y hy _ (Function.update_self ..)).mono fun r' w' ⟨y', hw', hy'⟩ => ⟨y', ?_, hy'⟩
  rw [hw', Function.update_idem]

theorem Keys.orElse {handler : StoreM α} (h : Keys normalizeAccountServerUrl op a Q p x)
    (hsome : ∀ r y, Q (some r) y → Q' (some r) y)
    (hnone : ∀ y, Q none y → Keys normalizeAccountServerUrl op a Q' handler y) :
    Keys normalizeAccountServerUrl op a Q' (p.orElse handler) x := by
  intro v hv
  refine Does.orElse (h v hv) (fun r w ⟨y, hw, hy⟩ => ⟨y, hw, hsome r y hy⟩) fun w hw => ?_
  obtain ⟨y, rfl, hy⟩ := hw
  refine (hnone y hy _ (Function.update_self ..)).mono fun r' w' ⟨y', hw', hy'⟩ => ⟨y', ?_, hy'⟩
  rw [hw', Function.update_idem]

theorem keys_ret {r : α} (h : Q (some r) x) : Keys normalizeAccountServerUrl op a Q (.ret r) x := fun _ hv =>
  does_ret rely_touchedKeys ⟨x, (Function.update_eq_self_iff.mpr hv.symm).symm, h⟩

variable (hop : op.touched.has a = true)

include hop

theorem touchedKeys_of_update (h : t.accountKeys = Function.update s.accountKeys a y) :
    t.touchedKeys op = Function.update (s.touchedKeys op) a (some y) := by
  funext b
  unfold touchedKeys
  rw [h]
  by_cases hb : b = a
  · subst hb
    simp [hop]
  · simp [hb]

theorem accountKeys_of_touched {v : String → Option AccountKeys} (hv : v a = some x) (hs : s.touchedKeys op = v) :
    s.accountKeys a = x := by
  rw [← hs] at hv
  unfold touchedKeys at hv
  rw [if_pos hop] at hv
  exact Option.some.inj hv

theorem keys_await {Q : Option c.Response → AccountKeys → Prop}
    (h : ∀ (s : AccountStore) answer (t : AccountStore) r, s.KeysInv → s.accountKeys a = x → AnsweredFor op s c answer →
      s.perform c answer = some (t, r) → t.KeysInv ∧ ∃ y, t.accountKeys = Function.update s.accountKeys a y ∧ Q r y) :
    Keys normalizeAccountServerUrl op a Q (Async.await c) x := by
  intro v hv
  refine does_await rely_touchedKeys fun _ s hinv hs answer t r hanswered hperform => ?_
  obtain ⟨hinv', y, hkeys, hy⟩ := h s answer t r hinv (accountKeys_of_touched hop hv hs) hanswered hperform
  refine ⟨⟨trivial, fun b hb => ?_, trivial⟩, hinv', y, ?_, hy⟩
  · have hne : b ≠ a := by
      rintro rfl
      exact hb hop
    change s.accountKeys b = t.accountKeys b
    rw [hkeys, Function.update_of_ne hne]
  · rw [touchedKeys_of_update hop hkeys, hs]

/-- An operation that is to lock an account meets a failure only when no key of it is cached. -/
theorem not_locks_of_failed {r : Option c.Response} (hanswered : AnsweredFor op s c answer)
    (hperform : s.perform c answer = some (t, r)) (hr : r = none) (hx : s.accountKeys a = x) :
    op.locks a = true → x.entry = none := by
  intro hlocks
  subst hr hx
  have hcached := (hanswered (failed_of_rejected hperform)).2
  cases he : (s.accountKeys a).entry with
  | none => rfl
  | some e =>
    obtain ⟨hmem, rfl⟩ := mem_of_entry he
    rw [hcached e hmem] at hlocks
    cases hlocks

omit hop in
/-- Programs that do nothing with keys. -/
theorem keys_spares {p : StoreM α} (hp : p.Uses Command.sparesKeys) :
    Keys normalizeAccountServerUrl op a (fun _ y => y = x) p x := by
  intro v hv
  refine (does_of_uses rely_touchedKeys hp fun _ s c answer t r hc hinv hs _ hperform => ?_).mono fun _ w hw =>
    ⟨x, hw.trans (Function.update_eq_self_iff.mpr hv.symm).symm, rfl⟩
  obtain ⟨hinv', hkeys⟩ := hinv.of_spares (performed hperform) hc
  refine ⟨⟨trivial, fun b _ => (congrFun hkeys b).symm, trivial⟩, hinv', ?_⟩
  rw [← hs]
  unfold touchedKeys
  rw [hkeys]

/-- The same, when they reject only after a rejection. -/
theorem keys_answers {p : StoreM α} (hp : p.Answers Command.sparesKeys) :
    Keys normalizeAccountServerUrl op a (fun r y => y = x ∧ (r = none → op.locks a = true → x.entry = none)) p x := by
  intro v hv
  refine (does_of_answers rely_touchedKeys (G := op.locks a = true → x.entry = none) hp
    fun _ s c answer t r hc hinv hs hanswered hperform => ?_).mono fun _ w hw =>
    ⟨x, hw.1.trans (Function.update_eq_self_iff.mpr hv.symm).symm, rfl, hw.2⟩
  obtain ⟨hinv', hkeys⟩ := hinv.of_spares (performed hperform) hc
  refine ⟨⟨trivial, fun b _ => (congrFun hkeys b).symm, trivial⟩, hinv', ?_, fun hr =>
    not_locks_of_failed hop hanswered hperform hr (accountKeys_of_touched hop hv hs)⟩
  rw [← hs]
  unfold touchedKeys
  rw [hkeys]

/-- What the map says of the account. -/
theorem keys_readCache : Keys normalizeAccountServerUrl op a
    (fun r y => y = x ∧ r ≠ none ∧ (∀ cache, r = some cache → cache.find? (fun e : CacheEntry => e.accountId = a) = x.entry) ∧
      ∀ e, x.entry = some e → ∃ n, x.keys e.key = some ⟨n, true⟩) readCache x := by
  refine keys_await hop (c := .readCache) fun s answer t r hinv hs _ hperform => ?_
  cases answer with
  | done =>
    cases hperform
    refine ⟨hinv, x, (Function.update_eq_self_iff.mpr hs.symm).symm, rfl, nofun, fun cache h => ?_, fun e he => ?_⟩
    · rw [← Option.some.inj h, ← hs]
      rfl
    · rw [← hs] at he
      exact hs ▸ ⟨_, hinv.keys_of_entry he⟩
  | _ => cases hperform

theorem keys_unwrapKey (wrapped : String) : Keys normalizeAccountServerUrl op a
    (fun r y => (∀ key, r = some key → x.keys key = none ∧ y = { x with keys := Function.update x.keys key (some ⟨0, false⟩) }) ∧
      (r = none → y = x)) (unwrapKey a wrapped) x := by
  refine keys_await hop (c := .unwrapKey a wrapped) fun s answer t r hinv hs _ hperform => ?_
  cases answer with
  | key key =>
    obtain ⟨u, hu, hr⟩ := Option.map_eq_some_iff.mp hperform
    cases hr
    unfold makeKey at hu
    split at hu
    · next hnew =>
      cases hu
      subst hs
      refine ⟨hinv.unwrapKey hnew, _, unwrapKey_keys hinv hnew, fun key' hkey => ?_, nofun⟩
      obtain rfl := Option.some.inj hkey
      exact ⟨by simp [accountKeys, hnew], rfl⟩
    · cases hu
  | failed =>
    cases hperform
    exact ⟨hinv, x, (Function.update_eq_self_iff.mpr hs.symm).symm, nofun, fun _ => rfl⟩
  | _ => cases hperform

theorem keys_destroyKey (hkey : x.keys key = some ⟨0, true⟩) : Keys normalizeAccountServerUrl op a
    (fun r y => r ≠ none ∧ y = { x with keys := Function.update x.keys key (some ⟨1, true⟩) }) (destroyKey (some key)) x := by
  have hdestroy : Keys normalizeAccountServerUrl op a
      (fun r y => r ≠ none ∧ y = { x with keys := Function.update x.keys key (some ⟨1, true⟩) })
      (Async.await (Command.destroyKey key)) x := by
    refine keys_await hop fun s answer t r hinv hs hanswered hperform => ?_
    cases answer with
    | done =>
      cases hperform
      rw [← hs] at hkey
      obtain ⟨hdestined, hrecord⟩ := destined_of_keys hkey
      obtain ⟨hcount, howned⟩ := KeyRecord.mk.inj hrecord
      refine ⟨hinv.destroyKey hdestined hcount.symm, _, destroyKey_keys hdestined, nofun, ?_⟩
      rw [hs, ← hcount, ← howned]
    | failed => exact absurd (hanswered rfl).1 nofun
    | _ => cases hperform
  exact hdestroy.orElse (fun _ _ hy => hy) fun _ hy => absurd rfl hy.1

theorem keys_writeEntry_some {k : KeyRecord} (hlocked : x.locked = false) (hkey : x.keys key = some k) :
    Keys normalizeAccountServerUrl op a
      (fun r y => r ≠ none ∧ y.current = some key ∧ y.locked = false ∧
        y.keys = Function.update x.keys key (some ⟨k.destroyed, true⟩)) (writeEntry a (some key)) x := by
  refine keys_await hop (c := .setEntry a (some key)) fun s answer t r hinv hs _ hperform => ?_
  cases answer with
  | done =>
    cases hperform
    subst hs
    obtain ⟨hdestined, rfl⟩ := destined_of_keys hkey
    obtain ⟨e, he, hkeys⟩ := setEntry_keys hdestined
    exact ⟨hinv.setEntry hdestined hlocked, _, hkeys, nofun, congrArg some he, hlocked, rfl⟩
  | _ => cases hperform

theorem keys_writeEntry_none : Keys normalizeAccountServerUrl op a
    (fun r y => r ≠ none ∧ y = { x with entry := none }) (writeEntry a none) x := by
  refine keys_await hop (c := .setEntry a none) fun s answer t r hinv hs _ hperform => ?_
  cases answer with
  | done =>
    cases hperform
    subst hs
    exact ⟨hinv.deleteEntry a, _, deleteEntry_keys s a, nofun, rfl⟩
  | _ => cases hperform

/-! ### Unlocking one account -/

omit hop in
/-- Before a program, another that does nothing with keys. -/
theorem keys_after {f : α → StoreM β} {Q : Option β → AccountKeys → Prop} {p : StoreM α} (hp : p.Uses Command.sparesKeys)
    (hf : ∀ r, Keys normalizeAccountServerUrl op a Q (f r) x) (hnone : Q none x) :
    Keys normalizeAccountServerUrl op a Q (p.bind f) x :=
  (keys_spares hp).bind (fun r _ hy => hy ▸ hf r) fun _ hy => hy ▸ hnone

omit hop in
theorem keys_reading {f : α → StoreM β} {Q : Option β → AccountKeys → Prop} {p : StoreM α} (hp : p.Answers Command.reads)
    (hf : ∀ r, Keys normalizeAccountServerUrl op a Q (f r) x) (hnone : Q none x) :
    Keys normalizeAccountServerUrl op a Q (p.bind f) x :=
  keys_after (hp.uses.mono sparesKeys_of_reads) hf hnone

/-- A stored key is unwrapped: it is a new one. -/
theorem keys_decryptStoredMasterUnlockKey (skipBiometric : Bool) (hfree : x.Free) : Keys normalizeAccountServerUrl op a
    (fun r y => y.Free ∧ y.locked = x.locked ∧ ∀ key, r = some (some key) → y.keys key = some ⟨0, false⟩)
    (decryptStoredMasterUnlockKey a skipBiometric) x := by
  have hrefuse : ∀ r : Option (Option MasterKeyRef), r.bind id = none →
      x.Free ∧ x.locked = x.locked ∧ ∀ key, r = some (some key) → x.keys key = some ⟨0, false⟩ := by
    intro r hr
    refine ⟨hfree, rfl, fun key hkey => ?_⟩
    rw [hkey] at hr
    cases hr
  have hunwrap : ∀ session : StoredSessionData, Keys normalizeAccountServerUrl op a
      (fun r y => y.Free ∧ y.locked = x.locked ∧ ∀ key, r = some (some key) → y.keys key = some ⟨0, false⟩)
      (Async.orElse
        (do
          getDeviceKey
          return some (← unwrapKey a session.encryptedMasterUnlockKey))
        (return none)) x := by
    intro session
    refine Keys.orElse (Q := fun r y => (r = none → y = x) ∧ (y.Free ∧ y.locked = x.locked ∧
      ∀ key, r = some (some key) → y.keys key = some ⟨0, false⟩)) ?_ (fun _ _ hy => hy.2) fun y hy => ?_
    · refine keys_after (Async.uses_await trivial) (fun _ => ?_) ⟨fun _ => rfl, hrefuse none rfl⟩
      refine (keys_unwrapKey hop _).bind (fun key y hy => ?_) fun y hy => ?_
      · obtain ⟨-, rfl⟩ := hy.1 key rfl
        refine keys_ret ⟨nofun, hfree.made key, rfl, fun key' hkey' => ?_⟩
        obtain rfl := Option.some.inj (Option.some.inj hkey')
        exact Function.update_self ..
      · obtain rfl := hy.2 rfl
        exact ⟨fun _ => rfl, hrefuse none rfl⟩
    · obtain rfl := hy.1 rfl
      exact keys_ret (hrefuse (some none) rfl)
  refine keys_reading (reads_getStoredSessionData a) (fun session => ?_) (hrefuse none rfl)
  cases session with
  | none => exact keys_ret (hrefuse (some none) rfl)
  | some session =>
    refine keys_reading (reads_isMasterPasswordReentryRequired a) (fun due => ?_) (hrefuse none rfl)
    split
    · exact keys_ret (hrefuse (some none) rfl)
    · dsimp only
      split
      · refine keys_reading (reads_isBiometricAuthRequired a) (fun required => ?_) (hrefuse none rfl)
        split
        · refine keys_after (spares_authenticateWithBiometric a) (fun authenticated => ?_) (hrefuse none rfl)
          split
          · exact hunwrap session
          · exact keys_ret (hrefuse (some none) rfl)
        · exact hunwrap session
      · exact hunwrap session

/-- What an unlock leaves. -/
def Unlocks (_ : Option α) (y : AccountKeys) : Prop := y.Free ∧ y.locked = false

/-- The key that was cached is destroyed, and the other is the current one. -/
theorem keys_unlock (hfree : x.Free) (hlocked : x.locked = false) {owned : Bool} (hkey : x.keys key = some ⟨0, owned⟩) :
    Keys normalizeAccountServerUrl op a Unlocks (setUnlockEntry a (some key)) x := by
  unfold setUnlockEntry
  refine (keys_readCache hop).bind (fun cache y hy => ?_) fun y hy => hy.1 ▸ ⟨hfree, hlocked⟩
  obtain ⟨rfl, -, hfind, howned⟩ := hy
  rw [hfind cache rfl]
  refine keys_after ((answers_refreshNativeView _).uses) (fun _ => ?_) ⟨hfree, hlocked⟩
  have hwrite : ∀ z : AccountKeys, z.locked = false → z.keys key = some ⟨0, owned⟩ →
      (∀ key' k, key' ≠ key → z.keys key' = some k → k.destroyed = if k.owned then 1 else 0) →
      Keys normalizeAccountServerUrl op a Unlocks (writeEntry a (some key)) z := by
    intro z hz hzkey hothers
    refine (keys_writeEntry_some hop hz hzkey).mono fun r w hw => ⟨fun key' k hk => ?_, hw.2.2.1⟩
    obtain ⟨-, hcurrent, -, hkeys⟩ := hw
    rw [hcurrent]
    rw [hkeys] at hk
    by_cases hne : key' = key
    · subst hne
      rw [Function.update_self] at hk
      cases hk
      simp
    · rw [Function.update_of_ne hne] at hk
      simpa [Ne.symm hne] using hothers key' k hne hk
  dsimp only
  cases he : y.entry with
  | none =>
    rw [if_pos (by simp)]
    refine hwrite y hlocked hkey fun key' k _ hk => ?_
    simpa [AccountKeys.current, he] using hfree key' k hk
  | some e =>
    have hfreeOthers : ∀ key' k, key' ≠ e.key → y.keys key' = some k → k.destroyed = if k.owned then 1 else 0 := by
      intro key' k hne hk
      simpa [AccountKeys.current, he, Ne.symm hne] using hfree key' k hk
    by_cases heq : e.key = key
    · rw [if_neg (by simp [heq])]
      exact hwrite y hlocked hkey fun key' k hne hk => hfreeOthers key' k (heq ▸ hne) hk
    · rw [if_pos (by simpa using heq)]
      obtain ⟨n, hn⟩ := howned e he
      have hzero : n = 0 := by simpa [AccountKeys.current, he] using hfree e.key _ hn
      subst hzero
      refine (keys_destroyKey hop hn).bind (fun _ z hz => ?_) fun z hz => absurd rfl hz.1
      obtain ⟨-, rfl⟩ := hz
      refine hwrite _ hlocked ?_ fun key' k hne hk => ?_
      · simpa [Ne.symm heq] using hkey
      · by_cases hne' : key' = e.key
        · subst hne'
          simp only [Function.update_self, Option.some.injEq] at hk
          subst hk
          rfl
        · simp only [Function.update_of_ne hne'] at hk
          exact hfreeOthers key' k hne' hk

/-- What the stored key of the account comes to, when nothing fails. -/
theorem keys_unlockStored {f : Option MasterKeyRef → StoreM β} (skipBiometric : Bool) (hx : Unlocks (none : Option Unit) x)
    (hnone : ∀ y, Unlocks (none : Option Unit) y → Keys normalizeAccountServerUrl op a Unlocks (f none) y)
    (hsome : ∀ key y, Unlocks (none : Option Unit) y → y.keys key = some ⟨0, false⟩ →
      Keys normalizeAccountServerUrl op a Unlocks (f (some key)) y) :
    Keys normalizeAccountServerUrl op a Unlocks ((decryptStoredMasterUnlockKey a skipBiometric).bind f) x := by
  refine (keys_decryptStoredMasterUnlockKey hop skipBiometric hx.1).bind (fun muk y hy => ?_) fun y hy =>
    ⟨hy.1, hy.2.1.trans hx.2⟩
  obtain ⟨hfree, hlocked, hkeys⟩ := hy
  cases muk with
  | none => exact hnone y ⟨hfree, hlocked.trans hx.2⟩
  | some muk => exact hsome muk y ⟨hfree, hlocked.trans hx.2⟩ (hkeys muk rfl)

theorem keys_tryRestoreSession (skipBiometric : Bool) (hx : Unlocks (none : Option Unit) x) :
    Keys normalizeAccountServerUrl op a Unlocks (tryRestoreSession skipBiometric a) x := by
  refine keys_reading (reads_isSessionValid a) (fun sessionValid => ?_) hx
  split
  · refine keys_reading reads_readCache (fun cache => ?_) hx
    split
    · exact keys_ret hx
    · refine keys_unlockStored hop skipBiometric hx (fun y hy => keys_ret hy) fun muk y hy hkey => ?_
      exact (keys_unlock hop hy.1 hy.2 hkey).bind (fun _ z hz => keys_ret hz) fun _ hz => hz
  · exact keys_ret hx

theorem keys_tryRestoreSessionWithoutPrompt (hx : Unlocks (none : Option Unit) x) :
    Keys normalizeAccountServerUrl op a Unlocks (tryRestoreSessionWithoutPrompt a) x := by
  refine keys_reading reads_readCache (fun cache => ?_) hx
  split
  · exact keys_ret hx
  · refine keys_reading (reads_isBiometricAuthRequired a) (fun required => ?_) hx
    split
    · exact keys_ret hx
    · exact keys_tryRestoreSession hop true hx

theorem keys_unlockWithBiometric (hx : Unlocks (none : Option Unit) x) :
    Keys normalizeAccountServerUrl op a Unlocks (unlockWithBiometric a) x := by
  refine Keys.orElse (Q := Unlocks) ?_ (fun _ _ hy => hy) fun _ hy => keys_ret hy
  refine keys_reading (reads_canBiometricUnlock a) (fun can => ?_) hx
  split
  · refine keys_unlockStored hop false hx (fun y hy => keys_ret hy) fun muk y hy hkey => ?_
    exact (keys_unlock hop hy.1 hy.2 hkey).bind (fun _ z hz => keys_ret hz) fun _ hz => hz
  · exact keys_ret hx

theorem keys_unlockAuthenticated (hx : Unlocks (none : Option Unit) x) :
    Keys normalizeAccountServerUrl op a Unlocks (unlockAuthenticated a) x := by
  refine Keys.orElse (Q := Unlocks) ?_ (fun _ _ hy => hy) fun _ hy => keys_ret hy
  exact keys_unlockStored hop true hx (fun y hy => keys_ret hy) fun muk y hy hkey => keys_unlock hop hy.1 hy.2 hkey

/-! ### Locking one account -/

/-- What a lock leaves, also when it is rejected. -/
def Locks (op : StoreOp) (a : String) (_ : Option α) (y : AccountKeys) : Prop :=
  y.Free ∧ (op.locks a = true → y.entry = none)

/-- The cached key is destroyed, and there is none. -/
theorem keys_drop (hfree : x.Free) (hcurrent : ∀ e, x.entry = some e → ∃ n, x.keys e.key = some ⟨n, true⟩) :
    Keys normalizeAccountServerUrl op a (fun r y => r ≠ none ∧ y.Free ∧ y.entry = none)
      ((destroyKey x.current).bind fun _ => writeEntry a none) x := by
  cases he : x.entry with
  | none =>
    simp only [AccountKeys.current, he, Option.map_none]
    refine (keys_writeEntry_none hop).mono fun r y hy => ?_
    obtain ⟨hr, rfl⟩ := hy
    refine ⟨hr, fun key k hk => ?_, rfl⟩
    simpa [AccountKeys.current, he] using hfree key k hk
  | some e =>
    obtain ⟨n, hn⟩ := hcurrent e he
    have hzero : n = 0 := by simpa [AccountKeys.current, he] using hfree e.key _ hn
    subst hzero
    simp only [AccountKeys.current, he, Option.map_some]
    refine (keys_destroyKey hop hn).bind (fun _ y hy => ?_) fun y hy => absurd rfl hy.1
    obtain ⟨-, rfl⟩ := hy
    refine (keys_writeEntry_none hop).mono fun r z hz => ?_
    obtain ⟨hr, rfl⟩ := hz
    refine ⟨hr, fun key k hk => ?_, rfl⟩
    by_cases hne : key = e.key
    · subst hne
      simp only [Function.update_self, Option.some.injEq] at hk
      subst hk
      simp [AccountKeys.current]
    · simp only [Function.update_of_ne hne] at hk
      simpa [AccountKeys.current, he, Ne.symm hne] using hfree key k hk

theorem keys_lock (hfree : x.Free) : Keys normalizeAccountServerUrl op a (Locks op a) (setUnlockEntry a none) x := by
  unfold setUnlockEntry
  refine (keys_readCache hop).bind (fun cache y hy => ?_) fun y hy => absurd rfl hy.2.1
  obtain ⟨rfl, -, hfind, howned⟩ := hy
  rw [hfind cache rfl]
  refine (keys_answers hop (answers_refreshNativeView _)).bind (fun _ z hz => ?_) fun z hz => ?_
  · obtain ⟨rfl, -⟩ := hz
    have hdropped : Keys normalizeAccountServerUrl op a _ _ _ := keys_drop hop hfree howned
    have hdrop : Keys normalizeAccountServerUrl op a (Locks op a) _ _ :=
      hdropped.mono fun _ _ hw => ⟨hw.2.1, fun _ => hw.2.2⟩
    dsimp only
    split
    · exact hdrop
    · next hcurrent =>
      have hnone : z.current = none := not_not.mp hcurrent
      rw [hnone] at hdrop
      exact hdrop
  · obtain ⟨rfl, hz⟩ := hz
    exact ⟨hfree, hz rfl⟩

/-- A program before a lock; when it is rejected, there was nothing to lock. -/
theorem keys_before {f : α → StoreM β} {p : StoreM α} (hp : p.Answers Command.sparesKeys) (hfree : x.Free)
    (hf : ∀ r, Keys normalizeAccountServerUrl op a (Locks op a) (f r) x) :
    Keys normalizeAccountServerUrl op a (Locks op a) (p.bind f) x := by
  refine (keys_answers hop hp).bind (fun r y hy => ?_) fun y hy => ?_
  · obtain ⟨rfl, -⟩ := hy
    exact hf r
  · obtain ⟨rfl, hy⟩ := hy
    exact ⟨hfree, hy rfl⟩

theorem keys_clearSession (hfree : x.Free) : Keys normalizeAccountServerUrl op a (Locks op a) (clearSession a) x := by
  refine keys_before hop (answers_deleteValue _) hfree fun _ => ?_
  refine keys_before hop (answers_deleteValue _) hfree fun _ => ?_
  refine keys_before hop (answers_deleteValue _) hfree fun _ => ?_
  refine keys_before hop (answers_deleteValue _) hfree fun _ => ?_
  refine (keys_readCache hop).bind (fun cache y hy => ?_) fun y hy => absurd rfl hy.2.1
  obtain ⟨rfl, -, hfind, -⟩ := hy
  split
  · exact keys_lock hop hfree
  · next hany =>
    have hnone : y.entry = none := by
      rw [← hfind cache rfl]
      simpa using hany
    exact keys_ret ⟨hfree, fun _ => hnone⟩

omit hop in
/-- After a lock, whatever does nothing with keys. -/
theorem locks_then {f : α → StoreM β} {p : StoreM α} (hp : Keys normalizeAccountServerUrl op a (Locks op a) p x)
    (hf : ∀ r, (f r).Uses Command.sparesKeys) : Keys normalizeAccountServerUrl op a (Locks op a) (p.bind f) x :=
  hp.bind (fun r _ hy => (keys_spares (hf r)).mono fun _ _ hz => hz ▸ hy) fun _ hy => hy

theorem keys_removeAccountInternal (hfree : x.Free) :
    Keys normalizeAccountServerUrl op a (Locks op a) (removeAccountInternal a) x := by
  have hrest : Keys normalizeAccountServerUrl op a (Locks op a)
      (do
        ACCOUNT_VALUES.forM fun name => deleteValue (.account a name)
        let cache ← readCache
        destroyKey ((List.find? (fun e : CacheEntry => e.accountId = a) cache).map CacheEntry.key)
        writeEntry a none
        let accounts ← readAccountsList
        writeAccountsList (accounts.filter (·.accountId ≠ a))) x := by
    refine keys_before hop (Async.Answers.forM fun name _ => answers_deleteValue _) hfree fun _ => ?_
    refine (keys_readCache hop).bind (fun cache y hy => ?_) fun y hy => absurd rfl hy.2.1
    obtain ⟨rfl, -, hfind, howned⟩ := hy
    rw [hfind cache rfl]
    have hdropped : Keys normalizeAccountServerUrl op a _ _ _ := keys_drop hop hfree howned
    have hdrop : Keys normalizeAccountServerUrl op a (Locks op a) _ _ :=
      hdropped.mono fun _ _ hw => ⟨hw.2.1, fun _ => hw.2.2⟩
    have hall := locks_then (f := fun _ => do
      let accounts ← readAccountsList
      writeAccountsList (accounts.filter (·.accountId ≠ a))) hdrop fun _ =>
        ((reads_readAccountsList.mono sparesKeys_of_reads).bind fun _ => answers_writeAccountsList _).uses
    rw [Async.bind_assoc] at hall
    exact hall
  refine keys_before hop ((reads_readValue _).mono sparesKeys_of_reads) hfree fun active => ?_
  dsimp only
  split
  · exact keys_before hop (answers_writeActiveAccount none) hfree fun _ => hrest
  · exact hrest

end Keys

/-! ## Operations -/

section Operations

variable {α : Type} {p : StoreM α} {x : AccountKeys} {v : String → Option AccountKeys}

/-- What a program of the operation does to the keys of all accounts that it touches. -/
abbrev AllKeys (normalizeAccountServerUrl : String → String) (op : StoreOp)
    (Q : Option α → (String → Option AccountKeys) → Prop) (p : StoreM α) (v : String → Option AccountKeys) : Prop :=
  Does ((keysResources normalizeAccountServerUrl).contract op) AccountStore.perform (touchedKeys op) Q p v

/-- When an operation has settled, its accounts are free, and locked if it was to lock them. -/
def Settled (op : StoreOp) (_ : Option α) (w : String → Option AccountKeys) : Prop :=
  ∀ b y, w b = some y → y.Free ∧ (op.locks b = true → y.entry = none)

theorem allKeys_spares {p : StoreM α} (hp : p.Uses Command.sparesKeys) :
    AllKeys normalizeAccountServerUrl op (fun _ w => w = v) p v := by
  refine does_of_uses rely_touchedKeys hp fun _ s c answer t r hc hinv hs _ hperform => ?_
  obtain ⟨hinv', hkeys⟩ := hinv.of_spares (performed hperform) hc
  refine ⟨⟨trivial, fun b _ => (congrFun hkeys b).symm, trivial⟩, hinv', ?_⟩
  rw [← hs]
  unfold touchedKeys
  rw [hkeys]

/-- An operation that locks no account but the one. -/
theorem settled_of_locks (hv : ∀ b x, v b = some x → x.Free) (hlocks : ∀ b, op.locks b = true → b = a)
    (hx : v a = some x) (h : Keys normalizeAccountServerUrl op a (Locks op a) p x) :
    AllKeys normalizeAccountServerUrl op (Settled op) p v := by
  refine (h v hx).mono fun r w hw b y hy => ?_
  obtain ⟨z, rfl, hfree, hlocked⟩ := hw
  by_cases hb : b = a
  · subst hb
    rw [Function.update_self] at hy
    obtain rfl := Option.some.inj hy
    exact ⟨hfree, hlocked⟩
  · rw [Function.update_of_ne hb] at hy
    exact ⟨hv b y hy, fun h => absurd (hlocks b h) hb⟩

theorem locks_of_unlocks (hlocks : op.locks a = false) (h : Keys normalizeAccountServerUrl op a Unlocks p x) :
    Keys normalizeAccountServerUrl op a (Locks op a) p x :=
  h.mono fun _ _ hy => ⟨hy.1, fun h => by rw [hlocks] at h; cases h⟩

/-- The batch: every account stays free. -/
theorem settled_unlockEach (hop : op.touched = .everybody) (hlocks : ∀ b, op.locks b = false) (accounts : List AccountMetadata)
    (hv : ∀ b, ∃ x, v b = some x ∧ Unlocks (none : Option Unit) x) :
    AllKeys normalizeAccountServerUrl op (Settled op)
      (accounts.forM fun account => unlockAuthenticated account.accountId) v := by
  have hpost : ∀ v : String → Option AccountKeys, (∀ b, ∃ x, v b = some x ∧ Unlocks (none : Option Unit) x) →
      Settled op (none : Option Unit) v := by
    intro v hv b y hy
    obtain ⟨x, hx, hfree, -⟩ := hv b
    rw [hx] at hy
    obtain rfl := Option.some.inj hy
    exact ⟨hfree, fun h => by rw [hlocks] at h; cases h⟩
  induction accounts generalizing v with
  | nil => exact does_ret rely_touchedKeys (hpost v hv)
  | cons account accounts ih =>
    obtain ⟨x, hx, hunlocks⟩ := hv account.accountId
    have htouched : op.touched.has account.accountId = true := by rw [hop]; rfl
    have hone : AllKeys normalizeAccountServerUrl op (fun _ w => ∀ b, ∃ x, w b = some x ∧ Unlocks (none : Option Unit) x)
        (unlockAuthenticated account.accountId) v := by
      refine (keys_unlockAuthenticated htouched hunlocks v hx).mono fun r w hw b => ?_
      obtain ⟨y, rfl, hy⟩ := hw
      by_cases hb : b = account.accountId
      · subst hb
        exact ⟨y, Function.update_self .., hy⟩
      · rw [Function.update_of_ne hb]
        exact hv b
    exact Does.bind hone (fun _ w hw => ih hw) fun w hw => hpost w hw

theorem settled_unlockAll (hop : op.touched = .everybody) (hlocks : ∀ b, op.locks b = false)
    (hv : ∀ b, ∃ x, v b = some x ∧ Unlocks (none : Option Unit) x) :
    AllKeys normalizeAccountServerUrl op (Settled op) unlockAllAccountsWithBiometric v := by
  have hkept : Settled op (none : Option Unit) v := by
    intro b y hy
    obtain ⟨x, hx, hfree, -⟩ := hv b
    rw [hx] at hy
    obtain rfl := Option.some.inj hy
    exact ⟨hfree, fun h => by rw [hlocks] at h; cases h⟩
  refine Does.bind (allKeys_spares (reads_readAccountsList.uses.mono sparesKeys_of_reads)) (fun accounts w hw => ?_)
    fun _ hw => hw ▸ hkept
  subst hw
  refine Does.bind (allKeys_spares ((reads_firstBiometricAccount accounts).uses.mono sparesKeys_of_reads))
    (fun first w hw => ?_) fun _ hw => hw ▸ hkept
  subst hw
  cases first with
  | none => exact does_ret rely_touchedKeys hkept
  | some first =>
    refine Does.bind (allKeys_spares (spares_authenticateWithBiometric first)) (fun authenticated w hw => ?_)
      fun _ hw => hw ▸ hkept
    subst hw
    split
    · exact settled_unlockEach hop hlocks accounts hv
    · exact does_ret rely_touchedKeys hkept

/-! ### Locking all accounts -/

/-- The next entry of the map is the one with the least serial. -/
theorem nextEntry_some {after : Option Nat} {e : CacheEntry} (hinv : s.KeysInv) (h : s.nextEntry after = some e) :
    e ∈ s.mukCache ∧ (∀ n ∈ after, n < e.serial) ∧
      ∀ e' ∈ s.mukCache, e' = e ∨ e.serial < e'.serial ∨ ∃ n ∈ after, e'.serial ≤ n := by
  obtain ⟨hafter, before, later, hcache, hbefore⟩ := List.find?_eq_some_iff_append.mp h
  have hordered := hinv.ordered
  rw [hcache] at hordered
  refine ⟨List.mem_of_find?_eq_some h, fun n hn => ?_, fun e' he' => ?_⟩
  · obtain rfl := Option.mem_def.mp hn
    simpa using hafter
  · rw [hcache] at he'
    rcases List.mem_append.mp he' with he' | he'
    · refine .inr (.inr ?_)
      cases after with
      | none => simpa using hbefore e' he'
      | some n => exact ⟨n, rfl, by simpa using hbefore e' he'⟩
    · rcases List.mem_cons.mp he' with rfl | he'
      · exact .inl rfl
      · exact .inr (.inl (List.rel_of_pairwise_cons (List.pairwise_append.mp hordered).2.1 he'))

theorem nextEntry_none {after : Option Nat} (h : s.nextEntry after = none) {e : CacheEntry} (he : e ∈ s.mukCache) :
    ∃ n ∈ after, e.serial ≤ n := by
  have hspent := List.find?_eq_none.mp h e he
  cases after with
  | none => exact absurd rfl hspent
  | some n => exact ⟨n, rfl, by simpa using hspent⟩

/-- All accounts are touched, and their keys up to a serial are destroyed. -/
def Destroying (after : Option Nat) (v : String → Option AccountKeys) : Prop := ∀ b, ∃ x, v b = some x ∧ x.FreeFrom after

/-- No account has a key any more. -/
def Cleared (v : String → Option AccountKeys) : Prop := ∀ b, ∃ x, v b = some x ∧ x.Free ∧ x.entry = none

theorem accountKeys_of_everybody (hop : op.touched = .everybody) (hs : s.touchedKeys op = v) (b : String) :
    v b = some (s.accountKeys b) := by
  rw [← hs]
  unfold touchedKeys
  rw [hop]
  rfl

/-- What one step of the iteration comes to. -/
theorem allKeys_nextEntry (hop : op.touched = .everybody) {after : Option Nat} (hv : Destroying after v) :
    AllKeys normalizeAccountServerUrl op (fun r w => (r = some none ∧ Cleared w) ∨ ∃ e : CacheEntry, r = some (some e) ∧ w = v ∧
      (∃ x, v e.accountId = some x ∧ x.entry = some e ∧ x.keys e.key = some ⟨0, true⟩) ∧ (∀ n ∈ after, n < e.serial) ∧
      ∀ b x e', v b = some x → x.entry = some e' →
        b = e.accountId ∨ e.serial < e'.serial ∨ ∃ n ∈ after, e'.serial ≤ n)
      (Async.await (Command.nextEntry after)) v := by
  refine does_await (c := .nextEntry after) rely_touchedKeys fun _ s hinv hs answer t r _ hperform => ?_
  have hkeys := accountKeys_of_everybody hop hs
  have hfreeFrom : ∀ b, (s.accountKeys b).FreeFrom after := by
    intro b
    obtain ⟨x, hx, hfree⟩ := hv b
    rw [hkeys b] at hx
    exact Option.some.inj hx ▸ hfree
  have hguar : ((keysResources normalizeAccountServerUrl).contract op).guar [] s (.nextEntry after) t :=
    ⟨trivial, fun b hb => absurd (by change op.touched.has b = true; rw [hop]; rfl) hb, trivial⟩
  cases answer with
  | done =>
    simp only [perform] at hperform
    cases hnext : s.nextEntry after with
    | some e =>
      rw [hnext] at hperform
      cases hperform
      obtain ⟨hmem, hafter, hleast⟩ := nextEntry_some hinv hnext
      have hentry := hinv.entry_of_mem hmem
      refine ⟨hguar, hinv, .inr ⟨e, rfl, hs, ⟨_, hkeys e.accountId, hentry, ?_⟩, hafter, fun b x e' hx he' => ?_⟩⟩
      · have hrecord := hinv.keys_of_entry hentry
        have hzero := hfreeFrom e.accountId e.key _ hrecord
        have hnot : ¬ ∃ n, after = some n ∧ e.serial ≤ n := fun ⟨n, hn, hle⟩ => Nat.not_lt.mpr hle (hafter n hn)
        rw [hrecord, show s.destroyed.count e.key = 0 by simpa [AccountKeys.current, hentry, hnot] using hzero]
      · rw [hkeys b] at hx
        obtain rfl := Option.some.inj hx
        obtain ⟨hmem', rfl⟩ := mem_of_entry he'
        exact (hleast e' hmem').imp (congrArg CacheEntry.accountId) id
    | none =>
      rw [hnext] at hperform
      cases hperform
      refine ⟨hguar, hinv.clear, .inl ⟨rfl, fun b => ⟨{ s.accountKeys b with entry := none }, ?_, fun key k hk => ?_, rfl⟩⟩⟩
      · unfold touchedKeys
        rw [clear_keys, hop]
        rfl
      · have hdone := hfreeFrom b key k hk
        simp only [AccountKeys.current, Option.map_none, ne_eq, reduceCtorEq, not_false_eq_true, and_true]
        by_cases hcurrent : (s.accountKeys b).current = some key
        · obtain ⟨e, he, -⟩ := Option.map_eq_some_iff.mp hcurrent
          obtain ⟨n, hn, hle⟩ := nextEntry_none hnext (mem_of_entry he).1
          have hspent : ∃ e, (s.accountKeys b).entry = some e ∧ ∃ n, after = some n ∧ e.serial ≤ n := ⟨e, he, n, hn, hle⟩
          simpa [hspent] using hdone
        · simpa [hcurrent] using hdone
  | _ => cases hperform

/-- Each key is destroyed once, also the ones of the entries still to come. -/
theorem allKeys_destroyEntries (hop : op.touched = .everybody) (rounds : Nat) (after : Option Nat) (hv : Destroying after v) :
    AllKeys normalizeAccountServerUrl op (fun r w => r ≠ none ∧ Cleared w) (destroyEntries rounds after) v := by
  induction rounds generalizing after v with
  | zero =>
    refine Does.bind (Q := fun _ _ => False) (does_await rely_touchedKeys fun _ s _ _ answer t r _ hperform => ?_)
      (fun _ _ h => h.elim) fun _ h => h.elim
    cases answer <;> cases hperform
  | succ rounds ih =>
    refine Does.bind (allKeys_nextEntry hop hv) (fun next w hw => ?_) fun w hw => ?_
    · rcases hw with ⟨hnext, hcleared⟩ | ⟨e, hnext, rfl, ⟨x, hx, hentry, hkey⟩, hafter, hleast⟩
      · obtain rfl := Option.some.inj hnext
        exact does_ret rely_touchedKeys ⟨nofun, hcleared⟩
      · obtain rfl := Option.some.inj hnext
        have htouched : op.touched.has e.accountId = true := by rw [hop]; rfl
        refine Does.bind (keys_destroyKey htouched hkey _ hx) (fun _ u hu => ih (some e.serial) fun b => ?_)
          fun u ⟨_, _, hr, _⟩ => absurd rfl hr
        obtain ⟨y, rfl, -, rfl⟩ := hu
        by_cases hb : b = e.accountId
        · subst hb
          obtain ⟨x', hx', hfree⟩ := hv e.accountId
          obtain rfl := Option.some.inj (hx.symm.trans hx')
          refine ⟨_, Function.update_self .., fun key k hk => ?_⟩
          by_cases hne : key = e.key
          · subst hne
            simp only [Function.update_self, Option.some.injEq] at hk
            subst hk
            simp [hentry]
          · simp only [Function.update_of_ne hne] at hk
            have hcurrent : x.current ≠ some key := by simp [AccountKeys.current, hentry, Ne.symm hne]
            have hdone := hfree key k hk
            simp only [ne_eq, hcurrent, not_false_eq_true, true_or, and_true] at hdone
            simpa [AccountKeys.current, hentry, Ne.symm hne] using hdone
        · rw [Function.update_of_ne hb]
          obtain ⟨x', hx', hfree⟩ := hv b
          refine ⟨x', hx', fun key k hk => ?_⟩
          have hsame : (∃ e' ∈ x'.entry, ∃ n ∈ after, e'.serial ≤ n) ↔ ∃ e' ∈ x'.entry, ∃ n ∈ some e.serial, e'.serial ≤ n := by
            refine ⟨fun ⟨e', he', n, hn, hle⟩ => ⟨e', he', _, rfl, Nat.le_of_lt (Nat.lt_of_le_of_lt hle (hafter n hn))⟩,
              fun ⟨e', he', n, hn, hle⟩ => ?_⟩
            obtain rfl := Option.mem_some_iff.mp hn
            rcases hleast b x' e' hx' he' with hsame | hlt | hspent
            · exact absurd hsame hb
            · exact absurd hle (Nat.not_le.mpr hlt)
            · exact ⟨e', he', hspent⟩
          rw [hfree key k hk]
          simp only [hsame]
    · rcases hw with ⟨hnext, -⟩ | ⟨e, hnext, -⟩ <;> cases hnext

theorem settled_of_cleared (hv : Cleared v) : Settled op (none : Option Unit) v := by
  intro b y hy
  obtain ⟨x, hx, hfree, hentry⟩ := hv b
  rw [hx] at hy
  obtain rfl := Option.some.inj hy
  exact ⟨hfree, fun _ => hentry⟩

theorem settled_lockAllAccounts (hop : op.touched = .everybody) (rounds : Nat)
    (hv : ∀ b, ∃ x, v b = some x ∧ x.Free) :
    AllKeys normalizeAccountServerUrl op (Settled op) (lockAllAccounts rounds) v := by
  refine Does.bind (allKeys_destroyEntries hop rounds none fun b => ?_) (fun _ w hw => ?_) fun _ hw => absurd rfl hw.1
  · obtain ⟨x, hx, hfree⟩ := hv b
    exact ⟨x, hx, AccountKeys.freeFrom_none.mpr hfree⟩
  · have hrest : (do
        let accounts ← readAccountsList
        accounts.forM fun account => deleteValue (.account account.accountId .lastBiometricAuth)
        refreshNativeViewNow : StoreM Unit).Uses Command.sparesKeys :=
      ((reads_readAccountsList.mono sparesKeys_of_reads).bind fun accounts =>
        (Async.Answers.forM fun account _ => answers_deleteValue _).bind fun _ => answers_refreshNativeViewNow).uses
    exact (allKeys_spares hrest).mono fun _ _ hu => hu ▸ settled_of_cleared hw.2

/-! ### Removing the data of an account -/

theorem spares_clearWhenEmpty : (do
    if (← readAccountsList).isEmpty then
      deleteValue (.global .deviceKey)
      dropDeviceKey
      writeActiveAccount none : StoreM Unit).Uses Command.sparesKeys := by
  refine (reads_readAccountsList.uses.mono sparesKeys_of_reads).bind fun accounts => ?_
  split
  · exact (answers_deleteValue _).uses.bind fun _ => .bind (Async.uses_await trivial) fun _ =>
      (answers_writeActiveAccount none).uses
  · trivial

theorem settled_clearAllStoredData (hop : op = .clearAllStoredData none) (hv : ∀ b, ∃ x, v b = some x ∧ x.Free) :
    AllKeys normalizeAccountServerUrl op (Settled op) (clearAllStoredData none) v := by
  subst hop
  have hfree : ∀ b x, v b = some x → x.Free := by
    intro b x hx
    obtain ⟨y, hy, hfree⟩ := hv b
    exact Option.some.inj (hx.symm.trans hy) ▸ hfree
  have hkept : Settled (.clearAllStoredData none) (none : Option Unit) v := fun b y hy => ⟨hfree b y hy, nofun⟩
  refine Does.bind (allKeys_spares ((reads_readValue (.global .activeAccount)).uses.mono sparesKeys_of_reads))
    (fun resolved w hw => ?_) fun _ hw => hw ▸ hkept
  subst hw
  cases (resolved : Option String) with
  | none => exact (allKeys_spares spares_clearWhenEmpty).mono fun _ _ hw => hw ▸ hkept
  | some a =>
    obtain ⟨x, hx, hxfree⟩ := hv a
    exact settled_of_locks hfree nofun hx (locks_then (keys_removeAccountInternal rfl hxfree) fun _ => spares_clearWhenEmpty)

/-! ### Every operation -/

theorem spares_setBiometricEnabled (accountId : String) (enabled : Bool) :
    (setBiometricEnabled accountId enabled).Uses Command.sparesKeys := by
  refine .bind (Async.uses_await trivial) fun _ => (reads_readAccountsList.uses.mono sparesKeys_of_reads).bind fun accounts => ?_
  refine Async.Uses.ite_then (answers_writeAccountsList _).uses ?_
  refine ((reads_getStoredSessionData accountId).uses.mono sparesKeys_of_reads).bind fun session => ?_
  cases session with
  | none => exact answers_refreshNativeViewNow.uses
  | some session => exact Async.Uses.ite_then (Async.uses_await trivial) answers_refreshNativeViewNow.uses

theorem spares_authenticateWithBiometricEnhanced (accountId : String) :
    (authenticateWithBiometricEnhanced accountId).Uses Command.sparesKeys := by
  refine .orElse (.bind (Async.uses_await trivial) fun details => ?_) trivial
  dsimp only
  split
  · refine ((reads_isBiometricEnabled accountId).uses.mono sparesKeys_of_reads).bind fun enabled => ?_
    split
    · refine ((reads_isSessionValid accountId).uses.mono sparesKeys_of_reads).bind fun sessionValid => ?_
      split
      · refine ((reads_isMasterPasswordReentryRequired accountId).uses.mono sparesKeys_of_reads).bind fun due => ?_
        split
        · trivial
        · refine .bind (Async.uses_await trivial) fun success => ?_
          split
          · exact .bind (Async.uses_await trivial) fun _ => .bind (Async.uses_await trivial) fun _ =>
              .bind (Async.uses_await trivial) fun _ => trivial
          · trivial
      · trivial
    · trivial
  · trivial

theorem spares_addAccount (metadata : AccountMetadata) :
    (addAccount normalizeAccountServerUrl metadata).Uses Command.sparesKeys := by
  refine (reads_readAccountsList.uses.mono sparesKeys_of_reads).bind fun accounts => ?_
  refine .bind (Async.uses_await trivial) fun stored => ?_
  dsimp only
  split
  · exact .bind (Async.uses_await trivial) fun _ => (answers_writeAccountsList _).uses
  · exact (answers_writeAccountsList _).uses

theorem spares_of_nobody (h : op.touched = .nobody) : (program normalizeAccountServerUrl op).Uses Command.sparesKeys := by
  cases op with
  | initialization => exact answers_refreshNativeViewNow.uses
  | setActiveAccount accountId =>
    refine (answers_writeActiveAccount accountId).uses.bind fun _ => ?_
    cases accountId with
    | none => trivial
    | some accountId =>
      refine (reads_readAccountsList.uses.mono sparesKeys_of_reads).bind fun accounts => ?_
      split
      · exact .bind (Async.uses_await trivial) fun _ => (answers_writeAccountsList _).uses
      · trivial
  | addAccount metadata => exact spares_addAccount metadata
  | setInsecureTransportConfirmed accountId confirmed =>
    refine (reads_readAccountsList.uses.mono sparesKeys_of_reads).bind fun accounts => ?_
    split
    · exact (answers_writeAccountsList _).uses
    · trivial
  | storeSessionData muk accountId expiresAt =>
    exact .bind (Async.uses_await trivial) fun _ => .bind (Async.uses_await trivial) fun _ =>
      .bind (Async.uses_await trivial) fun _ => ((reads_isBiometricEnabled accountId).uses.mono sparesKeys_of_reads).bind
        fun _ => Async.uses_await trivial
  | updateStoredSessionMetadata accountId expiresAt =>
    refine ((reads_getStoredSessionData accountId).uses.mono sparesKeys_of_reads).bind fun session => ?_
    cases session with
    | none => trivial
    | some session => exact Async.uses_await trivial
  | updateLastMasterPasswordEntry accountId =>
    refine ((reads_getStoredSessionData accountId).uses.mono sparesKeys_of_reads).bind fun session => ?_
    cases session with
    | none => trivial
    | some session => exact .bind (Async.uses_await trivial) fun _ => Async.uses_await trivial
  | storeAutoLockTimeout ms accountId =>
    exact .bind (Async.uses_await trivial) fun _ => answers_refreshNativeViewNow.uses
  | setBiometricEnabled accountId enabled => exact spares_setBiometricEnabled accountId enabled
  | disableBiometric accountId => exact spares_setBiometricEnabled accountId false
  | enableBiometric accountId =>
    refine .bind (Async.uses_await trivial) fun available => ?_
    split
    · exact spares_setBiometricEnabled accountId true
    · trivial
  | authenticateWithBiometric accountId => exact (spares_authenticateWithBiometric accountId).bind fun _ => trivial
  | authenticateWithBiometricEnhanced accountId =>
    exact (spares_authenticateWithBiometricEnhanced accountId).bind fun _ => trivial
  | storeSecretKey | storeAuthToken | storeVaultKeys | storeEncryptedPrivateKey | storePinnedKdfProfile | storeServerUrl
  | storeTravelModeCache | storeBackgroundTimestamp | storeMasterPasswordReentryPeriodMs | clearBackgroundTimestamp =>
    exact Async.uses_await trivial
  | clearAllStoredData a => cases a <;> cases h
  | _ => cases h

/-- What an operation is called with. -/
structure Ready (op : StoreOp) (v : String → Option AccountKeys) : Prop where
  free : ∀ b x, v b = some x → x.Free ∧ (op.unlocks b = true → x.locked = false)
  touched : ∀ b, op.touched.has b = true → ∃ x, v b = some x
  handed : ∀ key b x, op = .setMasterUnlockKey key b → v b = some x → ∃ owned, x.keys key = some ⟨0, owned⟩

/-- **Every operation.** When it has settled, in whichever way, its accounts are free and locked as they are to be. -/
theorem settled_program (h : Ready op v) : AllKeys normalizeAccountServerUrl op (Settled op)
    (program normalizeAccountServerUrl op) v := by
  have hfree : ∀ b x, v b = some x → x.Free := fun b x hx => (h.free b x hx).1
  have hunlocks : ∀ {a : String} {x : AccountKeys}, op.unlocks a = true → v a = some x → Unlocks (none : Option Unit) x :=
    fun ha hx => ⟨hfree _ _ hx, (h.free _ _ hx).2 ha⟩
  cases hop : op.touched with
  | nobody =>
    refine (allKeys_spares (spares_of_nobody hop)).mono fun _ w hw b y hy => ⟨hfree b y (hw ▸ hy), fun hlocks => ?_⟩
    have htouched := StoreOp.touched_of_locks hlocks
    rw [hop] at htouched
    cases htouched
  | one a =>
    have htouched : op.touched.has a = true := by simp [hop, Touched.has]
    obtain ⟨x, hx⟩ := h.touched a htouched
    have hlocks : ∀ b, op.locks b = true → b = a := fun b hb => by
      have := StoreOp.touched_of_locks hb
      rw [hop] at this
      exact of_decide_eq_true this
    refine settled_of_locks hfree hlocks hx ?_
    cases op with
    | removeAccount b =>
      obtain rfl : b = a := Touched.one.inj hop
      exact keys_removeAccountInternal htouched (hfree b x hx)
    | clearSession b =>
      obtain rfl : b = a := Touched.one.inj hop
      exact keys_clearSession htouched (hfree b x hx)
    | forgetSession b =>
      obtain rfl : b = a := Touched.one.inj hop
      exact locks_then (keys_clearSession htouched (hfree b x hx)) fun _ => (answers_deleteValue _).uses
    | clearMasterUnlockKey b =>
      obtain rfl : b = a := Touched.one.inj hop
      exact keys_lock htouched (hfree b x hx)
    | clearAllStoredData b =>
      cases b with
      | none => cases hop
      | some b =>
        obtain rfl : b = a := Touched.one.inj hop
        have hremoved : Keys normalizeAccountServerUrl _ b _ _ x := keys_removeAccountInternal htouched (hfree b x hx)
        have hcleared := locks_then hremoved fun _ => spares_clearWhenEmpty
        exact hcleared
    | tryRestoreSession skipBiometric b =>
      obtain rfl : b = a := Touched.one.inj hop
      exact locks_of_unlocks rfl ((keys_tryRestoreSession htouched skipBiometric (hunlocks (decide_eq_true rfl) hx)).bind
        (fun _ y hy => keys_ret hy) fun _ hy => hy)
    | tryRestoreSessionWithoutPrompt b =>
      obtain rfl : b = a := Touched.one.inj hop
      exact locks_of_unlocks rfl ((keys_tryRestoreSessionWithoutPrompt htouched (hunlocks (decide_eq_true rfl) hx)).bind
        (fun _ y hy => keys_ret hy) fun _ hy => hy)
    | unlockWithBiometric b =>
      obtain rfl : b = a := Touched.one.inj hop
      exact locks_of_unlocks rfl ((keys_unlockWithBiometric htouched (hunlocks (decide_eq_true rfl) hx)).bind
        (fun _ y hy => keys_ret hy) fun _ hy => hy)
    | setMasterUnlockKey key b =>
      obtain rfl : b = a := Touched.one.inj hop
      obtain ⟨owned, hkey⟩ := h.handed key b x rfl hx
      have hunlock := hunlocks (a := b) (decide_eq_true rfl) hx
      exact locks_of_unlocks rfl (keys_unlock htouched hunlock.1 hunlock.2 hkey)
    | _ => cases hop
  | everybody =>
    have hall : ∀ b, ∃ x, v b = some x ∧ x.Free := by
      intro b
      obtain ⟨x, hx⟩ := h.touched b (by rw [hop]; rfl)
      exact ⟨x, hx, hfree b x hx⟩
    cases op with
    | clearAllStoredData b =>
      cases b with
      | none => exact settled_clearAllStoredData rfl hall
      | some b => cases hop
    | lockAllAccounts rounds => exact settled_lockAllAccounts hop rounds hall
    | unlockAllAccountsWithBiometric =>
      refine settled_unlockAll hop (fun _ => rfl) fun b => ?_
      obtain ⟨x, hx, -⟩ := hall b
      exact ⟨x, hx, hunlocks rfl hx⟩
    | _ => cases hop

end Operations

/-! ## The keys of every run -/

/-- A key that is handed over is, from then on, a key of the account. -/
theorem started_destined (hstartable : Startable op s) (key : MasterKeyRef) :
    (∃ a, op = .setMasterUnlockKey key a ∧ (started op s).destined key = some a ∧ s.destined key = none) ∨
      (started op s).destined key = s.destined key := by
  cases op with
  | setMasterUnlockKey key' a =>
    by_cases hkey : key = key'
    · subst hkey
      have hself : (started (.setMasterUnlockKey key a) s).destined key = some a := Function.update_self ..
      rcases hstartable with hnone | ⟨hsome, -⟩
      · exact .inl ⟨a, rfl, hself, hnone⟩
      · exact .inr (hself.trans hsome.symm)
    · exact .inr (Function.update_of_ne hkey _ _)
  | _ => exact .inr rfl

theorem started_inv (hstartable : Startable op s) (hinv : s.KeysInv) : (started op s).KeysInv where
  cached e he := by
    obtain ⟨hdestined, howned⟩ := hinv.cached e he
    rcases started_destined hstartable e.key with ⟨a, -, -, hnone⟩ | hsame
    · rw [hnone] at hdestined
      cases hdestined
    · exact ⟨hsame.trans hdestined, howned⟩
  accounts := hinv.accounts
  ordered := hinv.ordered
  below := hinv.below
  known key h := by
    rcases started_destined hstartable key with ⟨a, -, -, hnone⟩ | hsame
    · exact absurd hnone (hinv.known key h)
    · rw [hsame]
      exact hinv.known key h
  once := hinv.once
  locked a ha := hinv.locked a (Bool.and_eq_true_iff.mp ha).1

/-- A key of the account, as before, or the new one. -/
theorem started_keys (hstartable : Startable op s) (hinv : s.KeysInv) (b : String) (key : MasterKeyRef) :
    (op = .setMasterUnlockKey key b ∧ ((started op s).accountKeys b).keys key = some ⟨0, false⟩) ∨
      ((started op s).accountKeys b).keys key = (s.accountKeys b).keys key := by
  rcases started_destined hstartable key with ⟨a, hop, hsome, hnone⟩ | hsame
  · by_cases hb : b = a
    · subst hb
      have howned : key ∉ s.owned := fun h => hinv.known key (.inl h) hnone
      have hdestroyed : key ∉ s.destroyed := fun h => hinv.known key (.inr h) hnone
      refine .inl ⟨hop, (if_pos hsome).trans ?_⟩
      have hcount : (started op s).destroyed.count key = 0 := List.count_eq_zero_of_not_mem hdestroyed
      have hcontains : (started op s).owned.contains key = false := by simpa [started] using howned
      rw [hcount, hcontains]
    · refine .inr ?_
      have hother : (started op s).destined key ≠ some b := by
        rw [hsome]
        exact fun h => hb (Option.some.inj h).symm
      have hother' : s.destined key ≠ some b := by
        rw [hnone]
        nofun
      exact (if_neg hother).trans (if_neg hother').symm
  · refine .inr ?_
    simp only [accountKeys, hsame]
    rfl

theorem started_free (hstartable : Startable op s) (hinv : s.KeysInv) (h : (s.accountKeys b).Free) :
    ((started op s).accountKeys b).Free := by
  intro key k hk
  rcases started_keys hstartable hinv b key with ⟨-, hnew⟩ | hsame
  · rw [hnew] at hk
    cases hk
    rfl
  · exact h key k (hsame ▸ hk)

/-- The key that is handed over has not been destroyed. -/
theorem started_handed (hstartable : Startable (.setMasterUnlockKey key b) s) (hinv : s.KeysInv) (hfree : (s.accountKeys b).Free) :
    ∃ owned, ((started (.setMasterUnlockKey key b) s).accountKeys b).keys key = some ⟨0, owned⟩ := by
  rcases started_keys hstartable hinv b key with ⟨-, hnew⟩ | hsame
  · exact ⟨false, hnew⟩
  · rw [hsame]
    rcases hstartable with hnone | ⟨hsome, hcurrent⟩
    · have hself : (started (.setMasterUnlockKey key b) s).destined key = some b := Function.update_self ..
      have hkeys : ((started (.setMasterUnlockKey key b) s).accountKeys b).keys key ≠ none := by
        simp [accountKeys, hself]
      rw [hsame] at hkeys
      exact absurd (if_neg (by rw [hnone]; nofun)) hkeys
    · have hkeys : (s.accountKeys b).keys key = some ⟨s.destroyed.count key, s.owned.contains key⟩ := if_pos hsome
      have hcount := hfree key _ hkeys
      have hzero : s.destroyed.count key = 0 := by
        rw [if_neg] at hcount
        · exact hcount
        · rintro ⟨howned, hnot⟩
          rcases hcurrent with hcurrent | hcurrent
          · exact hnot hcurrent
          · exact hcurrent (by simpa using howned)
      exact ⟨_, hzero ▸ hkeys⟩

theorem touchedKeys_some {x : AccountKeys} (h : s.touchedKeys op b = some x) : op.touched.has b = true ∧ s.accountKeys b = x := by
  unfold touchedKeys at h
  split at h
  · next htouched => exact ⟨htouched, Option.some.inj h⟩
  · cases h

theorem ready_started (hstartable : Startable op s) (hinv : s.KeysInv)
    (hfree : ∀ a, op.touched.has a = true → (s.accountKeys a).Free) : Ready op ((started op s).touchedKeys op) where
  free b x hx := by
    obtain ⟨htouched, rfl⟩ := touchedKeys_some hx
    refine ⟨started_free hstartable hinv (hfree b htouched), fun hunlocks => ?_⟩
    change (s.locked b && !op.unlocks b) = false
    rw [hunlocks, Bool.not_true, Bool.and_false]
  touched b hb := ⟨_, if_pos hb⟩
  handed key b x hop hx := by
    subst hop
    obtain ⟨htouched, rfl⟩ := touchedKeys_some hx
    exact started_handed hstartable hinv (hfree b htouched)

/-- Accounts that an operation does not touch are what they were. -/
theorem started_other (hstartable : Startable op s) (hinv : s.KeysInv) (hb : ¬ op.touched.has b = true) :
    (started op s).accountKeys b = s.accountKeys b := by
  have hunlocks : op.unlocks b = false := Bool.eq_false_iff.mpr fun h => hb (StoreOp.touched_of_unlocks h)
  refine AccountKeys.ext rfl ?_ (funext fun key => ?_)
  · change (s.locked b && !op.unlocks b) = s.locked b
    rw [hunlocks, Bool.not_false, Bool.and_true]
  · rcases started_keys hstartable hinv b key with ⟨rfl, -⟩ | hsame
    · exact absurd (decide_eq_true rfl) hb
    · exact hsame

theorem settled_accountKeys (s : AccountStore) (op : StoreOp) (r : Option Unit) (b : String) :
    (settled op r s).accountKeys b = { s.accountKeys b with locked := s.locked b || op.locks b } := rfl

theorem keysResources_sound (normalizeAccountServerUrl : String → String) : (keysResources normalizeAccountServerUrl).Sound where
  other clock s s' h hinv := by
    have h : tick clock s = some s' := h
    unfold tick at h
    split at h
    · cases h
      exact ⟨⟨hinv.cached, hinv.accounts, hinv.ordered, hinv.below, hinv.known, hinv.once, hinv.locked⟩, trivial, fun _ _ => rfl⟩
    · cases h
  start op s hinv hstartable hfree := by
    have hready := ready_started hstartable hinv hfree
    have hinv' := started_inv hstartable hinv
    refine ⟨⟨hinv', trivial, fun a ha => (started_other hstartable hinv ha).symm⟩, ?_⟩
    · refine (settled_program hready [] (started op s) hinv' rfl).mono fun r seen t ht hsettled => ?_
      have hlocked : ∀ a, op.locks a = true → t.entry a = none := by
        intro a ha
        have htouched : t.touchedKeys op a = some (t.accountKeys a) := if_pos (StoreOp.touched_of_locks ha)
        have hentry := (hsettled a _ htouched).2 ha
        rw [← accountKeys_current, AccountKeys.current, hentry]
        rfl
      refine ⟨⟨⟨ht.cached, ht.accounts, ht.ordered, ht.below, ht.known, ht.once, fun a ha => ?_⟩, trivial, fun a ha => ?_⟩,
        fun a ha => ?_⟩
      · rcases Bool.or_eq_true_iff.mp ha with ha | ha
        · exact ht.locked a ha
        · exact hlocked a ha
      · have hnot : op.locks a = false := Bool.eq_false_iff.mpr fun h => ha (StoreOp.touched_of_locks h)
        change t.accountKeys a = (settled op r t).accountKeys a
        rw [settled_accountKeys, hnot, Bool.or_false]
        rfl
      · exact (hsettled a _ (if_pos ha)).1

theorem keysInv_of_initial (h : s.Initial) : s.KeysInv where
  cached e he := by simp [h.mukCache] at he
  accounts := by simp [h.mukCache]
  ordered := by simp [h.mukCache]
  below e he := by simp [h.mukCache] at he
  known key hkey := by simp [h.owned, h.destroyed] at hkey
  once key := by simp [h.destroyed]
  locked a ha := by simp [h.locked] at ha

theorem free_of_initial (h : s.Initial) (a : String) : (s.accountKeys a).Free := by
  intro key k hk
  have hnone : (s.accountKeys a).keys key = none := if_neg (by rw [h.destined]; nofun)
  rw [hnone] at hk
  cases hk

end AccountStore

/-! ## Main results -/

/-- Operations that touch an account do not overlap, and ports answer as they are to. -/
def LocksApart (q : Calls AccountStore Command Command.Response StoreOp Unit) : CallLabel StoreOp PortAnswer Nat → Prop
  | .start op => Startable op q.shared ∧ ∀ t ∈ q.calls, t.rest.waits = true → op.touched.meets t.op.touched = false
  | .resume k answer => ∀ t ∈ q.calls[k]?,
    match t.rest with
    | .call c _ => AnsweredFor t.op q.shared c answer
    | _ => True
  | .other _ => True

/-- What is to hold of the keys in every state. -/
structure KeysKept (q : Calls AccountStore Command Command.Response StoreOp Unit) : Prop where
  /-- A lock operation has settled, and no unlock operation was called since: there is no key. -/
  locked : ∀ a, q.shared.locked a = true → q.shared.entry a = none
  once : ∀ key, q.shared.destroyed.count key ≤ 1
  /-- A key that was cached is destroyed if and only if it is no longer the current one. -/
  owned : ∀ key ∈ q.shared.owned, ∃ a, q.shared.destined key = some a ∧
    ((∀ t ∈ q.calls, t.rest.waits = true → t.op.touched.has a = false) →
      q.shared.destroyed.count key = if q.shared.entry a = some key then 0 else 1)

instance (op : StoreOp) (s : AccountStore) : Decidable (Startable op s) := by
  cases op <;> unfold Startable <;> infer_instance

instance (op : StoreOp) (s : AccountStore) (c : Command) (answer : PortAnswer) : Decidable (AnsweredFor op s c answer) :=
  inferInstanceAs (Decidable (_ → _ ∧ _))

instance (q : Calls AccountStore Command Command.Response StoreOp Unit) : ∀ label, Decidable (LocksApart q label)
  | .start op => inferInstanceAs (Decidable (Startable op q.shared ∧ ∀ t ∈ q.calls, _ → _))
  | .resume k answer =>
    match h : q.calls[k]? with
    | none => .isTrue (by simp [LocksApart, h])
    | some t =>
      match hrest : t.rest with
      | .call c f => decidable_of_iff (AnsweredFor t.op q.shared c answer) (by simp [LocksApart, h, hrest])
      | .ret _ => .isTrue (by simp [LocksApart, h, hrest])
      | .throw => .isTrue (by simp [LocksApart, h, hrest])
  | .other _ => .isTrue trivial

end Bittery
