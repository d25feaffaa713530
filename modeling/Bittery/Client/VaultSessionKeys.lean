/-
The vault session machine with its asynchronous effects (`vault-session/machine.ts`) next to
the store of unlocked keys it clears.

An event is dispatched at once; the effects that can be pending run on as a chain of their
own, in which each effect starts when the one before it has settled. A `clear_keys` reaches
the key store at some moment between its start and its end, and an `invalidate_session` may
drop the keys of the accounts it resolves to. Neither ever rejects.

Whoever unlocks has put the key into the store when the event is dispatched. Fields marked
as a record decide nothing.
-/
import Bittery.Client.VaultSessionFacts
import Bittery.Lib.Runs

namespace Bittery

open Lib

/-- The effects whose execution can be pending. -/
def VaultSessionEffect.isAsync : VaultSessionEffect → Bool
  | .clearKeys _ => true
  | .invalidateSession _ => true
  | _ => false

/-- The effects of one event from its first pending one on. -/
structure EffectChain where
  running : VaultSessionEffect
  /-- The running `clear_keys` has emptied the key store. -/
  cleared : Bool := false
  queued : List VaultSessionEffect
deriving DecidableEq, Repr

/-- `runEffects`: what can be done at once is done, and the rest queues behind the first
effect that is pending. -/
def runEffects (effects : List VaultSessionEffect) : Option EffectChain :=
  match effects.dropWhile (!·.isAsync) with
  | [] => none
  | effect :: rest => some { running := effect, queued := rest }

/-- The chain has a `clear_keys` that has not reached the store. -/
def EffectChain.toClear (c : EffectChain) : Bool :=
  match c.running with
  | .clearKeys _ => !c.cleared
  | _ => false

/-- Nothing of the chain will touch the key store again. -/
def EffectChain.spent (c : EffectChain) : Bool :=
  match c.running with
  | .clearKeys _ => c.cleared && (runEffects c.queued).isNone
  | _ => false

structure VaultSessionMachine where
  state : VaultSessionState := createInitialState
  chains : List EffectChain := []
  /-- The key store: the key of each unlocked account. -/
  keys : List (String × KeyRef) := []
  /-- The keys handed to the machine (a record). -/
  given : List KeyRef := []
  /-- Those of them a `clear_keys` has been over since (a record). -/
  cleared : List KeyRef := []
deriving DecidableEq, Repr

namespace VaultSessionMachine

inductive Label
  /-- An event; the key it hands over is in the store under this account. -/
  | dispatch (event : VaultSessionEvent) (accountId : String)
  /-- The running `clear_keys` of a chain reaches the store. -/
  | clear (chain : Nat)
  /-- The running `invalidate_session` of a chain drops the key of an account. -/
  | invalidate (chain : Nat) (accountId : String)
  /-- The running effect of a chain has settled. -/
  | settle (chain : Nat)
deriving DecidableEq, Repr

/-- The store takes a key over, in place of another of the account. -/
def keep (keys : List (String × KeyRef)) (accountId : String) : Option KeyRef → List (String × KeyRef)
  | none => keys
  | some muk => (accountId, muk) :: keys.filter (·.1 ≠ accountId)

def dispatch (m : VaultSessionMachine) (event : VaultSessionEvent) (accountId : String) : VaultSessionMachine where
  state := (reduce m.state event).next
  chains := m.chains ++ (runEffects (reduce m.state event).effects).toList
  keys := keep m.keys accountId event.offered
  given := m.given ++ event.offered.toList
  cleared := m.cleared.filter (some · ≠ event.offered)

def clear (m : VaultSessionMachine) (i : Nat) (c : EffectChain) : VaultSessionMachine :=
  { m with chains := m.chains.set i { c with cleared := true }, keys := [], cleared := m.given }

def step (m : VaultSessionMachine) : Label → Option VaultSessionMachine
  | .dispatch event accountId => some (m.dispatch event accountId)
  | .clear i => do
    let c ← m.chains[i]?
    if c.toClear then some (m.clear i c) else none
  | .invalidate i accountId => do
    let c ← m.chains[i]?
    match c.running with
    | .invalidateSession _ => some { m with keys := m.keys.filter (·.1 ≠ accountId) }
    | _ => none
  | .settle i => do
    let c ← m.chains[i]?
    -- `lockAll` ends only after it has emptied the store
    if c.toClear then none
    else
      match runEffects c.queued with
      | none => some { m with chains := m.chains.eraseIdx i }
      | some rest => some { m with chains := m.chains.set i rest }

def system : System VaultSessionMachine Label where
  init := fun m => ∃ settingsTimeoutMs, m = { state := createInitialState settingsTimeoutMs }
  step := step

/-! ## The condition -/

/-- The machine takes over every key it is handed, when it has none and no effect is left that
would touch the store; and the desktop takes over no vault that is unlocked locally. -/
def Exclusive (m : VaultSessionMachine) : Label → Prop
  | .dispatch event _ =>
    (∀ muk, event.offered = some muk → m.state.muk = some muk ∨
      m.state.muk = none ∧ ¬ (m.state.desktopConnected = true ∧ m.state.desktopLocked = true) ∧
        ((∃ time, event = .startupRestored (some muk) time) → m.state.owner = .none) ∧
        ∀ c ∈ m.chains, c.spent = true) ∧
    ((∃ accountIds time, event = .desktopUnlockPushed accountIds time) → m.state.owner ≠ .locally)
  | _ => True

/-! ## The invariant -/

/-- What a machine has made of the keys it was handed. -/
structure Hygienic (m : VaultSessionMachine) : Prop where
  coherent : m.state.Coherent
  /-- The key of the state is in the store. -/
  held : ∀ muk, m.state.muk = some muk → ∃ accountId, (accountId, muk) ∈ m.keys
  /-- No effect will touch the store of a vault that is unlocked locally. -/
  calm : m.state.owner = .locally → ∀ c ∈ m.chains, c.spent = true
  /-- Any other key in the store has a `clear_keys` coming. -/
  owed : ∀ p ∈ m.keys, m.state.muk = some p.2 ∨ ∃ c ∈ m.chains, c.toClear = true
  /-- A key that was handed over is the state's, or cleared, or has a `clear_keys` coming. -/
  given : ∀ muk ∈ m.given, m.state.muk = some muk ∨ muk ∈ m.cleared ∨ ∃ c ∈ m.chains, c.toClear = true

/-! ## The chains -/

@[simp] theorem runEffects_lockEffects (reason : LockReason) (options : LockOptions) :
    runEffects (lockEffects reason options) = some { running := .clearKeys reason, queued := [] } := by
  cases hd : options.disconnectSync with
  | none => simp [lockEffects, hd, runEffects, VaultSessionEffect.isAsync]
  | some d => simp [lockEffects, hd, runEffects, VaultSessionEffect.isAsync]

@[simp] theorem runEffects_revocationEffects (id reason : Option String) :
    runEffects (revocationEffects true id reason) =
      some { running := .clearKeys .sessionRevoked, queued := [.invalidateSession id] } := by
  simp [revocationEffects, runEffects, VaultSessionEffect.isAsync]

theorem runEffects_ownershipEffects (s : VaultSessionState) (now : Int) :
    runEffects (ownershipEffects s now) = none := by
  unfold ownershipEffects
  split
  · rfl
  · rfl
  · dsimp only
    split <;> rfl

theorem not_toClear_of_spent {c : EffectChain} (h : c.spent = true) : c.toClear = false := by
  unfold EffectChain.spent at h
  unfold EffectChain.toClear
  split at h
  · next hrunning =>
    simp only [Bool.and_eq_true] at h
    simp [h.1]
  · cases h

/-! ## What an event does to the keys -/

variable {m : VaultSessionMachine}

theorem Hygienic.keyless (h : Hygienic m) (ho : m.state.owner ≠ .locally) : m.state.muk = none :=
  h.coherent.muk_eq_none ho

/-- With nothing left to clear, the keys are the state's. -/
theorem Hygienic.of_spent (h : Hygienic m) (hspent : ∀ c ∈ m.chains, c.spent = true) :
    (∀ p ∈ m.keys, m.state.muk = some p.2) ∧ ∀ muk ∈ m.given, m.state.muk = some muk ∨ muk ∈ m.cleared := by
  have hnone : ¬ ∃ c ∈ m.chains, c.toClear = true := by
    rintro ⟨c, hc, htoClear⟩
    rw [not_toClear_of_spent (hspent c hc)] at htoClear
    cases htoClear
  refine ⟨fun p hp => (h.owed p hp).resolve_right hnone, fun muk hmuk => ?_⟩
  obtain hstate | hcleared | hclear := h.given muk hmuk
  · exact .inl hstate
  · exact .inr hcleared
  · exact absurd hclear hnone

/-- An event that neither hands a key over nor moves the state's. -/
theorem Hygienic.sameKey (h : Hygienic m) {t : VaultSessionState} {more : List EffectChain} (ht : t.Coherent)
    (hm : t.muk = m.state.muk) (hmore : t.owner = .locally → more = []) :
    Hygienic { m with state := t, chains := m.chains ++ more } where
  coherent := ht
  held := fun muk hmuk => h.held muk (hm ▸ hmuk)
  calm := fun ho c hc => by
    rw [hmore ho, List.append_nil] at hc
    have hlocally : m.state.owner = .locally := h.coherent.key.mp (hm ▸ ht.key.mpr ho)
    exact h.calm hlocally c hc
  owed := fun p hp =>
    (h.owed p hp).imp (fun hstate => hm.trans hstate) fun ⟨c, hc, hclear⟩ => ⟨c, List.mem_append_left more hc, hclear⟩
  given := fun muk hmuk =>
    (h.given muk hmuk).imp (fun hstate => hm.trans hstate) fun hrest =>
      hrest.imp_right fun ⟨c, hc, hclear⟩ => ⟨c, List.mem_append_left more hc, hclear⟩

/-- A lock leaves every key to the `clear_keys` it emits. -/
theorem Hygienic.lock {t : VaultSessionState} {chain : EffectChain} (ht : t.Coherent)
    (hn : t.owner = .none) (hm : t.muk = none) (hclear : chain.toClear = true) :
    Hygienic { m with state := t, chains := m.chains ++ [chain] } where
  coherent := ht
  held := fun muk hmuk => by rw [hm] at hmuk; cases hmuk
  calm := fun ho => by rw [hn] at ho; cases ho
  owed := fun p _ => .inr ⟨chain, by simp, hclear⟩
  given := fun muk _ => .inr (.inr ⟨chain, by simp, hclear⟩)

/-- A key taken over when no other is held and nothing is left to clear. -/
theorem Hygienic.takeOver (h : Hygienic m) {t : VaultSessionState} {muk : KeyRef} (accountId : String)
    (ht : t.Coherent) (hm : t.muk = some muk) (hold : m.state.muk = none ∨ m.state.muk = some muk)
    (hspent : ∀ c ∈ m.chains, c.spent = true) :
    Hygienic { m with
      state := t, keys := keep m.keys accountId (some muk), given := m.given ++ [muk],
      cleared := m.cleared.filter (some · ≠ some muk) } := by
  obtain ⟨hkeys, hgiven⟩ := h.of_spent hspent
  have honly : ∀ other, m.state.muk = some other → other = muk := by
    intro other hother
    rcases hold with hnone | hsame
    · rw [hnone] at hother
      cases hother
    · rw [hsame] at hother
      cases hother
      rfl
  constructor
  · exact ht
  · intro other hother
    rw [hm] at hother
    cases hother
    exact ⟨accountId, by simp [keep]⟩
  · intro _ c hc
    exact hspent c hc
  · intro p hp
    rcases List.mem_cons.mp hp with rfl | hp
    · exact .inl hm
    · have := honly _ (hkeys p (List.mem_filter.mp hp).1)
      exact .inl (this ▸ hm)
  · intro other hother
    by_cases hsame : other = muk
    · exact .inl (hsame ▸ hm)
    · have hbefore : other ∈ m.given := by simpa [hsame] using hother
      rcases hgiven other hbefore with hstate | hcleared
      · exact absurd (honly other hstate) hsame
      · exact .inr (.inl (List.mem_filter.mpr ⟨hcleared, by simpa using hsame⟩))

/-- An event that hands a key to a machine that may take it over. -/
theorem reduce_offered {s : VaultSessionState} {event : VaultSessionEvent} {muk : KeyRef}
    (he : event.offered = some muk) (hfree : ¬ (s.desktopConnected = true ∧ s.desktopLocked = true))
    (hcold : (∃ time, event = .startupRestored (some muk) time) → s.owner = .none) :
    (reduce s event).next.muk = some muk ∧ runEffects (reduce s event).effects = none := by
  have hunlock : ∀ time, (unlockLocally s muk time).next.muk = some muk ∧
      runEffects (unlockLocally s muk time).effects = none := by
    intro time
    have hopen : (s.desktopConnected && s.desktopLocked) = false := by simpa using hfree
    simp only [unlockLocally, hopen, Bool.false_eq_true, if_false, commit_next, commit_effects, true_and]
    have howner := runEffects_ownershipEffects
      { s with owner := .locally, muk := some muk, lastActivityAt := time, lockReason := none } time
    simpa [runEffects, VaultSessionEffect.isAsync] using howner
  cases event with
  | startupRestored offered time =>
    cases he
    have hnone := hcold ⟨time, rfl⟩
    simp only [reduce, hnone, ne_eq, not_true_eq_false, if_false]
    exact hunlock time
  | localUnlocked offered time =>
    cases he
    exact hunlock time
  | _ => cases he

/-- The key the machine has is handed to it again. -/
theorem reduce_reoffered {s : VaultSessionState} (hs : s.Coherent) {event : VaultSessionEvent} {muk : KeyRef}
    (he : event.offered = some muk) (hm : s.muk = some muk) :
    (reduce s event).next.muk = some muk ∧ runEffects (reduce s event).effects = none := by
  have howner : s.owner = .locally := hs.key.mp (by rw [hm]; rfl)
  cases event with
  | startupRestored offered time =>
    simp only [reduce, howner, ne_eq, reduceCtorEq, not_false_eq_true, if_true, commit_self, commit_effects]
    exact ⟨hm, rfl⟩
  | localUnlocked offered time =>
    refine reduce_offered he (fun hlocked => ?_) (by simp)
    rw [hs.lockedDesktop hlocked.1 hlocked.2] at howner
    cases howner
  | _ => cases he

theorem Hygienic.dispatch (h : Hygienic m) (event : VaultSessionEvent) (accountId : String)
    (hexclusive : Exclusive m (.dispatch event accountId)) : Hygienic (m.dispatch event accountId) := by
  obtain ⟨hoffered, hpushed⟩ := hexclusive
  have ht := h.coherent.reduce event
  unfold VaultSessionMachine.dispatch
  cases he : event.offered with
  | some muk =>
    -- the key is the machine's afterwards, and nothing was left that would clear it
    have htaken : ((reduce m.state event).next.muk = some muk ∧ runEffects (reduce m.state event).effects = none) ∧
        (m.state.muk = none ∨ m.state.muk = some muk) ∧ ∀ c ∈ m.chains, c.spent = true := by
      rcases hoffered muk he with hsame | ⟨hnone, hfree, hcold, hspent⟩
      · exact ⟨reduce_reoffered h.coherent he hsame, .inr hsame,
          h.calm (h.coherent.key.mp (by rw [hsame]; rfl))⟩
      · exact ⟨reduce_offered he hfree hcold, .inl hnone, hspent⟩
    obtain ⟨⟨hm, hchain⟩, hold, hspent⟩ := htaken
    rw [hchain, Option.toList_none, List.append_nil]
    exact h.takeOver accountId ht hm hold hspent
  | none =>
    have hcleared : m.cleared.filter (some · ≠ none) = m.cleared := by simp
    rw [hcleared, Option.toList_none, List.append_nil]
    change Hygienic { m with
      state := (reduce m.state event).next
      chains := m.chains ++ (runEffects (reduce m.state event).effects).toList }
    generalize hr : reduce m.state event = r at ht ⊢
    cases hr ▸ reduces m.state event with
    | idle effects hq =>
      refine h.sameKey ht (by rw [commit_self]) fun _ => ?_
      rw [commit_effects]
      obtain rfl | rfl | ⟨code, rfl⟩ := hq <;> rfl
    | stillLocked n effects hs hn hm _ heff =>
      have hnone := h.keyless (by rw [hs]; exact VaultOwner.noConfusion)
      refine h.sameKey ht ?_ fun ho => ?_
      · rw [commit_next, hnone]
        exact hm.elim (·.trans hnone) id
      · rw [commit_next] at ho
        rw [hn] at ho
        cases ho
    | owned n ho hm _ _ _ =>
      refine h.sameKey ht (by rw [commit_next]; exact hm) fun _ => ?_
      rw [commit_effects, runEffects_ownershipEffects]
      rfl
    | desktopActive ho _ => exact h.sameKey ht (by rw [commit_next]) fun _ => by rw [commit_effects]; rfl
    | unlocked muk _ hsome =>
      rw [hsome] at he
      cases he
    | handedOver accountIds _ hpush =>
      obtain ⟨time, rfl⟩ := hpush
      have hnone := h.keyless (hpushed ⟨accountIds, time, rfl⟩)
      exact h.sameKey ht (by rw [commit_next, hnone]) fun ho => by rw [commit_next] at ho; cases ho
    | locked n effects _ hn hm _ heff =>
      rw [commit_effects]
      obtain ⟨reason, options, rfl⟩ | ⟨id, reason, _, rfl⟩ := heff
      · rw [runEffects_lockEffects]
        exact .lock ht (by rw [commit_next]; exact hn) (by rw [commit_next]; exact hm) rfl
      · rw [runEffects_revocationEffects]
        exact .lock ht (by rw [commit_next]; exact hn) (by rw [commit_next]; exact hm) rfl

/-- The store is emptied under a vault that is not unlocked locally. -/
theorem Hygienic.clear (h : Hygienic m) {i : Nat} {c : EffectChain} (hc : m.chains[i]? = some c)
    (hclear : c.toClear = true) : Hygienic (m.clear i c) := by
  have ho : m.state.owner ≠ .locally := fun howner => by
    rw [not_toClear_of_spent (h.calm howner c (List.mem_of_getElem? hc))] at hclear
    cases hclear
  have hnone := h.keyless ho
  constructor
  · exact h.coherent
  · intro muk hmuk
    exact absurd (hnone.symm.trans hmuk) (Option.some_ne_none muk).symm
  · intro howner
    exact absurd howner ho
  · intro p hp
    exact absurd hp List.not_mem_nil
  · intro muk hmuk
    exact .inr (.inl hmuk)

/-- An invalidation runs for a vault that is not unlocked locally. -/
theorem Hygienic.invalidate (h : Hygienic m) {i : Nat} {c : EffectChain} {id : Option String}
    (hc : m.chains[i]? = some c) (hrunning : c.running = .invalidateSession id) (accountId : String) :
    Hygienic { m with keys := m.keys.filter (·.1 ≠ accountId) } := by
  have ho : m.state.owner ≠ .locally := fun howner => by
    have hspent := h.calm howner c (List.mem_of_getElem? hc)
    rw [EffectChain.spent, hrunning] at hspent
    cases hspent
  have hnone := h.keyless ho
  constructor
  · exact h.coherent
  · intro muk hmuk
    exact absurd (hnone.symm.trans hmuk) (Option.some_ne_none muk).symm
  · intro howner
    exact absurd howner ho
  · intro p hp
    exact h.owed p (List.mem_filter.mp hp).1
  · exact h.given

/-- A chain that goes on or ends had nothing left to clear. -/
theorem Hygienic.settle (h : Hygienic m) {chains : List EffectChain}
    (hold : ∀ c ∈ m.chains, c.toClear = true → c ∈ chains)
    (hnew : m.state.owner = .locally → ∀ c ∈ chains, c ∈ m.chains) : Hygienic { m with chains := chains } where
  coherent := h.coherent
  held := h.held
  calm := fun ho c hc => h.calm ho c (hnew ho c hc)
  owed := fun p hp => (h.owed p hp).imp_right fun ⟨c, hc, hclear⟩ => ⟨c, hold c hc hclear, hclear⟩
  given := fun muk hmuk =>
    (h.given muk hmuk).imp_right fun hrest => hrest.imp_right fun ⟨c, hc, hclear⟩ => ⟨c, hold c hc hclear, hclear⟩

theorem mem_set_of_ne {chains : List EffectChain} {i : Nat} {c d e : EffectChain} (hi : chains[i]? = some d)
    (hc : c ∈ chains) (hne : c ≠ d) : c ∈ chains.set i e := by
  obtain ⟨j, hj⟩ := List.mem_iff_getElem?.mp hc
  refine List.mem_iff_getElem?.mpr ⟨j, ?_⟩
  rw [List.getElem?_set_ne, hj]
  rintro rfl
  rw [hi, Option.some.injEq] at hj
  exact hne hj.symm

/-- **Step.** Every step under the condition keeps the keys in order. -/
theorem Hygienic.step (h : Hygienic m) {a : Label} (hexclusive : Exclusive m a) {t : VaultSessionMachine}
    (hstep : m.step a = some t) : Hygienic t := by
  cases a with
  | dispatch event accountId =>
    simp only [VaultSessionMachine.step, Option.some.injEq] at hstep
    exact hstep ▸ h.dispatch event accountId hexclusive
  | clear i =>
    simp only [VaultSessionMachine.step, Option.bind_eq_bind, Option.bind_eq_some_iff] at hstep
    obtain ⟨c, hc, hstep⟩ := hstep
    split at hstep
    · next hclear => exact Option.some.inj hstep ▸ h.clear hc hclear
    · cases hstep
  | invalidate i accountId =>
    simp only [VaultSessionMachine.step, Option.bind_eq_bind, Option.bind_eq_some_iff] at hstep
    obtain ⟨c, hc, hstep⟩ := hstep
    split at hstep
    · next id hrunning => exact Option.some.inj hstep ▸ h.invalidate hc hrunning accountId
    · cases hstep
  | settle i =>
    simp only [VaultSessionMachine.step, Option.bind_eq_bind, Option.bind_eq_some_iff] at hstep
    obtain ⟨c, hc, hstep⟩ := hstep
    split at hstep
    · cases hstep
    next hdone =>
    have hne : ∀ d : EffectChain, d.toClear = true → d ≠ c := fun d hd heq => hdone (heq ▸ hd)
    split at hstep
    · rw [← Option.some.inj hstep]
      exact h.settle (fun d hd hclear => mem_eraseIdx_of_ne hc hd (hne d hclear)) fun _ d hd =>
        List.mem_of_mem_eraseIdx hd
    · next rest hrest =>
      rw [← Option.some.inj hstep]
      refine h.settle (fun d hd hclear => mem_set_of_ne hc hd (hne d hclear)) fun ho => ?_
      -- a chain with more to do is not spent
      have hspent := h.calm ho c (List.mem_of_getElem? hc)
      unfold EffectChain.spent at hspent
      split at hspent
      · simp [hrest] at hspent
      · cases hspent

theorem Hygienic.initial (settingsTimeoutMs : Int) :
    Hygienic { state := createInitialState settingsTimeoutMs } where
  coherent := .initial settingsTimeoutMs
  held := fun _ h => by cases h
  calm := fun _ c hc => absurd hc List.not_mem_nil
  owed := fun p hp => absurd hp List.not_mem_nil
  given := fun muk hmuk => absurd hmuk List.not_mem_nil

/-- **Run.** -/
theorem hygienic_of_run {m : VaultSessionMachine} (hrun : system.ReachableUnder Exclusive m) : Hygienic m :=
  hrun.invariant Hygienic (fun _ hinit => by obtain ⟨settingsTimeoutMs, rfl⟩ := hinit; exact .initial settingsTimeoutMs)
    fun _ _ _ _ h hexclusive hstep => h.step hexclusive hstep

/-- **Key hygiene.** In every run under the condition, a key handed to the machine is the key of
its state, or was cleared, or has a `clear_keys` coming; and when every effect has settled the
store holds keys exactly while the vault is unlocked locally. -/
theorem keys_cleared {m : VaultSessionMachine} (hrun : system.ReachableUnder Exclusive m) :
    (∀ muk ∈ m.given, m.state.muk = some muk ∨ muk ∈ m.cleared ∨ ∃ c ∈ m.chains, c.toClear = true) ∧
      (m.chains = [] → (m.keys ≠ [] ↔ m.state.owner = .locally)) := by
  have h := hygienic_of_run hrun
  refine ⟨h.given, fun hsettled => ⟨fun hkeys => ?_, fun howner hempty => ?_⟩⟩
  · obtain ⟨p, hp⟩ := List.exists_mem_of_ne_nil _ hkeys
    have hstate := (h.of_spent (by simp [hsettled])).1 p hp
    exact h.coherent.key.mp (by rw [hstate]; rfl)
  · obtain ⟨muk, hmuk⟩ := Option.isSome_iff_exists.mp (h.coherent.key.mpr howner)
    obtain ⟨accountId, hmem⟩ := h.held muk hmuk
    rw [hempty] at hmem
    exact absurd hmem List.not_mem_nil

/-- The same as a check. -/
def exclusiveCheck (m : VaultSessionMachine) : Label → Bool
  | .dispatch event _ =>
    (match event.offered with
      | none => true
      | some muk => decide (m.state.muk = some muk) ||
        (decide (m.state.muk = none) && !(m.state.desktopConnected && m.state.desktopLocked) &&
          decide (m.state.owner = .none) && m.chains.all (·.spent))) &&
    match event with
      | .desktopUnlockPushed _ _ => decide (m.state.owner ≠ .locally)
      | _ => true
  | _ => true

theorem exclusive_of_check {m : VaultSessionMachine} {a : Label} (h : exclusiveCheck m a = true) : Exclusive m a := by
  cases a with
  | dispatch event accountId =>
    simp only [exclusiveCheck, Bool.and_eq_true] at h
    refine ⟨fun muk hmuk => ?_, fun ⟨accountIds, time, heq⟩ => ?_⟩
    · have hkey := h.1
      rw [hmuk] at hkey
      simp only [Bool.or_eq_true, Bool.and_eq_true, decide_eq_true_eq, Bool.not_eq_true', Bool.and_eq_false_iff,
        List.all_eq_true] at hkey
      refine hkey.imp_right fun ⟨⟨⟨hnone, hfree⟩, howner⟩, hspent⟩ => ⟨hnone, ?_, fun _ => howner, hspent⟩
      rintro ⟨hconnected, hlocked⟩
      rcases hfree with hfalse | hfalse
      · rw [hconnected] at hfalse; cases hfalse
      · rw [hlocked] at hfalse; cases hfalse
    · subst heq
      simpa using h.2
  | _ => trivial

/-- A vault is unlocked, locked by the popup, cleared, and unlocked again. -/
theorem keys_cleared_after_lock :
    ∃ m : VaultSessionMachine, system.run {} [.dispatch (.localUnlocked ⟨1⟩ 0) "a",
        .dispatch (.lockRequested .popup 10) "a", .clear 0, .settle 0, .dispatch (.localUnlocked ⟨2⟩ 20) "a"] = some m ∧
      (∀ muk ∈ m.given, m.state.muk = some muk ∨ muk ∈ m.cleared ∨ ∃ c ∈ m.chains, c.toClear = true) ∧
      (m.chains = [] → (m.keys ≠ [] ↔ m.state.owner = .locally)) ∧ m.given = [⟨1⟩, ⟨2⟩] ∧ m.cleared = [⟨1⟩] := by
  have hrun : ∃ m, system.runUnder (exclusiveCheck · · = true) {} [.dispatch (.localUnlocked ⟨1⟩ 0) "a",
      .dispatch (.lockRequested .popup 10) "a", .clear 0, .settle 0, .dispatch (.localUnlocked ⟨2⟩ 20) "a"] = some m ∧
      m.given = [⟨1⟩, ⟨2⟩] ∧ m.cleared = [⟨1⟩] := ⟨_, rfl, by decide +kernel⟩
  obtain ⟨m, hm, hkeys⟩ := hrun
  have hreach : system.ReachableUnder (exclusiveCheck · · = true) m :=
    System.ReachableUnder.runUnder (.init ⟨_, rfl⟩) hm
  obtain ⟨hgiven, hstore⟩ := keys_cleared (hreach.mono fun _ _ => exclusive_of_check)
  exact ⟨m, System.run_of_runUnder hm, hgiven, hstore, hkeys⟩

/-- A vault is unlocked again while the clearing of its lock is on its way: the key store ends
empty under a vault that is unlocked. -/
theorem unlock_overtakes_clear :
    ¬ ∀ m : VaultSessionMachine, system.Reachable m →
      (∀ muk ∈ m.given, m.state.muk = some muk ∨ muk ∈ m.cleared ∨ ∃ c ∈ m.chains, c.toClear = true) ∧
        (m.chains = [] → (m.keys ≠ [] ↔ m.state.owner = .locally)) := by
  intro h
  have hrun : ∃ m, system.run {} [.dispatch (.localUnlocked ⟨1⟩ 0) "a", .dispatch (.lockRequested .popup 10) "a",
      .dispatch (.localUnlocked ⟨2⟩ 20) "a", .clear 0, .settle 0] = some m ∧
      m.chains = [] ∧ m.keys = [] ∧ m.state.owner = .locally := ⟨_, rfl, by decide +kernel⟩
  obtain ⟨m, hm, hsettled, hempty, howner⟩ := hrun
  exact ((h m (System.Reachable.run (.init ⟨_, rfl⟩) hm)).2 hsettled).mpr howner hempty

end VaultSessionMachine

end Bittery
