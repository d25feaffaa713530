/-
What every sequence of events leaves the vault session in: who owns the vault, whether a key
is held, and what the effects so far have made of the alarm, the keepalive and the icon.

Each event does one of seven things to a state (`Reduces`); every fact below is read off
these seven.
-/
import Bittery.Client.VaultSession
import Mathlib.Data.List.Induction

namespace Bittery

/-! ## A commit -/

theorem VaultSessionState.eq_of_not_hasChanged {a b : VaultSessionState} (h : a.hasChanged b = false) :
    { b with revision := a.revision } = a := by
  simp only [VaultSessionState.hasChanged, Bool.or_eq_false_iff, bne_eq_false_iff_eq] at h
  obtain ⟨⟨⟨⟨⟨⟨⟨⟨h1, h2⟩, h3⟩, h4⟩, h5⟩, h6⟩, h7⟩, h8⟩, h9⟩ := h
  cases a
  cases b
  simp only at h1 h2 h3 h4 h5 h6 h7 h8 h9
  subst h1 h2 h3 h4 h5 h6 h7 h8 h9
  rfl

theorem VaultSessionState.hasChanged_iff {a b : VaultSessionState} :
    a.hasChanged b = true ↔ { b with revision := a.revision } ≠ a := by
  constructor
  · intro h heq
    rw [← heq] at h
    simp [VaultSessionState.hasChanged] at h
  · intro h
    by_contra hc
    exact h (VaultSessionState.eq_of_not_hasChanged (Bool.eq_false_iff.mpr hc))

@[simp] theorem commit_effects (prev next : VaultSessionState) (effects : List VaultSessionEffect) :
    (commit prev next effects).effects = effects := by
  unfold commit
  split <;> rfl

theorem commit_next (prev next : VaultSessionState) (effects : List VaultSessionEffect) :
    (commit prev next effects).next =
      { next with revision := prev.revision + if prev.hasChanged next then 1 else 0 } := by
  unfold commit
  split
  · rfl
  · next h => exact (VaultSessionState.eq_of_not_hasChanged (Bool.eq_false_iff.mpr h)).symm

theorem commit_self (prev : VaultSessionState) (effects : List VaultSessionEffect) :
    (commit prev prev effects).next = prev := by
  simp [commit, VaultSessionState.hasChanged]

/-! ## What an event does -/

/-- The key an event hands to the machine. -/
def VaultSessionEvent.offered : VaultSessionEvent → Option KeyRef
  | .startupRestored muk _ => muk
  | .localUnlocked muk _ => some muk
  | _ => none

/-- The facts about a state alone. -/
structure VaultSessionState.Coherent (s : VaultSessionState) : Prop where
  lockedDesktop : s.desktopConnected = true → s.desktopLocked = true → s.owner = .none
  desktopOwner : s.owner = .desktop → s.desktopConnected = true ∧ s.desktopLocked = false
  key : s.muk.isSome = true ↔ s.owner = .locally

/-- The effects of an event that changes neither the owner nor the alarm. -/
def Quiet (s : VaultSessionState) (effects : List VaultSessionEffect) : Prop :=
  effects = [] ∨ effects = [.setLockIndicator (decide (s.owner = .none))] ∨ ∃ code, effects = [.refuse code]

/-- The seven things an event does to a state. -/
inductive Reduces (s : VaultSessionState) (e : VaultSessionEvent) : ReduceResult → Prop
  | idle (effects : List VaultSessionEffect) : Quiet s effects → Reduces s e (commit s s effects)
  | stillLocked (n : VaultSessionState) (effects : List VaultSessionEffect) :
    s.owner = .none → n.owner = .none → (n.muk = s.muk ∨ n.muk = none) → e.offered = none →
    (effects = [] ∨ effects = [.setLockIndicator true] ∨ ∃ id reason, effects = revocationEffects false id reason) →
    Reduces s e (commit s n effects)
  | owned (n : VaultSessionState) :
    n.owner = s.owner → n.muk = s.muk → e.offered = none →
    (n.owner = .desktop → n.desktopConnected = s.desktopConnected ∨ n.desktopConnected = true) →
    (n.desktopLocked = s.desktopLocked ∧ n.desktopConnected = s.desktopConnected ∨ n.desktopLocked = false) →
    Reduces s e (commit s n (ownershipEffects n e.time))
  | desktopActive :
    s.owner = .desktop → e.offered = none → Reduces s e (commit s { s with lastActivityAt := e.time } [])
  | unlocked (muk : KeyRef) :
    ¬ (s.desktopConnected = true ∧ s.desktopLocked = true) → e.offered = some muk →
    Reduces s e (commit s { s with owner := .locally, muk := some muk, lastActivityAt := e.time, lockReason := none }
      (.setLockIndicator false ::
        ownershipEffects
          { s with owner := .locally, muk := some muk, lastActivityAt := e.time, lockReason := none } e.time))
  | handedOver (accountIds : List String) :
    e.offered = none → (∃ time, e = .desktopUnlockPushed accountIds time) →
    Reduces s e (commit s
      { s with owner := .desktop, muk := none, desktopConnected := true, desktopLocked := false,
               lastActivityAt := e.time, lockReason := none }
      [.setLockIndicator false, .disarmAutoLock, .startKeepalive, .broadcast (.desktopUnlocked accountIds)])
  | locked (n : VaultSessionState) (effects : List VaultSessionEffect) :
    s.owner ≠ .none → n.owner = .none → n.muk = none → e.offered = none →
    ((∃ reason options, effects = lockEffects reason options) ∨
      ∃ id reason, (∃ time, e = .sessionRevoked id reason time) ∧ effects = revocationEffects true id reason) →
    Reduces s e (commit s n effects)

/-- A lock, from a state with the desktop as the event has it. -/
theorem reduces_lockTransition {s base : VaultSessionState} {e : VaultSessionEvent} {reason : LockReason}
    {options : LockOptions} (ho : base.owner = s.owner) (hm : base.muk = s.muk) (he : e.offered = none) :
    Reduces s e (lockTransition s base reason options) := by
  unfold lockTransition
  split
  · next hnone => exact .stillLocked base [] (ho ▸ hnone) hnone (.inl hm) he (.inl rfl)
  · next howned => exact .locked _ _ (fun h => howned (ho.trans h)) rfl rfl he (.inl ⟨reason, options, rfl⟩)

theorem reduces_unlockLocally {s : VaultSessionState} {e : VaultSessionEvent} {muk : KeyRef}
    (he : e.offered = some muk) : Reduces s e (unlockLocally s muk e.time) := by
  unfold unlockLocally
  split
  · exact .idle _ (.inr (.inr ⟨_, rfl⟩))
  · next hfree => exact .unlocked muk (by simpa using hfree) he

theorem reduces_observeDesktop (s : VaultSessionState) (status : Option DesktopSnapshot) (time : Int) :
    Reduces s (.desktopObserved status time) (observeDesktop s status time) := by
  unfold observeDesktop
  dsimp only
  generalize (if status.any (·.connected) = true then status.bind (·.autoLockTimeoutMs) else none) = desktopTimeoutMs
  split
  · exact .idle _ (.inl rfl)
  split
  · exact reduces_lockTransition rfl rfl rfl
  next hunlocked =>
  split
  · exact reduces_lockTransition rfl rfl rfl
  next howner =>
  refine .owned _ rfl rfl rfl (fun hdesktop => .inr ?_) (.inr (Bool.eq_false_iff.mpr hunlocked))
  by_contra hdown
  exact howner ⟨Bool.eq_false_iff.mpr hdown, hdesktop⟩

/-- **Inversion.** Every event does one of the seven. -/
theorem reduces (s : VaultSessionState) (e : VaultSessionEvent) : Reduces s e (reduce s e) := by
  cases e with
  | boot => exact .idle _ (.inr (.inl rfl))
  | startupRestored muk time =>
    simp only [reduce]
    split
    · exact .idle _ (.inl rfl)
    next hnone =>
    cases muk with
    | none =>
      have howner : s.owner = .none := Decidable.not_not.mp hnone
      exact .stillLocked _ _ howner howner (.inl rfl) rfl (.inr (.inl rfl))
    | some muk => exact reduces_unlockLocally rfl
  | localUnlocked muk time => exact reduces_unlockLocally rfl
  | desktopObserved status time => exact reduces_observeDesktop s status time
  | desktopUnlockPushed accountIds time => exact .handedOver accountIds rfl ⟨time, rfl⟩
  | desktopLockPushed reason time => exact reduces_lockTransition rfl rfl rfl
  | desktopClosed time =>
    simp only [reduce]
    split
    · exact reduces_lockTransition rfl rfl rfl
    · next howner => exact .owned _ rfl rfl rfl (fun h => absurd h howner) (.inr rfl)
  | activity time =>
    simp only [reduce]
    split
    · exact .idle _ (.inl rfl)
    · next howner => exact .desktopActive howner rfl
    · exact .owned _ rfl rfl rfl (fun _ => .inl rfl) (.inl ⟨rfl, rfl⟩)
  | timeoutElapsed time =>
    simp only [reduce]
    split
    · exact .idle _ (.inl rfl)
    split
    · exact reduces_lockTransition rfl rfl rfl
    · exact .owned s rfl rfl rfl (fun _ => .inl rfl) (.inl ⟨rfl, rfl⟩)
  | timeoutSettingChanged timeoutMs time =>
    simp only [reduce]
    split
    · exact .idle _ (.inl rfl)
    · exact .owned _ rfl rfl rfl (fun _ => .inl rfl) (.inl ⟨rfl, rfl⟩)
  | lockRequested source time =>
    simp only [reduce]
    split
    · exact .idle _ (.inr (.inr ⟨_, rfl⟩))
    · exact reduces_lockTransition rfl rfl rfl
  | sessionRevoked id reason time =>
    simp only [reduce]
    split
    · exact .idle _ (.inl rfl)
    by_cases hnone : s.owner = .none
    · rw [decide_eq_false (not_not.mpr hnone)]
      exact .stillLocked _ _ hnone rfl (.inr rfl) rfl (.inr (.inr ⟨id, reason, rfl⟩))
    · rw [decide_eq_true hnone]
      exact .locked _ _ hnone rfl rfl rfl (.inr ⟨id, reason, ⟨time, rfl⟩, rfl⟩)
  | sessionInvalidated time => exact reduces_lockTransition rfl rfl rfl

/-! ## The state -/

theorem VaultSessionState.Coherent.initial (settingsTimeoutMs : Int) :
    (createInitialState settingsTimeoutMs).Coherent where
  lockedDesktop := fun h => by simp [createInitialState] at h
  desktopOwner := fun h => by simp [createInitialState] at h
  key := by simp [createInitialState]

/-- Coherence does not read the revision. -/
theorem VaultSessionState.Coherent.commit {prev next : VaultSessionState} {effects : List VaultSessionEffect}
    (h : next.Coherent) : (commit prev next effects).next.Coherent := by
  rw [commit_next]
  exact ⟨h.lockedDesktop, h.desktopOwner, h.key⟩

/-- A state without an owner and without a key. -/
theorem VaultSessionState.Coherent.of_locked {n : VaultSessionState} (ho : n.owner = .none) (hm : n.muk = none) :
    n.Coherent where
  lockedDesktop := fun _ _ => ho
  desktopOwner := fun h => by rw [ho] at h; cases h
  key := by simp [ho, hm]

theorem VaultSessionState.Coherent.muk_eq_none {s : VaultSessionState} (h : s.Coherent) (ho : s.owner ≠ .locally) :
    s.muk = none := by
  have hnot := mt h.key.mp ho
  simpa using hnot

/-- Every event keeps the state coherent. -/
theorem VaultSessionState.Coherent.reduce {s : VaultSessionState} (h : s.Coherent) (e : VaultSessionEvent) :
    (reduce s e).next.Coherent := by
  generalize hr : Bittery.reduce s e = r
  cases hr ▸ reduces s e with
  | idle effects _ => exact h.commit
  | stillLocked n effects hs hn hm _ _ =>
    have hnone : s.muk = none := h.muk_eq_none (by rw [hs]; exact VaultOwner.noConfusion)
    exact .commit (.of_locked hn (hm.elim (·.trans hnone) id))
  | owned n ho hm _ hdesktop hlocked =>
    refine .commit ⟨fun hc hl => ?_, fun hd => ?_, by rw [hm, ho]; exact h.key⟩
    · obtain ⟨hl', hc'⟩ | hfalse := hlocked
      · exact ho.trans (h.lockedDesktop (hc'.symm.trans hc) (hl'.symm.trans hl))
      · rw [hfalse] at hl; cases hl
    · obtain ⟨hconn, hfree⟩ := h.desktopOwner (ho.symm.trans hd)
      exact ⟨(hdesktop hd).elim (·.trans hconn) id, hlocked.elim (·.1.trans hfree) id⟩
  | desktopActive ho _ => exact .commit ⟨h.lockedDesktop, h.desktopOwner, h.key⟩
  | unlocked muk hfree _ =>
    exact .commit ⟨fun hc hl => absurd ⟨hc, hl⟩ hfree, fun hd => VaultOwner.noConfusion hd, by simp⟩
  | handedOver accountIds _ _ => exact .commit ⟨fun _ hl => by simp at hl, fun _ => ⟨rfl, rfl⟩, by simp⟩
  | locked n effects _ hn hm _ _ => exact .commit (.of_locked hn hm)

/-! ## The effects -/

/-- The alarm is armed while the vault is unlocked locally and a timeout is set. -/
def VaultSessionState.countsDown (s : VaultSessionState) : Prop := s.owner = .locally ∧ s.resolveTimeoutMs ≠ -1

/-- The service worker shows and does what the state calls for. -/
structure ChromeSession.Shows (c : ChromeSession) (s : VaultSessionState) : Prop where
  armed : c.autoLock.isSome = true ↔ s.countsDown
  deadline : ∀ a, c.autoLock = some a → a.deadline = max a.armedAt (s.lastActivityAt + s.resolveTimeoutMs)
  keepalive : c.keepalive = true ↔ s.owner ≠ .none
  lockIndicator : c.lockIndicator = false ↔ s.owner ≠ .none

namespace ChromeSession

variable {c : ChromeSession} {s n : VaultSessionState}

@[simp] theorem runEffects_nil (now : Int) : c.runEffects now [] = c := rfl

@[simp] theorem runEffects_cons (now : Int) (effect : VaultSessionEffect) (effects : List VaultSessionEffect) :
    c.runEffects now (effect :: effects) = (c.runEffect now effect).runEffects now effects := rfl

/-- What is shown does not depend on the revision. -/
theorem Shows.commit {prev : VaultSessionState} {effects : List VaultSessionEffect} (h : c.Shows n) :
    c.Shows (commit prev n effects).next := by
  rw [commit_next]
  exact ⟨h.armed, h.deadline, h.keepalive, h.lockIndicator⟩

/-- Nothing runs for a locked vault. -/
theorem shows_of_locked (ho : n.owner = .none) (ha : c.autoLock = none) (hk : c.keepalive = false)
    (hi : c.lockIndicator = true) : c.Shows n where
  armed := by simp [ha, VaultSessionState.countsDown, ho]
  deadline := fun a h => by rw [ha] at h; cases h
  keepalive := by simp [hk, ho]
  lockIndicator := by simp [hi, ho]

theorem Shows.locked (h : c.Shows s) (hs : s.owner = .none) :
    c.autoLock = none ∧ c.keepalive = false ∧ c.lockIndicator = true := by
  refine ⟨?_, ?_, ?_⟩
  · have := mt h.armed.mp (fun hcounts => by rw [hcounts.1] at hs; cases hs)
    simpa using this
  · simpa [hs] using h.keepalive
  · simpa [hs] using h.lockIndicator

/-- After its ownership effects an unlocked vault is shown as it is. -/
theorem shows_ownershipEffects (ho : n.owner ≠ .none) (hi : c.lockIndicator = false) (now : Int) :
    (c.runEffects now (ownershipEffects n now)).Shows n := by
  cases howner : n.owner with
  | none => exact absurd howner ho
  | desktop => constructor <;> simp [ownershipEffects, howner, runEffect, VaultSessionState.countsDown, hi]
  | locally =>
    by_cases ht : n.resolveTimeoutMs = -1
    · constructor <;> simp [ownershipEffects, howner, runEffect, VaultSessionState.countsDown, hi, ht]
    · constructor <;>
        simp [ownershipEffects, howner, runEffect, VaultSessionState.countsDown, hi, ht, AutoLock.deadline]
      omega

theorem Shows.ownershipEffects (h : c.Shows s) (ho : n.owner = s.owner) (now : Int) :
    (c.runEffects now (Bittery.ownershipEffects n now)).Shows n := by
  by_cases hs : s.owner = .none
  · have hn := ho.trans hs
    obtain ⟨ha, hk, hi⟩ := h.locked hs
    simp only [Bittery.ownershipEffects, hn]
    exact shows_of_locked hn ha hk hi
  · exact shows_ownershipEffects (ho ▸ hs) (h.lockIndicator.mpr hs) now

/-- A lock stops whatever ran. -/
@[simp] theorem runEffects_lockEffects (now : Int) (reason : LockReason) (options : LockOptions) :
    c.runEffects now (lockEffects reason options) = {} := by
  cases hd : options.disconnectSync with
  | none => simp [lockEffects, hd, runEffect]
  | some d => simp [lockEffects, hd, runEffect]

@[simp] theorem runEffects_revocationEffects (now : Int) (id reason : Option String) :
    c.runEffects now (revocationEffects true id reason) = {} := by
  simp [revocationEffects, runEffect]

/-- Every event leaves the service worker as its next state calls for. -/
theorem Shows.reduce (h : c.Shows s) (e : VaultSessionEvent) :
    (c.runEffects e.time (Bittery.reduce s e).effects).Shows (Bittery.reduce s e).next := by
  generalize hr : Bittery.reduce s e = r
  cases hr ▸ reduces s e with
  | idle effects hq =>
    rw [commit_effects]
    refine .commit ?_
    obtain rfl | rfl | ⟨code, rfl⟩ := hq
    · exact h
    · exact ⟨h.armed, h.deadline, h.keepalive, by simp [runEffect]⟩
    · exact h
  | stillLocked n effects hs hn _ _ heff =>
    obtain ⟨ha, hk, hi⟩ := h.locked hs
    rw [commit_effects]
    refine .commit ?_
    obtain rfl | rfl | ⟨id, reason, rfl⟩ := heff
    · exact shows_of_locked hn ha hk hi
    · exact shows_of_locked hn ha hk rfl
    · exact shows_of_locked hn ha hk hi
  | owned n ho _ _ _ _ =>
    rw [commit_effects]
    exact .commit (h.ownershipEffects ho e.time)
  | desktopActive ho _ =>
    rw [commit_effects]
    refine .commit ⟨?_, fun a ha => ?_, h.keepalive, h.lockIndicator⟩
    · simpa [VaultSessionState.countsDown, ho] using h.armed
    · rw [runEffects_nil] at ha
      have hcounts := h.armed.mp (by rw [ha]; rfl)
      rw [hcounts.1] at ho
      cases ho
  | unlocked muk _ _ =>
    rw [commit_effects]
    exact .commit (shows_ownershipEffects (by simp) rfl e.time)
  | handedOver accountIds _ _ =>
    rw [commit_effects]
    refine .commit ?_
    constructor <;> simp [runEffect, VaultSessionState.countsDown]
  | locked n effects _ hn _ _ heff =>
    rw [commit_effects]
    refine .commit ?_
    obtain ⟨reason, options, rfl⟩ | ⟨id, reason, _, rfl⟩ := heff
    · rw [runEffects_lockEffects]
      exact shows_of_locked hn rfl rfl rfl
    · rw [runEffects_revocationEffects]
      exact shows_of_locked hn rfl rfl rfl

end ChromeSession

/-! ## Single events -/

/-- The keys are cleared last, but for the invalidation of a revoked session. -/
def ClearsKeysLast (e : VaultSessionEvent) (effects : List VaultSessionEffect) : Prop :=
  (∃ before reason, effects = before ++ [.clearKeys reason]) ∨
    ∃ before id reason time, e = .sessionRevoked id reason time ∧
      effects = before ++ [.clearKeys .sessionRevoked, .invalidateSession id]

theorem clearsKeysLast_lockEffects (e : VaultSessionEvent) (reason : LockReason) (options : LockOptions) :
    ClearsKeysLast e (lockEffects reason options) := by
  refine .inl ⟨[.setLockIndicator true, .disarmAutoLock, .stopKeepalive] ++
    (options.disconnectSync.map fun d => .disconnectSync d.reason d.suppressReconnect).toList ++
    [.broadcast (options.broadcast.getD (.vaultLocked reason))], reason, ?_⟩
  simp [lockEffects]

/-- A vault that an event locks has its keys cleared. -/
theorem reduce_locks {s : VaultSessionState} {e : VaultSessionEvent} (hs : s.owner ≠ .none)
    (hn : (reduce s e).next.owner = .none) : ClearsKeysLast e (reduce s e).effects := by
  generalize hr : reduce s e = r at hn ⊢
  cases hr ▸ reduces s e with
  | idle effects _ => rw [commit_self] at hn; exact absurd hn hs
  | stillLocked n effects hlocked _ _ _ _ => exact absurd hlocked hs
  | owned n ho _ _ _ _ => rw [commit_next] at hn; exact absurd (ho.symm.trans hn) hs
  | desktopActive ho _ => rw [commit_next] at hn; exact absurd hn hs
  | unlocked muk _ _ => rw [commit_next] at hn; cases hn
  | handedOver accountIds _ _ => rw [commit_next] at hn; cases hn
  | locked n effects _ _ _ _ heff =>
    rw [commit_effects]
    obtain ⟨reason, options, rfl⟩ | ⟨id, reason, ⟨time, rfl⟩, rfl⟩ := heff
    · exact clearsKeysLast_lockEffects e reason options
    · exact .inr ⟨[.setLockIndicator true, .disarmAutoLock, .stopKeepalive, .disconnectSync "session_revoked" true,
        .broadcast (.sessionRevoked reason)], id, reason, time, rfl, rfl⟩

theorem commit_revision (prev next : VaultSessionState) (effects : List VaultSessionEffect) :
    let after := (commit prev next effects).next
    after = prev ∨ after.revision = prev.revision + 1 ∧ { after with revision := prev.revision } ≠ prev := by
  dsimp only
  cases hc : prev.hasChanged next with
  | false => exact .inl (by simp [commit, hc])
  | true => exact .inr (by simpa [commit, hc] using VaultSessionState.hasChanged_iff.mp hc)

/-- The revision moves by one exactly on a change of the state. -/
theorem reduce_revision (s : VaultSessionState) (e : VaultSessionEvent) :
    (reduce s e).next = s ∨
      (reduce s e).next.revision = s.revision + 1 ∧ { (reduce s e).next with revision := s.revision } ≠ s := by
  generalize reduce s e = r, reduces s e = hr
  cases hr <;> exact commit_revision ..

/-- An alarm armed by the ownership effects is armed at their time. -/
theorem armedAt_ownershipEffects {n : VaultSessionState} (ho : n.owner = .locally) {now : Int} {c : ChromeSession}
    {a : AutoLock} (ha : (c.runEffects now (ownershipEffects n now)).autoLock = some a) : a.armedAt = now := by
  simp only [ownershipEffects, ho] at ha
  split at ha
  · simp [ChromeSession.runEffect] at ha
  · simp only [ChromeSession.runEffects_cons, ChromeSession.runEffects_nil, ChromeSession.runEffect,
      Option.some.injEq] at ha
    rw [← ha]

/-- An event that leaves a local vault unlocked arms the alarm anew, or leaves the state as it was. -/
theorem reduce_arms {s : VaultSessionState} {e : VaultSessionEvent} (hn : (reduce s e).next.owner = .locally)
    {c : ChromeSession} {a : AutoLock} (ha : (c.runEffects e.time (reduce s e).effects).autoLock = some a) :
    (reduce s e).next = s ∨ a.armedAt = e.time := by
  generalize hr : reduce s e = r at hn ha ⊢
  cases hr ▸ reduces s e with
  | idle effects _ => exact .inl (commit_self s effects)
  | stillLocked n effects _ hlocked _ _ _ =>
    rw [commit_next] at hn
    rw [hlocked] at hn
    cases hn
  | owned n ho _ _ _ _ =>
    rw [commit_next] at hn
    rw [commit_effects] at ha
    exact .inr (armedAt_ownershipEffects hn ha)
  | desktopActive ho _ =>
    rw [commit_next] at hn
    rw [ho] at hn
    cases hn
  | unlocked muk _ _ =>
    rw [commit_effects] at ha
    exact .inr (armedAt_ownershipEffects rfl ha)
  | handedOver accountIds _ _ => rw [commit_next] at hn; cases hn
  | locked n effects _ hlocked _ _ _ =>
    rw [commit_next] at hn
    rw [hlocked] at hn
    cases hn

/-! ## Every sequence of events -/

namespace VaultSession

theorem after_concat (settingsTimeoutMs : Int) (events : List VaultSessionEvent) (e : VaultSessionEvent) :
    after settingsTimeoutMs (events ++ [e]) = (after settingsTimeoutMs events).apply e := by
  simp [after]

theorem after_invariant (settingsTimeoutMs : Int) (events : List VaultSessionEvent) :
    (after settingsTimeoutMs events).state.Coherent ∧
      (after settingsTimeoutMs events).chrome.Shows (after settingsTimeoutMs events).state := by
  induction events using List.reverseRecOn with
  | nil => exact ⟨.initial settingsTimeoutMs, ChromeSession.shows_of_locked rfl rfl rfl rfl⟩
  | append_singleton events e ih =>
    rw [after_concat]
    exact ⟨ih.1.reduce e, ih.2.reduce e⟩

/-- **The vault session machine.** After every sequence of events the owner, the desktop and the
key agree, and the alarm, the keepalive and the icon are what the state calls for. The deadline
counts from the event that armed the alarm, which every event that changes an unlocked local
vault does; an event that changes nothing arms nothing. The revision moves by one on a change
and only then, and an event that locks the vault clears the keys last. -/
theorem machine_invariants (settingsTimeoutMs : Int) (events : List VaultSessionEvent) :
    let s := after settingsTimeoutMs events
    s.state.Coherent ∧ s.chrome.Shows s.state ∧
      ∀ e : VaultSessionEvent,
        ((s.apply e).state = s.state ∨
          (s.apply e).state.revision = s.state.revision + 1 ∧
            { (s.apply e).state with revision := s.state.revision } ≠ s.state) ∧
        ((s.apply e).state.owner = .locally → ∀ a, (s.apply e).chrome.autoLock = some a →
          (s.apply e).state = s.state ∨ a.armedAt = e.time) ∧
        (s.state.owner ≠ .none → (s.apply e).state.owner = .none →
          ClearsKeysLast e (reduce s.state e).effects) := by
  obtain ⟨hcoherent, hshows⟩ := after_invariant settingsTimeoutMs events
  exact ⟨hcoherent, hshows, fun e =>
    ⟨reduce_revision _ e, fun howner a ha => reduce_arms howner ha, fun hs hn => reduce_locks hs hn⟩⟩

/-- A read is events like any other, so what it leaves is what some sequence of events leaves. -/
theorem getSnapshot_after (settingsTimeoutMs : Int) (events : List VaultSessionEvent)
    (observed : Option DesktopSnapshot) (t₁ t₂ t₃ : Int) :
    ∃ more, ((after settingsTimeoutMs events).getSnapshot observed t₁ t₂ t₃).1 =
      after settingsTimeoutMs (events ++ more) := by
  have hone : ∀ (p : Prop) [Decidable p] (evs : List VaultSessionEvent) (e : VaultSessionEvent),
      ∃ more, (if p then (after settingsTimeoutMs evs).apply e else after settingsTimeoutMs evs) =
        after settingsTimeoutMs (evs ++ more) := by
    intro p _ evs e
    split
    · exact ⟨[e], (after_concat settingsTimeoutMs evs e).symm⟩
    · exact ⟨[], by rw [List.append_nil]⟩
  unfold getSnapshot
  dsimp only
  generalize (if observed.any (·.connected) = true then observed.bind (·.autoLockTimeoutMs) else none) = timeoutMs
  obtain ⟨first, hfirst⟩ := hone (observed.any (·.connected) ≠ (after settingsTimeoutMs events).state.desktopConnected ∨
    (observed.any (·.connected) && observed.any (·.locked)) ≠ (after settingsTimeoutMs events).state.desktopLocked ∨
    timeoutMs ≠ (after settingsTimeoutMs events).state.desktopTimeoutMs) events (.desktopObserved observed t₁)
  rw [hfirst]
  obtain ⟨second, hsecond⟩ := hone
    (((after settingsTimeoutMs (events ++ first)).state.projectSnapshot t₂).remainingMs = some 0)
    (events ++ first) (.timeoutElapsed t₂)
  exact ⟨first ++ second, by rw [hsecond, List.append_assoc]⟩

theorem projectSnapshot_remainingMs {s : VaultSessionState} {now : Int}
    (h : (s.projectSnapshot now).remainingMs = some 0) :
    s.owner = .locally ∧ s.resolveTimeoutMs ≠ -1 ∧ now - s.lastActivityAt ≥ s.resolveTimeoutMs := by
  simp only [VaultSessionState.projectSnapshot] at h
  split at h
  · next hruns =>
    simp only [Bool.and_eq_true, decide_eq_true_eq, Bool.not_eq_true', decide_eq_false_iff_not] at hruns
    obtain ⟨⟨hsome, hnot⟩, htimeout⟩ := hruns
    rw [Option.some.injEq] at h
    refine ⟨?_, htimeout, by omega⟩
    cases ho : s.owner with
    | none => exact absurd ho hsome
    | locally => rfl
    | desktop => exact absurd ho hnot
  · cases h

/-- A read leaves no vault unlocked whose countdown had run out when it looked. -/
theorem getSnapshot_fails_closed (s : VaultSession) (observed : Option DesktopSnapshot) (t₁ t₂ t₃ : Int) :
    ((s.getSnapshot observed t₁ t₂ t₃).1.state.projectSnapshot t₂).remainingMs ≠ some 0 := by
  have hany : ∀ seen : VaultSession,
      ((if (seen.state.projectSnapshot t₂).remainingMs = some 0 then seen.apply (.timeoutElapsed t₂)
        else seen).state.projectSnapshot t₂).remainingMs ≠ some 0 := by
    intro seen
    split
    · next hzero =>
      obtain ⟨howner, htimeout, helapsed⟩ := projectSnapshot_remainingMs hzero
      simp [apply, reduce, howner, htimeout, helapsed, lockTransition, commit_next, VaultSessionState.projectSnapshot]
    · next hnot => exact hnot
  exact hany _

/-- The desktop is observed again long after the deadline of a local vault: nothing has changed,
and the alarm keeps its deadline. -/
theorem deadline_without_rearming :
    ¬ ∀ (settingsTimeoutMs : Int) (events : List VaultSessionEvent) (e : VaultSessionEvent),
      let s := after settingsTimeoutMs (events ++ [e])
      ∀ a, s.chrome.autoLock = some a →
        a.deadline = max e.time (s.state.lastActivityAt + s.state.resolveTimeoutMs) := by
  intro h
  have := h DEFAULT_SETTINGS_TIMEOUT_MS [.localUnlocked ⟨1⟩ 0] (.desktopObserved none 700000) ⟨0, 600000⟩ (by decide)
  revert this
  decide

end VaultSession

end Bittery
