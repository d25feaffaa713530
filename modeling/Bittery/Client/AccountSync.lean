/-
The assembly of the sync of the active account, from `services/account-sync-lifecycle.ts`.

The listeners of the lifecycle only read its snapshot. The active account changes as its listeners are told, a call of
`assemble` knows the account it was made for, and what listeners were shown is kept in a log.
-/
import Bittery.Lib.Runs

namespace Bittery

open Lib

/-- An assembly and the account it was built for. -/
structure AccountAssembly (Account Assembly : Type) where
  assembly : Assembly
  activeAccountId : Account
deriving DecidableEq, Repr

structure AccountSyncSnapshot (Account Assembly : Type) where
  clientId : String
  assembly : Option (AccountAssembly Account Assembly)
  initialized : Bool
  ready : Bool
  error : Option String
deriving DecidableEq, Repr

def INITIAL_SNAPSHOT {Account Assembly : Type} : AccountSyncSnapshot Account Assembly := ⟨"", none, false, false, none⟩

/-- A call of `assemble`. -/
structure AssembleCall (Account : Type) where
  generation : Nat
  clientId : String
  activeAccountId : Account
  /-- The lifecycle was cleared or disposed, or an account was announced, since. -/
  overtaken : Bool
deriving DecidableEq, Repr

structure AccountSyncLifecycle (Account Assembly : Type) where
  snapshot : AccountSyncSnapshot Account Assembly
  activeAccountId : Option Account
  /-- `unsubscribers` is not empty. -/
  subscribed : Bool
  generation : Nat
  started : Bool
  /-- `options.getActiveAccountId()` -/
  account : Account
  /-- The generations of the calls of `resolveClientId` under way. -/
  resolving : List Nat
  assembling : List (AssembleCall Account)
  /-- The calls of `assemble` that settled, and how. -/
  settled : List (AssembleCall Account × Except String (Option Assembly))
  published : List (AccountSyncSnapshot Account Assembly)
deriving DecidableEq, Repr

inductive AccountSyncLabel (Account Assembly : Type) where
  | start
  | clear
  | dispose
  | accountChanges (account : Account)
  | resolved (k : Nat) (result : Except String String)
  | assembled (k : Nat) (result : Except String (Option Assembly))

namespace AccountSyncLifecycle

variable {Account Assembly : Type} [DecidableEq Account] [DecidableEq Assembly]

def initial (account : Account) : AccountSyncLifecycle Account Assembly where
  snapshot := INITIAL_SNAPSHOT
  activeAccountId := none
  subscribed := false
  generation := 0
  started := false
  account := account
  resolving := []
  assembling := []
  settled := []
  published := []

def publish (s : AccountSyncLifecycle Account Assembly) (snapshot : AccountSyncSnapshot Account Assembly) :
    AccountSyncLifecycle Account Assembly :=
  { s with snapshot := snapshot, published := s.published ++ [snapshot] }

def isCurrent (s : AccountSyncLifecycle Account Assembly) (generation : Nat) : Bool :=
  s.started && generation == s.generation

def fail (s : AccountSyncLifecycle Account Assembly) (generation : Nat) (message : String) :
    AccountSyncLifecycle Account Assembly :=
  if !s.isCurrent generation then s
  else s.publish { s.snapshot with assembly := none, initialized := true, ready := false, error := some message }

/-- The calls under way are overtaken by an event. -/
def overtake (s : AccountSyncLifecycle Account Assembly) : AccountSyncLifecycle Account Assembly :=
  { s with assembling := s.assembling.map fun call => { call with overtaken := true } }

def start (s : AccountSyncLifecycle Account Assembly) : AccountSyncLifecycle Account Assembly :=
  if s.started then s
  else { s with
    started := true, subscribed := true, generation := s.generation + 1, resolving := s.resolving ++ [s.generation + 1] }

def clear (s : AccountSyncLifecycle Account Assembly) : AccountSyncLifecycle Account Assembly :=
  { s with generation := s.generation + 1, activeAccountId := none }.publish
    { s.snapshot with assembly := none, initialized := false, ready := false, error := none }

def dispose (s : AccountSyncLifecycle Account Assembly) : AccountSyncLifecycle Account Assembly :=
  { s with generation := s.generation + 1, subscribed := false, started := false }

def rebuild (s : AccountSyncLifecycle Account Assembly) (clientId : String) : AccountSyncLifecycle Account Assembly :=
  if !s.started || clientId == "" then s
  else
    let scopeChanged := s.activeAccountId ≠ some s.account || s.snapshot.clientId != clientId
    let t := { s with generation := s.generation + 1, activeAccountId := some s.account }
    let t := if scopeChanged || !t.snapshot.initialized then t.publish ⟨clientId, none, false, false, none⟩ else t
    { t with assembling := t.assembling ++ [⟨t.generation, clientId, s.account, false⟩] }

/-- `resolveClientId` settles. -/
def resolved (s : AccountSyncLifecycle Account Assembly) (generation : Nat) :
    Except String String → AccountSyncLifecycle Account Assembly
  | .error message => s.fail generation message
  | .ok clientId =>
    if !s.isCurrent generation then s
    else if clientId == "" then s.publish ⟨"", none, true, false, none⟩
    else s.rebuild clientId

/-- `assemble` settles. -/
def assembled (s : AccountSyncLifecycle Account Assembly) (call : AssembleCall Account) :
    Except String (Option Assembly) → AccountSyncLifecycle Account Assembly
  | .error message => s.fail call.generation message
  | .ok assembly =>
    if !s.isCurrent call.generation then s
    else if s.snapshot.clientId = call.clientId ∧ s.snapshot.assembly.map (·.assembly) = assembly ∧
        s.snapshot.initialized = true ∧ s.snapshot.error = none then s
    else s.publish ⟨call.clientId, assembly.map (⟨·, call.activeAccountId⟩), true, assembly.isSome, none⟩

/-- The calls that settle are no longer under way. -/
def takeResolving (s : AccountSyncLifecycle Account Assembly) (k : Nat) : AccountSyncLifecycle Account Assembly :=
  { s with resolving := s.resolving.eraseIdx k }

def takeAssembling (s : AccountSyncLifecycle Account Assembly) (k : Nat) (call : AssembleCall Account)
    (result : Except String (Option Assembly)) : AccountSyncLifecycle Account Assembly :=
  { s with assembling := s.assembling.eraseIdx k, settled := s.settled ++ [(call, result)] }

/-- Another account becomes the active one, or the same one is announced again. -/
def announce (s : AccountSyncLifecycle Account Assembly) (account : Account) : AccountSyncLifecycle Account Assembly :=
  { s.overtake with account := account }

/-- What is not under way does not settle. -/
def next (s : AccountSyncLifecycle Account Assembly) :
    AccountSyncLabel Account Assembly → AccountSyncLifecycle Account Assembly
  | .start => s.start
  | .clear => s.overtake.clear
  | .dispose => s.overtake.dispose
  | .accountChanges account =>
    let t := s.announce account
    if t.subscribed then t.rebuild t.snapshot.clientId else t
  | .resolved k result =>
    match s.resolving[k]? with
    | none => s
    | some generation => (s.takeResolving k).resolved generation result
  | .assembled k result =>
    match s.assembling[k]? with
    | none => s
    | some call => (s.takeAssembling k call result).assembled call result

/-- The state after a run. -/
def after (s : AccountSyncLifecycle Account Assembly) (labels : List (AccountSyncLabel Account Assembly)) :
    AccountSyncLifecycle Account Assembly :=
  labels.foldl next s

/-! ## What is published -/

/-- A step shows an assembly only while the lifecycle is started, and only one that it was built for the account of
now: nothing was cleared and no account announced since the call. -/
def PublishesCurrent (s : AccountSyncLifecycle Account Assembly) (label : AccountSyncLabel Account Assembly) : Prop :=
  ∃ shown, (s.next label).published = s.published ++ shown ∧
    ∀ snapshot ∈ shown, ∀ built ∈ snapshot.assembly, s.started = true ∧
      ∃ call ∈ s.assembling, ∃ k result, label = .assembled k (.ok (some result)) ∧ s.assembling[k]? = some call ∧
        built = ⟨result, call.activeAccountId⟩ ∧ call.overtaken = false ∧ call.activeAccountId = s.account

/-- The calls of the current generation. -/
structure Coherent (s : AccountSyncLifecycle Account Assembly) : Prop where
  subscribed : s.subscribed = s.started
  resolving : ∀ generation ∈ s.resolving, generation ≤ s.generation
  assembling : ∀ call ∈ s.assembling, call.generation ≤ s.generation
  current : s.started = true → ∀ call ∈ s.assembling, call.generation = s.generation →
    call.overtaken = false ∧ call.activeAccountId = s.account ∧ s.activeAccountId = some s.account ∧
      s.snapshot.clientId = call.clientId ∧ call.clientId ≠ "" ∧ s.generation ∉ s.resolving
  ready : s.snapshot.ready = s.snapshot.assembly.isSome
  nameless : s.snapshot.clientId = "" → s.snapshot.assembly = none
  built : ∀ built ∈ s.snapshot.assembly, s.activeAccountId = some built.activeAccountId

/-- What a call that settled asks to be shown. -/
def shownBy (call : AssembleCall Account) : Except String (Option Assembly) → AccountSyncSnapshot Account Assembly
  | .ok assembly => ⟨call.clientId, assembly.map (⟨·, call.activeAccountId⟩), true, assembly.isSome, none⟩
  | .error message => ⟨call.clientId, none, true, false, some message⟩

/-- The snapshot is initialised, and it is that of the account of now: there is no client id, or it shows how a call
for this account ended. -/
structure Follows (s : AccountSyncLifecycle Account Assembly) : Prop where
  initialized : s.snapshot.initialized = true
  account : (s.snapshot.clientId = "" ∧ s.snapshot.assembly = none) ∨
    ∃ call result, (call, result) ∈ s.settled ∧ call.activeAccountId = s.account ∧ call.overtaken = false ∧
      s.snapshot = shownBy call result

/-- The lifecycle is cleared only when it knows the client id. -/
def ClearsKnown (s : AccountSyncLifecycle Account Assembly) (label : AccountSyncLabel Account Assembly) : Prop :=
  label = .clear → s.snapshot.clientId ≠ ""

set_option linter.unusedSectionVars false

variable {s : AccountSyncLifecycle Account Assembly} {label : AccountSyncLabel Account Assembly}

theorem shownBy_clientId (call : AssembleCall Account) (result : Except String (Option Assembly)) :
    (shownBy call result).clientId = call.clientId := by
  cases result <;> rfl

theorem shownBy_initialized (call : AssembleCall Account) (result : Except String (Option Assembly)) :
    (shownBy call result).initialized = true := by
  cases result <;> rfl

/-- What `rebuild` does once it goes ahead. -/
structure Rebuilt (s : AccountSyncLifecycle Account Assembly) (clientId : String)
    (t : AccountSyncLifecycle Account Assembly) : Prop where
  started : t.started = s.started
  subscribed : t.subscribed = s.subscribed
  generation : t.generation = s.generation + 1
  account : t.account = s.account
  activeAccountId : t.activeAccountId = some s.account
  resolving : t.resolving = s.resolving
  settled : t.settled = s.settled
  assembling : t.assembling = s.assembling ++ [⟨s.generation + 1, clientId, s.account, false⟩]
  shown : (t.snapshot = ⟨clientId, none, false, false, none⟩ ∧ t.published = s.published ++ [t.snapshot]) ∨
    (t.snapshot = s.snapshot ∧ s.activeAccountId = some s.account ∧ s.snapshot.clientId = clientId ∧
      t.published = s.published)

theorem rebuild_cases (s : AccountSyncLifecycle Account Assembly) (clientId : String) :
    ((s.started = false ∨ clientId = "") ∧ s.rebuild clientId = s) ∨
      (s.started = true ∧ clientId ≠ "" ∧ Rebuilt s clientId (s.rebuild clientId)) := by
  cases hstarted : s.started with
  | false => exact Or.inl ⟨Or.inl rfl, by simp [rebuild, hstarted]⟩
  | true =>
    by_cases hclient : clientId = ""
    · exact Or.inl ⟨Or.inr hclient, by simp [rebuild, hclient]⟩
    · refine Or.inr ⟨rfl, hclient, ?_⟩
      have hgo : ¬ (!s.started || clientId == "") = true := by simp [hstarted, hclient]
      rw [rebuild, if_neg hgo]
      by_cases hscope : s.activeAccountId = some s.account ∧ s.snapshot.clientId = clientId ∧
          s.snapshot.initialized = true
      · constructor <;> simp [hscope]
      · have hpublish : (¬ s.activeAccountId = some s.account ∨ ¬ s.snapshot.clientId = clientId) ∨
            s.snapshot.initialized = false := by
          by_contra hno
          simp only [not_or, not_not, Bool.not_eq_false] at hno
          exact hscope ⟨hno.1.1, hno.1.2, hno.2⟩
        constructor <;> simp [publish, hpublish]

theorem isCurrent_iff {generation : Nat} : s.isCurrent generation = true ↔ s.started = true ∧ generation = s.generation := by
  simp [isCurrent]

theorem fail_of_stale {generation : Nat} {message : String} (h : s.isCurrent generation = false) :
    s.fail generation message = s := by
  simp [fail, h]

theorem fail_of_current {generation : Nat} {message : String} (h : s.isCurrent generation = true) :
    s.fail generation message =
      s.publish { s.snapshot with assembly := none, initialized := true, ready := false, error := some message } := by
  simp [fail, h]

/-- What is coherent whatever the calls of `assemble` under way are. -/
structure Sane (s : AccountSyncLifecycle Account Assembly) : Prop where
  subscribed : s.subscribed = s.started
  resolving : ∀ generation ∈ s.resolving, generation ≤ s.generation
  assembling : ∀ call ∈ s.assembling, call.generation ≤ s.generation
  ready : s.snapshot.ready = s.snapshot.assembly.isSome
  nameless : s.snapshot.clientId = "" → s.snapshot.assembly = none
  built : ∀ built ∈ s.snapshot.assembly, s.activeAccountId = some built.activeAccountId

theorem Rebuilt.coherent {t : AccountSyncLifecycle Account Assembly} {clientId : String} (ht : Rebuilt s clientId t)
    (hclient : clientId ≠ "") (h : s.Sane) : t.Coherent := by
  have hsnapshot : t.snapshot.clientId = clientId := by
    rcases ht.shown with ⟨hshown, -⟩ | ⟨hshown, -, hsame, -⟩
    · rw [hshown]
    · rw [hshown, hsame]
  refine ⟨by rw [ht.subscribed, ht.started, h.subscribed], fun generation hgeneration => ?_, fun call hcall => ?_,
    fun _ call hcall hgeneration => ?_, ?_, fun hnil => absurd (hsnapshot.symm.trans hnil) hclient, fun built hbuilt => ?_⟩
  · rw [ht.resolving] at hgeneration
    have := h.resolving generation hgeneration
    rw [ht.generation]
    omega
  · rw [ht.assembling] at hcall
    rw [ht.generation]
    rcases List.mem_append.1 hcall with hcall | hcall
    · have := h.assembling call hcall
      omega
    · rw [List.mem_singleton.1 hcall]
  · rw [ht.assembling] at hcall
    rw [ht.generation] at hgeneration
    rcases List.mem_append.1 hcall with hcall | hcall
    · have := h.assembling call hcall
      omega
    · obtain rfl := List.mem_singleton.1 hcall
      refine ⟨rfl, ht.account.symm, ht.activeAccountId.trans (congrArg some ht.account.symm), hsnapshot, hclient, fun hmem => ?_⟩
      rw [ht.resolving] at hmem
      have := h.resolving _ hmem
      rw [ht.generation] at this
      omega
  · rcases ht.shown with ⟨hshown, -⟩ | ⟨hshown, -⟩
    · rw [hshown]
      rfl
    · rw [hshown, h.ready]
  · rcases ht.shown with ⟨hshown, -⟩ | ⟨hshown, hsame, -⟩
    · rw [hshown] at hbuilt
      cases hbuilt
    · rw [hshown] at hbuilt
      rw [ht.activeAccountId, ← hsame]
      exact h.built built hbuilt

theorem Coherent.sane (h : s.Coherent) : s.Sane :=
  ⟨h.subscribed, h.resolving, h.assembling, h.ready, h.nameless, h.built⟩

/-- Nothing is under way in a new generation. -/
theorem Sane.coherent (h : s.Sane) (hnone : ∀ call ∈ s.assembling, s.started = true → call.generation ≠ s.generation) :
    s.Coherent :=
  ⟨h.subscribed, h.resolving, h.assembling, fun hstarted call hcall hgeneration =>
    absurd hgeneration (hnone call hcall hstarted), h.ready, h.nameless, h.built⟩

theorem mem_overtake {call : AssembleCall Account} (h : call ∈ s.overtake.assembling) :
    ∃ old ∈ s.assembling, call.generation = old.generation := by
  obtain ⟨old, hold, rfl⟩ := List.mem_map.1 h
  exact ⟨old, hold, rfl⟩

theorem Coherent.overtaken (h : s.Coherent) : s.overtake.Sane :=
  ⟨h.subscribed, h.resolving, fun call hcall => by
    obtain ⟨old, hold, hgeneration⟩ := mem_overtake hcall
    rw [hgeneration]
    exact h.assembling old hold, h.ready, h.nameless, h.built⟩

theorem Coherent.start (h : s.Coherent) : s.start.Coherent := by
  unfold AccountSyncLifecycle.start
  split
  · exact h
  · refine ⟨rfl, fun generation hgeneration => ?_, fun call hcall => ?_, fun _ call hcall hgeneration => ?_, h.ready,
      h.nameless, h.built⟩
    · rcases List.mem_append.1 hgeneration with hgeneration | hgeneration
      · exact (h.resolving generation hgeneration).trans (Nat.le_succ _)
      · exact (List.mem_singleton.1 hgeneration).le
    · exact (h.assembling call hcall).trans (Nat.le_succ _)
    · have := h.assembling call hcall
      simp only at hgeneration
      omega

theorem Sane.clear (h : s.Sane) : s.clear.Coherent := by
  refine ⟨h.subscribed, fun generation hgeneration => (h.resolving generation hgeneration).trans (Nat.le_succ _),
    fun call hcall => (h.assembling call hcall).trans (Nat.le_succ _), fun _ call hcall hgeneration => ?_, rfl,
    fun _ => rfl, fun built hbuilt => by cases hbuilt⟩
  have := h.assembling call hcall
  simp only [AccountSyncLifecycle.clear, publish] at hgeneration
  omega

theorem Sane.dispose (h : s.Sane) : s.dispose.Coherent :=
  ⟨rfl, fun generation hgeneration => (h.resolving generation hgeneration).trans (Nat.le_succ _),
    fun call hcall => (h.assembling call hcall).trans (Nat.le_succ _), fun hstarted => (by cases hstarted), h.ready,
    h.nameless, h.built⟩

/-- A snapshot without an assembly, of the client that is known. -/
theorem Coherent.publish_none (h : s.Coherent) {snapshot : AccountSyncSnapshot Account Assembly}
    (hclient : snapshot.clientId = s.snapshot.clientId) (hassembly : snapshot.assembly = none)
    (hready : snapshot.ready = false) : (s.publish snapshot).Coherent where
  subscribed := h.subscribed
  resolving := h.resolving
  assembling := h.assembling
  current := fun hstarted call hcall hgeneration => by
    obtain ⟨hovertaken, haccount, hactive, hsame, hrest⟩ := h.current hstarted call hcall hgeneration
    exact ⟨hovertaken, haccount, hactive, hclient.trans hsame, hrest⟩
  ready := hready.trans (by rw [publish, hassembly]; rfl)
  nameless := fun _ => hassembly
  built := fun built hbuilt => by simp [publish, hassembly] at hbuilt

theorem Coherent.fail (h : s.Coherent) (generation : Nat) (message : String) : (s.fail generation message).Coherent := by
  cases hcurrent : s.isCurrent generation with
  | false => exact (fail_of_stale hcurrent).symm ▸ h
  | true =>
    rw [fail_of_current hcurrent]
    exact h.publish_none rfl rfl rfl

/-- A call that settled is no longer under way. -/
theorem Coherent.of_sublist (h : s.Coherent) {resolving : List Nat} {assembling : List (AssembleCall Account)}
    {settled : List (AssembleCall Account × Except String (Option Assembly))}
    (hresolving : ∀ generation ∈ resolving, generation ∈ s.resolving)
    (hassembling : ∀ call ∈ assembling, call ∈ s.assembling) :
    Coherent { s with resolving := resolving, assembling := assembling, settled := settled } where
  subscribed := h.subscribed
  resolving := fun generation hgeneration => h.resolving generation (hresolving generation hgeneration)
  assembling := fun call hcall => h.assembling call (hassembling call hcall)
  current := fun hstarted call hcall hgeneration => by
    obtain ⟨hovertaken, haccount, hactive, hsame, hclient, hnone⟩ :=
      h.current hstarted call (hassembling call hcall) hgeneration
    exact ⟨hovertaken, haccount, hactive, hsame, hclient, fun hmem => hnone (hresolving _ hmem)⟩
  ready := h.ready
  nameless := h.nameless
  built := h.built

theorem Coherent.resolved (h : s.Coherent) {generation : Nat}
    (hnone : s.isCurrent generation = true → ∀ call ∈ s.assembling, s.started = true → call.generation ≠ s.generation)
    (result : Except String String) : (s.resolved generation result).Coherent := by
  cases result with
  | error message => exact h.fail generation message
  | ok clientId =>
    simp only [AccountSyncLifecycle.resolved]
    cases hcurrent : s.isCurrent generation with
    | false => exact h
    | true =>
      simp only [Bool.not_true, Bool.false_eq_true, if_false]
      split
      · exact Sane.coherent ⟨h.subscribed, h.resolving, h.assembling, rfl, fun _ => rfl, fun built hbuilt => by cases hbuilt⟩
          (hnone hcurrent)
      · rcases rebuild_cases s clientId with ⟨-, hsame⟩ | ⟨-, hclient, hrebuilt⟩
        · exact hsame.symm ▸ h
        · exact hrebuilt.coherent hclient h.sane

/-- The call is the one that is waited for. -/
structure Due (s : AccountSyncLifecycle Account Assembly) (call : AssembleCall Account) : Prop where
  started : s.started = true
  overtaken : call.overtaken = false
  account : call.activeAccountId = s.account
  activeAccountId : s.activeAccountId = some s.account
  clientId : s.snapshot.clientId = call.clientId
  known : call.clientId ≠ ""

theorem Coherent.due (h : s.Coherent) {call : AssembleCall Account} (hcall : call ∈ s.assembling)
    (hcurrent : s.isCurrent call.generation = true) : s.Due call := by
  obtain ⟨hstarted, hgeneration⟩ := isCurrent_iff.1 hcurrent
  obtain ⟨hovertaken, haccount, hactive, hsame, hclient, -⟩ := h.current hstarted call hcall hgeneration
  exact ⟨hstarted, hovertaken, haccount, hactive, hsame, hclient⟩

/-- How a call that is waited for ends: the snapshot is what it asks to be shown. -/
theorem assembled_of_due (h : s.Coherent) {call : AssembleCall Account} (hdue : s.Due call)
    (hcurrent : s.isCurrent call.generation = true) (result : Except String (Option Assembly)) :
    ∃ published, s.assembled call result = { s with snapshot := shownBy call result, published := published } := by
  cases result with
  | error message =>
    refine ⟨s.published ++ [shownBy call (.error message)], ?_⟩
    simp only [AccountSyncLifecycle.assembled, fail_of_current hcurrent, shownBy, hdue.clientId, publish]
  | ok assembly =>
    simp only [AccountSyncLifecycle.assembled, hcurrent, Bool.not_true, Bool.false_eq_true, if_false]
    split
    · next hsame =>
      refine ⟨s.published, ?_⟩
      obtain ⟨hclient, hassembly, hinitialized, herror⟩ := hsame
      have hbuilt : s.snapshot.assembly = assembly.map (⟨·, call.activeAccountId⟩) := by
        rw [← hassembly]
        cases hshown : s.snapshot.assembly with
        | none => rfl
        | some built =>
          have hactive := h.built built (by rw [hshown]; rfl)
          rw [hdue.activeAccountId, ← hdue.account] at hactive
          simp only [Option.map_some, Option.some.injEq]
          exact congrArg (AccountAssembly.mk built.assembly) (Option.some.inj hactive).symm
      have hready := h.ready
      rw [hbuilt, Option.isSome_map] at hready
      have hshown : s.snapshot = shownBy call (.ok assembly) := by
        rw [shownBy, ← hbuilt, ← hclient, ← hready, ← hinitialized, ← herror]
      rw [← hshown]
    · exact ⟨_, rfl⟩

theorem Coherent.shown (h : s.Coherent) {call : AssembleCall Account} (hdue : s.Due call)
    (result : Except String (Option Assembly)) (published : List (AccountSyncSnapshot Account Assembly)) :
    Coherent { s with snapshot := shownBy call result, published := published } where
  subscribed := h.subscribed
  resolving := h.resolving
  assembling := h.assembling
  current := fun hstarted other hother hgeneration => by
    obtain ⟨hovertaken, haccount, hactive, hsame, hclient, hnone⟩ := h.current hstarted other hother hgeneration
    refine ⟨hovertaken, haccount, hactive, ?_, hclient, hnone⟩
    cases result <;> exact hdue.clientId.symm.trans hsame
  ready := by cases result <;> simp [shownBy]
  nameless := fun hnil => absurd (show call.clientId = "" by cases result <;> exact hnil) hdue.known
  built := fun built hbuilt => by
    cases result with
    | error message => cases hbuilt
    | ok assembly =>
      obtain ⟨value, -, rfl⟩ := Option.map_eq_some_iff.1 hbuilt
      exact hdue.activeAccountId.trans (congrArg some hdue.account.symm)

theorem assembled_of_stale {call : AssembleCall Account} (h : s.isCurrent call.generation = false)
    (result : Except String (Option Assembly)) : s.assembled call result = s := by
  cases result with
  | error message => exact fail_of_stale h
  | ok assembly => simp [AccountSyncLifecycle.assembled, h]

/-- The state in which a call of `resolveClientId` settles, with its place taken from the list. -/
theorem Coherent.settling (h : s.Coherent) {k generation : Nat} (hk : s.resolving[k]? = some generation) :
    (s.takeResolving k).Coherent ∧
      (s.isCurrent generation = true → ∀ call ∈ s.assembling, s.started = true → call.generation ≠ s.generation) := by
  refine ⟨h.of_sublist (fun _ => List.mem_of_mem_eraseIdx) fun _ hcall => hcall, fun hcurrent call hcall hstarted hsame => ?_⟩
  obtain ⟨-, -, -, -, -, hnone⟩ := h.current hstarted call hcall hsame
  exact hnone ((isCurrent_iff.1 hcurrent).2 ▸ List.mem_of_getElem? hk)

theorem Coherent.accountChanges (h : s.Coherent) (account : Account) : (s.next (.accountChanges account)).Coherent := by
  have hsane : (s.announce account).Sane :=
    let h := h.overtaken
    ⟨h.subscribed, h.resolving, h.assembling, h.ready, h.nameless, h.built⟩
  have hidle : s.started = false ∨ s.snapshot.clientId = "" →
      (s.announce account).Coherent := by
    refine fun hidle => hsane.coherent fun call hcall hstarted hsame => ?_
    obtain ⟨old, hold, hgeneration⟩ := mem_overtake hcall
    obtain ⟨-, -, -, hclient, hknown, -⟩ := h.current hstarted old hold (hgeneration.symm.trans hsame)
    rcases hidle with hno | hnil
    · exact absurd hstarted (by rw [show (s.announce account).started = s.started from rfl, hno]; exact Bool.false_ne_true)
    · exact hknown (hclient.symm.trans hnil)
  simp only [next]
  split
  · rcases rebuild_cases (s.announce account) s.snapshot.clientId with
      ⟨hwhy, hsame⟩ | ⟨-, hclient, hrebuilt⟩
    · exact hsame.symm ▸ hidle hwhy
    · exact hrebuilt.coherent hclient hsane
  · next hsubscribed =>
    exact hidle (Or.inl (h.subscribed.symm.trans (Bool.eq_false_iff.2 hsubscribed)))

theorem next_resolved {k generation : Nat} (hk : s.resolving[k]? = some generation) (result : Except String String) :
    s.next (.resolved k result) = (s.takeResolving k).resolved generation result := by
  simp only [next, hk]

theorem next_assembled {k : Nat} {call : AssembleCall Account} (hk : s.assembling[k]? = some call)
    (result : Except String (Option Assembly)) :
    s.next (.assembled k result) = (s.takeAssembling k call result).assembled call result := by
  simp only [next, hk]

theorem Coherent.taken (h : s.Coherent) (k : Nat) (call : AssembleCall Account)
    (result : Except String (Option Assembly)) : (s.takeAssembling k call result).Coherent :=
  h.of_sublist (fun _ hmem => hmem) fun _ => List.mem_of_mem_eraseIdx

theorem Coherent.assembled_due (h : s.Coherent) {k : Nat} {call : AssembleCall Account}
    (hk : s.assembling[k]? = some call) (hcurrent : s.isCurrent call.generation = true)
    (result : Except String (Option Assembly)) :
    ∃ published, (s.takeAssembling k call result).assembled call result =
      { s.takeAssembling k call result with snapshot := shownBy call result, published := published } := by
  have hdue := h.due (List.mem_of_getElem? hk) hcurrent
  exact assembled_of_due (h.taken k call result)
    ⟨hdue.started, hdue.overtaken, hdue.account, hdue.activeAccountId, hdue.clientId, hdue.known⟩ hcurrent result

theorem Coherent.next (h : s.Coherent) (label : AccountSyncLabel Account Assembly) : (s.next label).Coherent := by
  cases label with
  | start => exact h.start
  | clear => exact h.overtaken.clear
  | dispose => exact h.overtaken.dispose
  | accountChanges account => exact h.accountChanges account
  | resolved k result =>
    cases hk : s.resolving[k]? with
    | none => simpa only [AccountSyncLifecycle.next, hk] using h
    | some generation =>
      simp only [AccountSyncLifecycle.next, hk]
      obtain ⟨hcoherent, hnone⟩ := h.settling hk
      exact hcoherent.resolved hnone result
  | assembled k result =>
    cases hk : s.assembling[k]? with
    | none => simpa only [AccountSyncLifecycle.next, hk] using h
    | some call =>
      rw [next_assembled hk]
      cases hcurrent : s.isCurrent call.generation with
      | false =>
        rw [assembled_of_stale (s := s.takeAssembling k call result) hcurrent result]
        exact h.taken k call result
      | true =>
        obtain ⟨published, hshown⟩ := h.assembled_due hk hcurrent result
        rw [hshown]
        have hdue := h.due (List.mem_of_getElem? hk) hcurrent
        exact (h.taken k call result).shown
          ⟨hdue.started, hdue.overtaken, hdue.account, hdue.activeAccountId, hdue.clientId, hdue.known⟩ result published

/-! ## Publications -/

theorem publishesCurrent_of_none {t : AccountSyncLifecycle Account Assembly} (ht : s.next label = t)
    (h : ∃ shown, t.published = s.published ++ shown ∧ ∀ snapshot ∈ shown, snapshot.assembly = none) :
    s.PublishesCurrent label := by
  obtain ⟨shown, hshown, hnone⟩ := h
  refine ⟨shown, by rw [ht, hshown], fun snapshot hsnapshot built hbuilt => ?_⟩
  rw [hnone snapshot hsnapshot] at hbuilt
  cases hbuilt

theorem fail_published (s : AccountSyncLifecycle Account Assembly) (generation : Nat) (message : String) :
    ∃ shown, (s.fail generation message).published = s.published ++ shown ∧
      ∀ snapshot ∈ shown, snapshot.assembly = none := by
  cases hcurrent : s.isCurrent generation with
  | false => exact ⟨[], by rw [fail_of_stale hcurrent, List.append_nil], by simp⟩
  | true => exact ⟨_, by rw [fail_of_current hcurrent, publish], by simp⟩

theorem rebuild_published (s : AccountSyncLifecycle Account Assembly) (clientId : String) :
    ∃ shown, (s.rebuild clientId).published = s.published ++ shown ∧ ∀ snapshot ∈ shown, snapshot.assembly = none := by
  rcases rebuild_cases s clientId with ⟨-, hsame⟩ | ⟨-, -, hrebuilt⟩
  · exact ⟨[], by rw [hsame, List.append_nil], by simp⟩
  · rcases hrebuilt.shown with ⟨hshown, hpublished⟩ | ⟨-, -, -, hpublished⟩
    · exact ⟨_, hpublished, by simp [hshown]⟩
    · exact ⟨[], by rw [hpublished, List.append_nil], by simp⟩

theorem resolved_published (s : AccountSyncLifecycle Account Assembly) (generation : Nat)
    (result : Except String String) :
    ∃ shown, (s.resolved generation result).published = s.published ++ shown ∧
      ∀ snapshot ∈ shown, snapshot.assembly = none := by
  cases result with
  | error message => exact fail_published s generation message
  | ok clientId =>
    simp only [AccountSyncLifecycle.resolved]
    split
    · exact ⟨[], by rw [List.append_nil], by simp⟩
    · split
      · exact ⟨[⟨"", none, true, false, none⟩], rfl, by simp⟩
      · exact rebuild_published s clientId

theorem Coherent.publishesCurrent (h : s.Coherent) (label : AccountSyncLabel Account Assembly) :
    s.PublishesCurrent label := by
  cases label with
  | start =>
    refine publishesCurrent_of_none rfl ⟨[], ?_, by simp⟩
    simp only [AccountSyncLifecycle.next, AccountSyncLifecycle.start]
    split <;> simp
  | clear => exact publishesCurrent_of_none rfl ⟨_, rfl, by simp⟩
  | dispose => exact publishesCurrent_of_none rfl ⟨[], by simp [AccountSyncLifecycle.next, AccountSyncLifecycle.dispose, overtake], by simp⟩
  | accountChanges account =>
    refine publishesCurrent_of_none rfl ?_
    simp only [AccountSyncLifecycle.next]
    split
    · exact rebuild_published _ _
    · exact ⟨[], (List.append_nil _).symm, by simp⟩
  | resolved k result =>
    refine publishesCurrent_of_none rfl ?_
    simp only [AccountSyncLifecycle.next]
    split
    · exact ⟨[], by simp, by simp⟩
    · exact resolved_published _ _ _
  | assembled k result =>
    cases hk : s.assembling[k]? with
    | none =>
      refine publishesCurrent_of_none (t := s) (by simp only [AccountSyncLifecycle.next, hk]) ⟨[], by simp, by simp⟩
    | some call =>
      cases result with
      | error message =>
        exact publishesCurrent_of_none (by simp only [AccountSyncLifecycle.next, hk]; rfl)
          (fail_published (s.takeAssembling k call (.error message)) call.generation message)
      | ok assembly =>
        cases hcurrent : s.isCurrent call.generation with
        | false =>
          refine publishesCurrent_of_none (t := s.takeAssembling k call (.ok assembly)) ?_ ⟨[], (List.append_nil _).symm, by simp⟩
          simp only [AccountSyncLifecycle.next, hk]
          exact assembled_of_stale (s := s.takeAssembling k call (.ok assembly)) hcurrent _
        | true =>
          have hmem := List.mem_of_getElem? hk
          have hdue := h.due hmem hcurrent
          simp only [PublishesCurrent, AccountSyncLifecycle.next, hk, AccountSyncLifecycle.assembled]
          split
          · exact ⟨[], (List.append_nil _).symm, by simp⟩
          · split
            · exact ⟨[], (List.append_nil _).symm, by simp⟩
            · refine ⟨_, rfl, fun snapshot hsnapshot built hbuilt => ⟨hdue.started, call, hmem, k, ?_⟩⟩
              obtain rfl := List.mem_singleton.1 hsnapshot
              obtain ⟨value, rfl, rfl⟩ := Option.map_eq_some_iff.1 hbuilt
              exact ⟨value, rfl, hk, rfl, hdue.overtaken, hdue.account⟩

/-! ## Where a start leads -/

/-- Since its start the lifecycle knows a client id, waits for one, or has shown that there is none. -/
structure Begun (s : AccountSyncLifecycle Account Assembly) : Prop where
  coherent : s.Coherent
  started : s.started = true
  client : s.snapshot.clientId = "" → s.generation ∈ s.resolving ∨ s.snapshot.initialized = true

/-- Since an account was announced the snapshot follows it, or something is under way that will make it. -/
structure Following (s : AccountSyncLifecycle Account Assembly) : Prop where
  coherent : s.Coherent
  started : s.started = true
  known : s.snapshot.clientId ≠ "" → s.generation ∉ s.resolving
  outcome : s.Follows ∨ (s.snapshot.clientId = "" ∧ s.generation ∈ s.resolving) ∨
    ∃ call ∈ s.assembling, call.generation = s.generation

/-- No client id is known, none is waited for, and the snapshot is not initialised. -/
structure Stranded (s : AccountSyncLifecycle Account Assembly) : Prop where
  coherent : s.Coherent
  started : s.started = true
  client : s.snapshot.clientId = ""
  waits : s.generation ∉ s.resolving
  initialized : s.snapshot.initialized = false

theorem isCurrent_of_started (h : s.started = true) {generation : Nat} :
    s.isCurrent generation = true ↔ generation = s.generation := by
  simp [isCurrent, h]

theorem next_accountChanges (h : s.Coherent) (hstarted : s.started = true) (account : Account) :
    s.next (.accountChanges account) = (s.announce account).rebuild s.snapshot.clientId := by
  have hsubscribed : (s.announce account).subscribed = true := h.subscribed.trans hstarted
  simp only [next, hsubscribed, if_true]
  rfl

/-- How `resolveClientId` ends when it is waited for. -/
theorem resolved_of_current {generation : Nat} (hcurrent : s.isCurrent generation = true)
    (result : Except String String) :
    (∃ snapshot, s.resolved generation result = s.publish snapshot ∧ snapshot.initialized = true ∧
        snapshot.assembly = none ∧ (snapshot.clientId = "" ∨ snapshot.clientId = s.snapshot.clientId)) ∨
      ∃ clientId, clientId ≠ "" ∧ Rebuilt s clientId (s.resolved generation result) := by
  cases result with
  | error message =>
    exact Or.inl ⟨_, fail_of_current hcurrent, rfl, rfl, Or.inr rfl⟩
  | ok clientId =>
    simp only [AccountSyncLifecycle.resolved, hcurrent, Bool.not_true, Bool.false_eq_true, if_false]
    split
    · exact Or.inl ⟨_, rfl, rfl, rfl, Or.inl rfl⟩
    · next hclient =>
      rcases rebuild_cases s clientId with ⟨hwhy, -⟩ | ⟨-, hne, hrebuilt⟩
      · have hstarted := (isCurrent_iff.1 hcurrent).1
        exact absurd (hwhy.resolve_left (by simp [hstarted])) (by simpa using hclient)
      · exact Or.inr ⟨clientId, hne, hrebuilt⟩

theorem resolved_of_stale {generation : Nat} (h : s.isCurrent generation = false) (result : Except String String) :
    s.resolved generation result = s := by
  cases result with
  | error message => exact fail_of_stale h
  | ok clientId => simp [AccountSyncLifecycle.resolved, h]

theorem Rebuilt.clientId {t : AccountSyncLifecycle Account Assembly} {clientId : String} (ht : Rebuilt s clientId t) :
    t.snapshot.clientId = clientId := by
  rcases ht.shown with ⟨hshown, -⟩ | ⟨hshown, -, hsame, -⟩
  · rw [hshown]
  · rw [hshown, hsame]

theorem Rebuilt.following {t : AccountSyncLifecycle Account Assembly} {clientId : String} (ht : Rebuilt s clientId t)
    (hstarted : s.started = true) (hcoherent : t.Coherent) : t.Following := by
  have hcall : ⟨s.generation + 1, clientId, s.account, false⟩ ∈ t.assembling := by
    rw [ht.assembling]
    exact List.mem_append_right _ (List.mem_singleton_self _)
  have hgo := ht.started.trans hstarted
  obtain ⟨-, -, -, -, -, hnone⟩ := hcoherent.current hgo _ hcall ht.generation.symm
  exact ⟨hcoherent, hgo, fun _ => hnone, Or.inr (Or.inr ⟨_, hcall, ht.generation.symm⟩)⟩

theorem Begun.start (h : s.Coherent) (hidle : s.started = false) : (s.next .start).Begun := by
  refine ⟨h.next .start, ?_, fun _ => Or.inl ?_⟩
  all_goals simp [AccountSyncLifecycle.next, AccountSyncLifecycle.start, hidle]

theorem Begun.next (h : s.Begun) (hdispose : label ≠ .dispose) (hclear : s.ClearsKnown label) :
    (s.next label).Begun := by
  have hcoherent := h.coherent.next label
  cases label with
  | dispose => exact absurd rfl hdispose
  | start =>
    have hsame : s.next .start = s := by simp [AccountSyncLifecycle.next, AccountSyncLifecycle.start, h.started]
    exact hsame.symm ▸ h
  | clear => exact ⟨hcoherent, h.started, fun hnil => absurd hnil (hclear rfl)⟩
  | accountChanges account =>
    rw [next_accountChanges h.coherent h.started] at hcoherent ⊢
    rcases rebuild_cases (s.announce account) s.snapshot.clientId with ⟨-, hsame⟩ | ⟨-, hclient, hrebuilt⟩
    · rw [hsame] at hcoherent ⊢
      exact ⟨hcoherent, h.started, h.client⟩
    · exact ⟨hcoherent, hrebuilt.started.trans h.started, fun hnil => absurd (hrebuilt.clientId.symm.trans hnil) hclient⟩
  | resolved k result =>
    cases hk : s.resolving[k]? with
    | none => simpa only [AccountSyncLifecycle.next, hk] using h
    | some generation =>
      rw [next_resolved hk] at hcoherent ⊢
      cases hcurrent : (s.takeResolving k).isCurrent generation with
      | false =>
        rw [resolved_of_stale hcurrent] at hcoherent ⊢
        refine ⟨hcoherent, h.started, fun hnil => (h.client hnil).imp (fun hmem => ?_) id⟩
        refine mem_eraseIdx_of_ne hk hmem fun hsame => ?_
        exact absurd ((isCurrent_of_started h.started).2 hsame.symm) (Bool.eq_false_iff.1 hcurrent)
      | true =>
        rcases resolved_of_current hcurrent result with ⟨snapshot, hshown, hinitialized, -⟩ | ⟨clientId, hne, hrebuilt⟩
        · rw [hshown] at hcoherent ⊢
          exact ⟨hcoherent, h.started, fun _ => Or.inr hinitialized⟩
        · exact ⟨hcoherent, hrebuilt.started.trans h.started, fun hnil => absurd (hrebuilt.clientId.symm.trans hnil) hne⟩
  | assembled k result =>
    cases hk : s.assembling[k]? with
    | none => simpa only [AccountSyncLifecycle.next, hk] using h
    | some call =>
      rw [next_assembled hk] at hcoherent ⊢
      cases hcurrent : s.isCurrent call.generation with
      | false =>
        rw [assembled_of_stale (s := s.takeAssembling k call result) hcurrent] at hcoherent ⊢
        exact ⟨hcoherent, h.started, h.client⟩
      | true =>
        have hdue := h.coherent.due (List.mem_of_getElem? hk) hcurrent
        obtain ⟨published, hshown⟩ := h.coherent.assembled_due hk hcurrent result
        rw [hshown] at hcoherent ⊢
        exact ⟨hcoherent, h.started, fun hnil => absurd ((shownBy_clientId call result).symm.trans hnil) hdue.known⟩

theorem Coherent.known_of_call (h : s.Coherent) (hstarted : s.started = true) {call : AssembleCall Account}
    (hcall : call ∈ s.assembling) (hgeneration : call.generation = s.generation) : s.snapshot.clientId ≠ "" := by
  obtain ⟨-, -, -, hsame, hclient, -⟩ := h.current hstarted call hcall hgeneration
  exact fun hnil => hclient (hsame.symm.trans hnil)

/-- The announcement of an account is followed. -/
theorem Begun.accountChanges (h : s.Begun) (account : Account) : (s.next (.accountChanges account)).Following := by
  have hcoherent := h.coherent.next (.accountChanges account)
  rw [next_accountChanges h.coherent h.started] at hcoherent ⊢
  rcases rebuild_cases (s.announce account) s.snapshot.clientId with ⟨hwhy, hsame⟩ | ⟨hstarted, -, hrebuilt⟩
  · have hnil : s.snapshot.clientId = "" := hwhy.resolve_left (by simp [announce, overtake, h.started])
    rw [hsame] at hcoherent ⊢
    refine ⟨hcoherent, h.started, fun hne => absurd hnil hne, ?_⟩
    rcases h.client hnil with hwaits | hinitialized
    · exact Or.inr (Or.inl ⟨hnil, hwaits⟩)
    · exact Or.inl ⟨hinitialized, Or.inl ⟨hnil, h.coherent.nameless hnil⟩⟩
  · exact hrebuilt.following hstarted hcoherent

theorem Following.begun (h : s.Following) : s.Begun := by
  refine ⟨h.coherent, h.started, fun hnil => ?_⟩
  rcases h.outcome with hfollows | ⟨-, hwaits⟩ | ⟨call, hcall, hgeneration⟩
  · exact Or.inr hfollows.initialized
  · exact Or.inl hwaits
  · exact absurd hnil (h.coherent.known_of_call h.started hcall hgeneration)

theorem Following.next (h : s.Following) (hdispose : label ≠ .dispose) (hclear : label ≠ .clear) :
    (s.next label).Following := by
  have hcoherent := h.coherent.next label
  cases label with
  | dispose => exact absurd rfl hdispose
  | clear => exact absurd rfl hclear
  | start =>
    have hsame : s.next .start = s := by simp [AccountSyncLifecycle.next, AccountSyncLifecycle.start, h.started]
    exact hsame.symm ▸ h
  | accountChanges account => exact h.begun.accountChanges account
  | resolved k result =>
    cases hk : s.resolving[k]? with
    | none => simpa only [AccountSyncLifecycle.next, hk] using h
    | some generation =>
      rw [next_resolved hk] at hcoherent ⊢
      cases hcurrent : (s.takeResolving k).isCurrent generation with
      | false =>
        rw [resolved_of_stale hcurrent] at hcoherent ⊢
        refine ⟨hcoherent, h.started, fun hne hmem => h.known hne (List.mem_of_mem_eraseIdx hmem), ?_⟩
        refine h.outcome.imp (fun hfollows => ⟨hfollows.initialized, hfollows.account⟩) (Or.imp_left fun ⟨hnil, hwaits⟩ => ?_)
        refine ⟨hnil, mem_eraseIdx_of_ne hk hwaits fun hsame => ?_⟩
        exact absurd ((isCurrent_of_started h.started).2 hsame.symm) (Bool.eq_false_iff.1 hcurrent)
      | true =>
        -- The client id was waited for: none is known.
        have hwaits : s.generation ∈ s.resolving := (isCurrent_iff.1 hcurrent).2 ▸ List.mem_of_getElem? hk
        have hnil : s.snapshot.clientId = "" := by
          by_contra hne
          exact h.known hne hwaits
        rcases resolved_of_current hcurrent result with
          ⟨snapshot, hshown, hinitialized, hnone, hclient⟩ | ⟨clientId, -, hrebuilt⟩
        · have hnil' : snapshot.clientId = "" := hclient.elim id fun hsame => hsame.trans hnil
          rw [hshown] at hcoherent ⊢
          exact ⟨hcoherent, h.started, fun hne => absurd hnil' hne, Or.inl ⟨hinitialized, Or.inl ⟨hnil', hnone⟩⟩⟩
        · exact hrebuilt.following h.started hcoherent
  | assembled k result =>
    cases hk : s.assembling[k]? with
    | none => simpa only [AccountSyncLifecycle.next, hk] using h
    | some call =>
      rw [next_assembled hk] at hcoherent ⊢
      cases hcurrent : s.isCurrent call.generation with
      | false =>
        rw [assembled_of_stale (s := s.takeAssembling k call result) hcurrent] at hcoherent ⊢
        refine ⟨hcoherent, h.started, h.known, ?_⟩
        rcases h.outcome with hfollows | hwaits | ⟨other, hother, hgeneration⟩
        · refine Or.inl ⟨hfollows.initialized, hfollows.account.imp_right ?_⟩
          rintro ⟨shown, outcome, hmem, hrest⟩
          exact ⟨shown, outcome, List.mem_append_left _ hmem, hrest⟩
        · exact Or.inr (Or.inl hwaits)
        · refine Or.inr (Or.inr ⟨other, mem_eraseIdx_of_ne hk hother fun hsame => ?_, hgeneration⟩)
          exact absurd ((isCurrent_of_started h.started).2 (hsame ▸ hgeneration)) (Bool.eq_false_iff.1 hcurrent)
      | true =>
        have hdue := h.coherent.due (List.mem_of_getElem? hk) hcurrent
        obtain ⟨published, hshown⟩ := h.coherent.assembled_due hk hcurrent result
        have hknown : s.snapshot.clientId ≠ "" := hdue.clientId ▸ hdue.known
        rw [hshown] at hcoherent ⊢
        exact ⟨hcoherent, h.started, fun _ => h.known hknown, Or.inl ⟨shownBy_initialized call result,
          Or.inr ⟨call, result, List.mem_append_right _ (List.mem_singleton_self _), hdue.account, hdue.overtaken, rfl⟩⟩⟩

/-- Who is cleared without a client id is stranded, … -/
theorem Coherent.stranded (h : s.Coherent) (hstarted : s.started = true) (hnil : s.snapshot.clientId = "") :
    (s.next .clear).Stranded := by
  refine ⟨h.next .clear, hstarted, hnil, fun hmem => ?_, rfl⟩
  have := h.resolving _ hmem
  simp only [AccountSyncLifecycle.next, AccountSyncLifecycle.clear, publish, overtake] at this
  omega

/-- … and stays so until it is disposed. -/
theorem Stranded.next (h : s.Stranded) (hdispose : label ≠ .dispose) : (s.next label).Stranded := by
  have hcoherent := h.coherent.next label
  cases label with
  | dispose => exact absurd rfl hdispose
  | start =>
    have hsame : s.next .start = s := by simp [AccountSyncLifecycle.next, AccountSyncLifecycle.start, h.started]
    exact hsame.symm ▸ h
  | clear => exact h.coherent.stranded h.started h.client
  | accountChanges account =>
    rw [next_accountChanges h.coherent h.started] at hcoherent ⊢
    rcases rebuild_cases (s.announce account) s.snapshot.clientId with ⟨-, hsame⟩ | ⟨-, hne, -⟩
    · rw [hsame] at hcoherent ⊢
      exact ⟨hcoherent, h.started, h.client, h.waits, h.initialized⟩
    · exact absurd h.client hne
  | resolved k result =>
    cases hk : s.resolving[k]? with
    | none => simpa only [AccountSyncLifecycle.next, hk] using h
    | some generation =>
      rw [next_resolved hk] at hcoherent ⊢
      have hstale : (s.takeResolving k).isCurrent generation = false := by
        by_contra hcurrent
        rw [Bool.not_eq_false] at hcurrent
        exact h.waits ((isCurrent_iff.1 hcurrent).2 ▸ List.mem_of_getElem? hk)
      rw [resolved_of_stale hstale] at hcoherent ⊢
      exact ⟨hcoherent, h.started, h.client, fun hmem => h.waits (List.mem_of_mem_eraseIdx hmem), h.initialized⟩
  | assembled k result =>
    cases hk : s.assembling[k]? with
    | none => simpa only [AccountSyncLifecycle.next, hk] using h
    | some call =>
      rw [next_assembled hk] at hcoherent ⊢
      have hstale : s.isCurrent call.generation = false := by
        by_contra hcurrent
        rw [Bool.not_eq_false] at hcurrent
        exact h.coherent.known_of_call h.started (List.mem_of_getElem? hk) (isCurrent_iff.1 hcurrent).2 h.client
      rw [assembled_of_stale (s := s.takeAssembling k call result) hstale] at hcoherent ⊢
      exact ⟨hcoherent, h.started, h.client, h.waits, h.initialized⟩

theorem coherent_initial (account : Account) : (initial account : AccountSyncLifecycle Account Assembly).Coherent where
  subscribed := rfl
  resolving := fun _ h => by cases h
  assembling := fun _ h => by cases h
  current := fun h => by cases h
  ready := rfl
  nameless := fun _ => rfl
  built := fun _ h => by cases h

/-- **Every step of every run shows at most the assembly of now.** -/
theorem publishesCurrent_run (h : s.Coherent) (labels : List (AccountSyncLabel Account Assembly)) :
    Along next PublishesCurrent s labels ∧ (s.after labels).Coherent := by
  induction labels generalizing s with
  | nil => exact ⟨trivial, h⟩
  | cons label labels ih =>
    obtain ⟨hrest, hlast⟩ := ih (h.next label)
    exact ⟨⟨h.publishesCurrent label, hrest⟩, hlast⟩

theorem Stranded.run (h : s.Stranded) {labels : List (AccountSyncLabel Account Assembly)}
    (hdispose : ∀ label ∈ labels, label ≠ .dispose) : (s.after labels).Stranded := by
  induction labels generalizing s with
  | nil => exact h
  | cons label labels ih =>
    obtain ⟨hlabel, hrest⟩ := List.forall_mem_cons.1 hdispose
    exact ih (h.next hlabel) hrest

theorem Following.run (h : s.Following) {labels : List (AccountSyncLabel Account Assembly)}
    (hdispose : ∀ label ∈ labels, label ≠ .dispose) (hclear : ∀ label ∈ labels, label ≠ .clear) :
    (s.after labels).Following := by
  induction labels generalizing s with
  | nil => exact h
  | cons label labels ih =>
    obtain ⟨hlabel, hrest⟩ := List.forall_mem_cons.1 hdispose
    obtain ⟨hlabel', hrest'⟩ := List.forall_mem_cons.1 hclear
    exact ih (h.next hlabel hlabel') hrest hrest'

/-- A run from a start either clears with a client id only, or strands. -/
theorem Begun.run (h : s.Begun) {labels : List (AccountSyncLabel Account Assembly)}
    (hdispose : ∀ label ∈ labels, label ≠ .dispose) :
    (Along AccountSyncLifecycle.next ClearsKnown s labels ∧ (s.after labels).Begun) ∨
      (¬ Along AccountSyncLifecycle.next ClearsKnown s labels ∧ (s.after labels).Stranded) := by
  induction labels generalizing s with
  | nil => exact Or.inl ⟨trivial, h⟩
  | cons label labels ih =>
    obtain ⟨hlabel, hrest⟩ := List.forall_mem_cons.1 hdispose
    by_cases hclear : s.ClearsKnown label
    · refine (ih (h.next hlabel hclear) hrest).imp (And.imp_left fun hlater => ⟨hclear, hlater⟩) (And.imp_left fun hlater => ?_)
      exact fun hall => hlater hall.2
    · simp only [ClearsKnown, Classical.not_imp, not_not] at hclear
      obtain ⟨rfl, hnil⟩ := hclear
      exact Or.inr ⟨fun hall => hall.1 rfl hnil, (h.coherent.stranded h.started hnil).run hrest⟩

theorem after_append (s : AccountSyncLifecycle Account Assembly)
    (labels labels' : List (AccountSyncLabel Account Assembly)) :
    s.after (labels ++ labels') = (s.after labels).after labels' := List.foldl_append

/-- **The assembly follows the active account unless the lifecycle is cleared before it knows a client id.** In every
run each step shows at most an assembly that was built for the account of now, since which nothing was announced or
cleared, and none while the lifecycle is not started. After a start and the announcement of an account, which no clear
and no dispose follows, and once everything has settled, the snapshot follows the account if and only if no clear
between the start and the announcement came while no client id was known. -/
theorem account_sync_follows (account : Account) (before : List (AccountSyncLabel Account Assembly)) :
    Along next PublishesCurrent (initial account) before ∧
      ∀ (between following : List (AccountSyncLabel Account Assembly)) (account' : Account),
        let s := (initial account : AccountSyncLifecycle Account Assembly).after before
        s.started = false → (∀ label ∈ between ++ following, label ≠ .dispose) →
        (∀ label ∈ following, label ≠ .clear) →
        let t := s.after (.start :: between ++ .accountChanges account' :: following)
        t.resolving = [] → t.assembling = [] →
        (t.Follows ↔ Along next ClearsKnown (s.next .start) between) := by
  obtain ⟨hshows, hcoherent⟩ := publishesCurrent_run (coherent_initial account) before
  refine ⟨hshows, fun between following account' hidle hdispose hclear hresolving hassembling => ?_⟩
  rw [List.cons_append, after, List.foldl_cons, ← after, after_append] at hresolving hassembling ⊢
  obtain ⟨hbetween, hfollowing⟩ := List.forall_mem_append.1 hdispose
  rcases (Begun.start hcoherent hidle).run hbetween with ⟨hknown, hbegun⟩ | ⟨hunknown, hstranded⟩
  · refine iff_of_true ?_ hknown
    have hlast := (hbegun.accountChanges account').run hfollowing hclear
    rcases hlast.outcome with hfollows | ⟨-, hwaits⟩ | ⟨call, hcall, -⟩
    · exact hfollows
    · exact absurd (hresolving ▸ hwaits) List.not_mem_nil
    · exact absurd (hassembling ▸ hcall) List.not_mem_nil
  · refine iff_of_false (fun hfollows => ?_) hunknown
    have hlast := (hstranded.next (show AccountSyncLabel.accountChanges account' ≠ .dispose by simp)).run hfollowing
    exact Bool.false_ne_true (hlast.initialized.symm.trans hfollows.initialized)

/-- The call for the account before settles late, and shows nothing. -/
theorem account_sync_follows_late :
    ((initial "a" : AccountSyncLifecycle String Nat).after
      [.start, .resolved 0 (.ok "client"), .accountChanges "b", .assembled 1 (.ok (some 2)),
        .assembled 0 (.ok (some 1))]).Follows :=
  ((account_sync_follows "a" []).2 [.resolved 0 (.ok "client")] [.assembled 1 (.ok (some 2)), .assembled 0 (.ok (some 1))]
    "b" rfl (by simp) (by simp) (by decide +kernel) (by decide +kernel)).2 ⟨(by intro h; cases h), trivial⟩

/-- Cleared while the client id is on its way, the lifecycle never initialises. -/
theorem cleared_without_client :
    let t := (initial "a" : AccountSyncLifecycle String Nat).after
      [.start, .clear, .accountChanges "b", .resolved 0 (.ok "client")]
    t.resolving = [] ∧ t.assembling = [] ∧ ¬ t.Follows := by
  refine ⟨by decide +kernel, by decide +kernel, fun h => ?_⟩
  exact absurd h.initialized (by decide +kernel)

end AccountSyncLifecycle

end Bittery
