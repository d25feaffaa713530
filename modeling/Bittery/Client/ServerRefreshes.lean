/-
The refreshes from the server that the vault repository makes for one account
(`refreshFromServer`, `refreshAccountFromServer`, `runHydration`), and which pass a call of
`refreshFromServer` is answered with.

A pass waits behind the hydrations registered before it, is under way from when its operation
starts, and is over when the operation's promise has settled. Only after that does the
`finally` callback delete its entry in `serverRefreshes`, then the promise that the callers
hold settles, and then its follow-up goes on: other code may run before each of the three. Time
is counted in calls and starts, as only these two are compared.
-/
import Bittery.Lib.Runs
import Bittery.Lib.Table

namespace Bittery

open Lib

variable {ω : Type}

/-! ## Passes, follow-ups and calls -/

/-- A pass of `hydrateFromServer`, with when it started and what its operation settled with. -/
inductive ServerPass (ω : Type)
  | registered
  | running (started : Nat)
  | finished (started : Nat) (outcome : ω)
  | released (started : Nat) (outcome : ω)
  | settled (started : Nat) (outcome : ω)
  deriving DecidableEq, Repr

namespace ServerPass

def started? : ServerPass ω → Option Nat
  | .registered => none
  | .running started | .finished started _ | .released started _ | .settled started _ => some started

/-- Its entry in `serverRefreshes` is not deleted yet. -/
def held : ServerPass ω → Bool
  | .registered | .running _ | .finished _ _ => true
  | .released _ _ | .settled _ _ => false

/-- Its operation is not over yet. -/
def inFlight : ServerPass ω → Bool
  | .registered | .running _ => true
  | .finished _ _ | .released _ _ | .settled _ _ => false

end ServerPass

/-- A follow-up: it waits for a pass to settle, then it has the promise of one itself. -/
inductive FollowUp
  | waiting (existing : Nat)
  | joined (refresh : Nat)
  deriving DecidableEq, Repr

/-- A promise that `refreshAccountFromServer` returns. -/
inductive RefreshPromise
  | refresh (p : Nat)
  | followUp (f : Nat)
  deriving DecidableEq, Repr

/-- Where a call of `refreshFromServer` is: it awaits `accountHydrations`, or its refresh, or
it has settled with the outcome of a pass. -/
inductive ServerRefreshAwait (ω : Type)
  | accountHydrations
  | refreshAccount (promise : RefreshPromise)
  | settled (pass : Nat) (outcome : ω)
  deriving DecidableEq, Repr

namespace ServerRefreshAwait

def isSettled : ServerRefreshAwait ω → Bool
  | .settled _ _ => true
  | .accountHydrations | .refreshAccount _ => false

end ServerRefreshAwait

structure ServerRefreshCall (ω : Type) where
  calledAt : Nat
  await : ServerRefreshAwait ω
  deriving DecidableEq, Repr

/-- What the repository holds for the account. `hydrationTails` lists the operations behind the
tail, a pass or the opening of the local cache; `operating` says that the first one has
started. -/
structure ServerRefreshes (ω : Type) where
  clock : Nat
  passes : List (ServerPass ω)
  hydrationTails : List (Option Nat)
  operating : Bool
  serverRefreshes : Option Nat
  queuedServerRefreshes : Option Nat
  followUps : List FollowUp
  calls : List (ServerRefreshCall ω)
  deriving DecidableEq, Repr

namespace ServerRefreshes

def initial : ServerRefreshes ω where
  clock := 0
  passes := []
  hydrationTails := []
  operating := false
  serverRefreshes := none
  queuedServerRefreshes := none
  followUps := []
  calls := []

/-- When the operation of a pass started. -/
def started? (s : ServerRefreshes ω) (p : Nat) : Option Nat := s.passes[p]?.bind ServerPass.started?

/-! ## The functions -/

/-- The registration of a new pass, behind the tail. -/
def startRefresh (s : ServerRefreshes ω) : Nat × ServerRefreshes ω :=
  (s.passes.length, { s with
    passes := s.passes ++ [.registered],
    hydrationTails := s.hydrationTails ++ [some s.passes.length],
    serverRefreshes := some s.passes.length })

/-- `refreshAccountFromServer(account)`, which always has the promise of a pass. -/
def refreshAccountFromServer (s : ServerRefreshes ω) : Nat × ServerRefreshes ω :=
  match s.serverRefreshes with
  | some existing => (existing, s)
  | none => s.startRefresh

/-- `refreshAccountFromServer(account, true)`. -/
def refreshAfterInFlight (s : ServerRefreshes ω) : RefreshPromise × ServerRefreshes ω :=
  match s.serverRefreshes with
  | some existing =>
    match s.queuedServerRefreshes with
    | some queued => (.followUp queued, s)
    | none =>
      (.followUp s.followUps.length, { s with
        followUps := s.followUps ++ [.waiting existing],
        queuedServerRefreshes := some s.followUps.length })
  | none => (.refresh s.startRefresh.1, s.startRefresh.2)

/-- The callback of a follow-up whose pass has settled, with or without an error. -/
def followUp (s : ServerRefreshes ω) (f : Nat) : ServerRefreshes ω :=
  let (refresh, s') := { s with queuedServerRefreshes := none }.refreshAccountFromServer
  { s' with followUps := s'.followUps.set f (.joined refresh) }

/-- The pass and the outcome that a promise has settled with. -/
def settledWith (s : ServerRefreshes ω) : RefreshPromise → Option (Nat × ω)
  | .refresh p =>
    match s.passes[p]? with
    | some (.settled _ outcome) => some (p, outcome)
    | _ => none
  | .followUp f =>
    match s.followUps[f]? with
    | some (.joined p) =>
      match s.passes[p]? with
      | some (.settled _ outcome) => some (p, outcome)
      | _ => none
    | _ => none

end ServerRefreshes

/-! ## Steps -/

inductive ServerRefreshLabel (ω : Type)
  /-- `refreshFromServer` is called, or a caller that may join the pass in flight calls
  `refreshAccountFromServer`, or the local cache is opened. -/
  | call
  | refresh
  | hydrate
  /-- A call goes on after `accountHydrations`. -/
  | resume (c : Nat)
  /-- The first operation of the tail starts, or its promise settles. -/
  | start
  | finish (outcome : ω)
  /-- The `finally` callback of a pass, the settling of its promise, its follow-up. -/
  | release (p : Nat)
  | settle (p : Nat)
  | followUp (f : Nat)
  /-- The promise that a call awaits has settled. -/
  | settleCall (c : Nat)
  deriving DecidableEq, Repr

namespace ServerRefreshLabel

/-- Nobody asks for anything new. -/
def goesOn : ServerRefreshLabel ω → Bool
  | .call | .refresh | .hydrate => false
  | .resume _ | .start | .finish _ | .release _ | .settle _ | .followUp _ | .settleCall _ => true

end ServerRefreshLabel

namespace ServerRefreshes

def step (s : ServerRefreshes ω) : ServerRefreshLabel ω → Option (ServerRefreshes ω)
  | .call => some { s with clock := s.clock + 1, calls := s.calls ++ [⟨s.clock, .accountHydrations⟩] }
  | .refresh => some s.refreshAccountFromServer.2
  | .hydrate => some { s with hydrationTails := s.hydrationTails ++ [none] }
  | .resume c =>
    match s.calls[c]? with
    | some ⟨calledAt, .accountHydrations⟩ =>
      let (promise, s') := s.refreshAfterInFlight
      some { s' with calls := s'.calls.set c ⟨calledAt, .refreshAccount promise⟩ }
    | _ => none
  | .start =>
    match s.operating, s.hydrationTails with
    | false, some p :: _ =>
      some { s with clock := s.clock + 1, operating := true, passes := s.passes.set p (.running s.clock) }
    | false, none :: _ => some { s with operating := true }
    | _, _ => none
  | .finish outcome =>
    match s.operating, s.hydrationTails with
    | true, some p :: tails =>
      match s.passes[p]? with
      | some (.running started) =>
        some { s with
          operating := false, hydrationTails := tails, passes := s.passes.set p (.finished started outcome) }
      | _ => none
    | true, none :: tails => some { s with operating := false, hydrationTails := tails }
    | _, _ => none
  | .release p =>
    match s.passes[p]? with
    | some (.finished started outcome) =>
      some { s with serverRefreshes := none, passes := s.passes.set p (.released started outcome) }
    | _ => none
  | .settle p =>
    match s.passes[p]? with
    | some (.released started outcome) => some { s with passes := s.passes.set p (.settled started outcome) }
    | _ => none
  | .followUp f =>
    match s.followUps[f]? with
    | some (.waiting p) =>
      match s.passes[p]? with
      | some (.settled _ _) => some (s.followUp f)
      | _ => none
    | _ => none
  | .settleCall c =>
    match s.calls[c]? with
    | some ⟨calledAt, .refreshAccount promise⟩ =>
      (s.settledWith promise).map fun (p, outcome) =>
        { s with calls := s.calls.set c ⟨calledAt, .settled p outcome⟩ }
    | _ => none

/-- The calls of `refreshFromServer` and the passes of one account, in any order. -/
def system (ω : Type) : System (ServerRefreshes ω) (ServerRefreshLabel ω) where
  init s := s = initial
  step := step

/-- A call that finds a follow-up queued for another pass than the one in flight finds one in
flight that has not started before the call. -/
def QueuesFresh (s : ServerRefreshes ω) : ServerRefreshLabel ω → Prop
  | .resume c => ∀ call ∈ s.calls[c]?, ∀ p ∈ s.serverRefreshes, ∀ f ∈ s.queuedServerRefreshes,
      s.followUps[f]? ≠ some (.waiting p) → ∀ started ∈ s.started? p, call.calledAt < started
  | _ => True

instance (s : ServerRefreshes ω) : (a : ServerRefreshLabel ω) → Decidable (s.QueuesFresh a)
  | .resume c => inferInstanceAs (Decidable (∀ call ∈ s.calls[c]?, ∀ p ∈ s.serverRefreshes,
      ∀ f ∈ s.queuedServerRefreshes, s.followUps[f]? ≠ some (.waiting p) →
      ∀ started ∈ s.started? p, call.calledAt < started))
  | .call | .refresh | .hydrate | .start | .finish _ | .release _ | .settle _ | .followUp _ | .settleCall _ =>
    .isTrue trivial

/-! ## What a step can do -/

variable {s s' : ServerRefreshes ω} {a : ServerRefreshLabel ω}

theorem refreshAccountFromServer_cases (s : ServerRefreshes ω) :
    (∃ p, s.serverRefreshes = some p ∧ s.refreshAccountFromServer = (p, s)) ∨
    (s.serverRefreshes = none ∧ s.refreshAccountFromServer = s.startRefresh) := by
  unfold refreshAccountFromServer
  split
  · next p hp => exact .inl ⟨p, hp, rfl⟩
  · next hnone => exact .inr ⟨hnone, rfl⟩

/-- The steps, one constructor for each thing that can happen. -/
inductive Moves (s : ServerRefreshes ω) : ServerRefreshLabel ω → ServerRefreshes ω → Prop
  | call : Moves s .call
      { s with clock := s.clock + 1, calls := s.calls ++ [⟨s.clock, .accountHydrations⟩] }
  | refresh : Moves s .refresh s.refreshAccountFromServer.2
  | hydrate : Moves s .hydrate { s with hydrationTails := s.hydrationTails ++ [none] }
  /-- A call joins the follow-up that is queued, queues one, or starts a pass. -/
  | resumeQueued {c k p f : Nat} : s.calls[c]? = some ⟨k, .accountHydrations⟩ → s.serverRefreshes = some p →
      s.queuedServerRefreshes = some f →
      Moves s (.resume c) { s with calls := s.calls.set c ⟨k, .refreshAccount (.followUp f)⟩ }
  | resumeQueues {c k p : Nat} : s.calls[c]? = some ⟨k, .accountHydrations⟩ → s.serverRefreshes = some p →
      s.queuedServerRefreshes = none →
      Moves s (.resume c) { s with
        followUps := s.followUps ++ [.waiting p],
        queuedServerRefreshes := some s.followUps.length,
        calls := s.calls.set c ⟨k, .refreshAccount (.followUp s.followUps.length)⟩ }
  | resumeStarts {c k : Nat} : s.calls[c]? = some ⟨k, .accountHydrations⟩ → s.serverRefreshes = none →
      Moves s (.resume c)
        { s.startRefresh.2 with calls := s.calls.set c ⟨k, .refreshAccount (.refresh s.passes.length)⟩ }
  | startPass {p : Nat} {tails : List (Option Nat)} : s.operating = false → s.hydrationTails = some p :: tails →
      Moves s .start
        { s with clock := s.clock + 1, operating := true, passes := s.passes.set p (.running s.clock) }
  | startLocal {tails : List (Option Nat)} : s.operating = false → s.hydrationTails = none :: tails →
      Moves s .start { s with operating := true }
  | finishPass {p started : Nat} {outcome : ω} {tails : List (Option Nat)} : s.operating = true →
      s.hydrationTails = some p :: tails → s.passes[p]? = some (.running started) →
      Moves s (.finish outcome) { s with
        operating := false, hydrationTails := tails, passes := s.passes.set p (.finished started outcome) }
  | finishLocal {outcome : ω} {tails : List (Option Nat)} : s.operating = true → s.hydrationTails = none :: tails →
      Moves s (.finish outcome) { s with operating := false, hydrationTails := tails }
  | release {p started : Nat} {outcome : ω} : s.passes[p]? = some (.finished started outcome) →
      Moves s (.release p) { s with serverRefreshes := none, passes := s.passes.set p (.released started outcome) }
  | settle {p started : Nat} {outcome : ω} : s.passes[p]? = some (.released started outcome) →
      Moves s (.settle p) { s with passes := s.passes.set p (.settled started outcome) }
  | followUp {f p started : Nat} {outcome : ω} : s.followUps[f]? = some (.waiting p) →
      s.passes[p]? = some (.settled started outcome) → Moves s (.followUp f) (s.followUp f)
  | settleCall {c k p : Nat} {promise : RefreshPromise} {outcome : ω} :
      s.calls[c]? = some ⟨k, .refreshAccount promise⟩ → s.settledWith promise = some (p, outcome) →
      Moves s (.settleCall c) { s with calls := s.calls.set c ⟨k, .settled p outcome⟩ }

theorem moves_of_step (h : s.step a = some s') : Moves s a s' := by
  cases a with
  | call | refresh | hydrate =>
    simp only [step, Option.some.injEq] at h
    subst h
    constructor
  | resume c =>
    simp only [step, refreshAfterInFlight] at h
    split at h
    · next k hc =>
      obtain rfl := Option.some.inj h
      split
      · next p hp =>
        split
        · next f hf => exact .resumeQueued hc hp hf
        · next hnone => exact .resumeQueues hc hp hnone
      · next hnone => exact .resumeStarts hc hnone
    · cases h
  | start =>
    simp only [step] at h
    split at h
    · next p tails hidle htails => exact Option.some.inj h ▸ .startPass hidle htails
    · next tails hidle htails => exact Option.some.inj h ▸ .startLocal hidle htails
    · cases h
  | finish outcome =>
    simp only [step] at h
    split at h
    · next p tails hoperating htails =>
      split at h
      · next started hp => exact Option.some.inj h ▸ .finishPass hoperating htails hp
      · cases h
    · next tails hoperating htails => exact Option.some.inj h ▸ .finishLocal hoperating htails
    · cases h
  | release p =>
    simp only [step] at h
    split at h
    · next started outcome hp => exact Option.some.inj h ▸ .release hp
    · cases h
  | settle p =>
    simp only [step] at h
    split at h
    · next started outcome hp => exact Option.some.inj h ▸ .settle hp
    · cases h
  | followUp f =>
    simp only [step] at h
    split at h
    · next p hf =>
      split at h
      · next started outcome hp => exact Option.some.inj h ▸ .followUp hf hp
      · cases h
    · cases h
  | settleCall c =>
    simp only [step] at h
    split at h
    · next k promise hc =>
      obtain ⟨⟨p, outcome⟩, hsettled, rfl⟩ := Option.map_eq_some_iff.mp h
      exact .settleCall hc hsettled
    · cases h

/-! ## The passes are in line -/

/-- The pass that has an entry is the one that is not released, the tail holds each pass whose
operation is not over, once, and the operation that has started is its first. -/
structure InLine (s : ServerRefreshes ω) : Prop where
  entry : ∀ p, s.serverRefreshes = some p ↔ ∃ x, s.passes[p]? = some x ∧ x.held = true
  behind : ∀ p, some p ∈ s.hydrationTails ↔ ∃ x, s.passes[p]? = some x ∧ x.inFlight = true
  once : s.hydrationTails.countP (fun o => o.isSome) ≤ 1
  operating : s.operating = true → s.hydrationTails ≠ []
  running : ∀ p started, s.passes[p]? = some (.running started) →
    s.operating = true ∧ ∃ tails, s.hydrationTails = some p :: tails
  first : ∀ p tails, s.operating = true → s.hydrationTails = some p :: tails →
    ∃ started, s.passes[p]? = some (.running started)

theorem ServerPass.held_of_inFlight {x : ServerPass ω} (h : x.inFlight = true) : x.held = true := by
  cases x with
  | registered | running | finished => rfl
  | released | settled => cases h

theorem inLine_initial : (initial : ServerRefreshes ω).InLine where
  entry p := by simp [initial]
  behind p := by simp [initial]
  once := by simp [initial]
  operating h := by cases h
  running p started h := by simp [initial] at h
  first p tails h := by cases h

theorem InLine.entry_lt (h : s.InLine) {p : Nat} (hp : s.serverRefreshes = some p) : p < s.passes.length := by
  obtain ⟨x, hx, -⟩ := (h.entry p).mp hp
  exact (List.getElem?_eq_some_iff.mp hx).1

/-- Without an entry every pass is released. -/
theorem InLine.released (h : s.InLine) (hnone : s.serverRefreshes = none) {p : Nat} {x : ServerPass ω}
    (hp : s.passes[p]? = some x) : x.held = false := by
  cases hx : x.held with
  | false => rfl
  | true =>
    have := (h.entry p).mpr ⟨x, hp, hx⟩
    rw [hnone] at this
    cases this

/-- A pass waits behind local openings only. -/
theorem InLine.startRefresh (h : s.InLine) (hnone : s.serverRefreshes = none) : s.startRefresh.2.InLine := by
  have hnew : ∀ (p : Nat) (x : ServerPass ω), (s.passes ++ [.registered])[p]? = some x →
      s.passes[p]? = some x ∨ (p = s.passes.length ∧ x = .registered) := by
    intro p x hp
    rcases Nat.lt_or_ge p s.passes.length with hlt | hge
    · exact .inl (by rwa [List.getElem?_append_left hlt] at hp)
    · rw [List.getElem?_append_right hge] at hp
      obtain ⟨hlt, rfl⟩ := List.getElem?_eq_some_iff.mp hp
      rw [List.length_singleton] at hlt
      exact .inr ⟨by omega, by simp⟩
  have hlast : (s.passes ++ [.registered])[s.passes.length]? = some .registered := by simp
  have hnobody : ∀ p, some p ∉ s.hydrationTails := by
    intro p hp
    obtain ⟨x, hx, hflight⟩ := (h.behind p).mp hp
    have := h.released hnone hx
    rw [ServerPass.held_of_inFlight hflight] at this
    cases this
  refine ⟨fun p => ⟨?_, ?_⟩, fun p => ⟨?_, ?_⟩, ?_, ?_, ?_, ?_⟩
  · intro hp
    obtain rfl := Option.some.inj hp
    exact ⟨_, hlast, rfl⟩
  · rintro ⟨x, hx, hheld⟩
    rcases hnew p x hx with hx | ⟨rfl, -⟩
    · rw [h.released hnone hx] at hheld
      cases hheld
    · rfl
  · intro hp
    rcases List.mem_append.mp hp with hp | hp
    · exact absurd hp (hnobody p)
    · obtain rfl := Option.some.inj (List.mem_singleton.mp hp)
      exact ⟨_, hlast, rfl⟩
  · rintro ⟨x, hx, hflight⟩
    rcases hnew p x hx with hx | ⟨rfl, -⟩
    · exact List.mem_append_left _ ((h.behind p).mpr ⟨x, hx, hflight⟩)
    · exact List.mem_append_right _ (List.mem_singleton_self _)
  · have : s.hydrationTails.countP (fun o => o.isSome) = 0 := by
      rw [List.countP_eq_zero]
      intro o ho hsome
      obtain ⟨p, rfl⟩ := Option.isSome_iff_exists.mp hsome
      exact hnobody p ho
    simp [ServerRefreshes.startRefresh, this]
  · intro _
    simp [ServerRefreshes.startRefresh]
  · intro p started hp
    rcases hnew p _ hp with hp | ⟨-, hp⟩
    · cases h.released hnone hp
    · cases hp
  · intro p tails hoperating htails
    cases hold : s.hydrationTails with
    | nil => exact absurd hold (h.operating hoperating)
    | cons o rest =>
      simp only [ServerRefreshes.startRefresh, hold, List.cons_append, List.cons.injEq] at htails
      exact absurd (htails.1 ▸ hold ▸ List.mem_cons_self ..) (hnobody p)

theorem InLine.refreshAccountFromServer (h : s.InLine) : s.refreshAccountFromServer.2.InLine := by
  rcases refreshAccountFromServer_cases s with ⟨p, -, heq⟩ | ⟨hnone, heq⟩
  · rwa [heq]
  · rw [heq]
    exact h.startRefresh hnone

/-- The pass at the head of the tail is the only one there. -/
theorem InLine.notMem_rest (h : s.InLine) {p : Nat} {tails : List (Option Nat)}
    (htails : s.hydrationTails = some p :: tails) (q : Nat) : some q ∉ tails := by
  have honce := h.once
  simp only [htails, List.countP_cons, Option.isSome_some, if_true] at honce
  intro hq
  have : 0 < tails.countP (fun o => o.isSome) := List.countP_pos_iff.mpr ⟨some q, hq, rfl⟩
  omega

/-- A pass whose operation is over goes on from `x` to `y`. -/
theorem InLine.goesOn (h : s.InLine) {p : Nat} {x y : ServerPass ω} (hx : s.passes[p]? = some x)
    (hxover : x.inFlight = false) (hyover : y.inFlight = false) {refreshes : Option Nat}
    (hentry : ∀ q, refreshes = some q ↔ if q = p then y.held = true else s.serverRefreshes = some q) :
    ({ s with passes := s.passes.set p y, serverRefreshes := refreshes } : ServerRefreshes ω).InLine := by
  have hlt := (List.getElem?_eq_some_iff.mp hx).1
  have hself : (s.passes.set p y)[p]? = some y := List.getElem?_set_self hlt
  refine ⟨fun q => ?_, fun q => ?_, h.once, h.operating, fun q started hq => ?_, fun q tails hoperating htails => ?_⟩
  · rw [hentry q]
    by_cases hq : q = p
    · subst hq
      simp [hself]
    · simp only [hq, if_false, List.getElem?_set_ne (Ne.symm hq)]
      exact h.entry q
  · by_cases hq : q = p
    · subst hq
      rw [h.behind q]
      simp [hself, hx, hxover, hyover]
    · simp only [List.getElem?_set_ne (Ne.symm hq)]
      exact h.behind q
  · by_cases hqp : q = p
    · subst hqp
      obtain rfl := Option.some.inj (hself.symm.trans hq)
      cases hyover
    · exact h.running q started (by rwa [List.getElem?_set_ne (Ne.symm hqp)] at hq)
  · obtain ⟨started, hq⟩ := h.first q tails hoperating htails
    have hqp : p ≠ q := by
      rintro rfl
      obtain rfl := Option.some.inj (hx.symm.trans hq)
      cases hxover
    exact ⟨started, by rwa [List.getElem?_set_ne hqp]⟩

/-- The first pass of the tail starts. -/
theorem InLine.startPass (h : s.InLine) {p : Nat} {tails : List (Option Nat)} (hidle : s.operating = false)
    (htails : s.hydrationTails = some p :: tails) :
    ({ s with clock := s.clock + 1, operating := true,
              passes := s.passes.set p (.running s.clock) } : ServerRefreshes ω).InLine := by
  obtain ⟨x, hx, hflight⟩ := (h.behind p).mp (htails ▸ List.mem_cons_self ..)
  have hself : (s.passes.set p (.running s.clock))[p]? = some (.running s.clock) :=
    List.getElem?_set_self (List.getElem?_eq_some_iff.mp hx).1
  refine ⟨fun q => ?_, fun q => ?_, h.once, fun _ => by simp [htails], fun q started hq => ⟨rfl, ?_⟩,
    fun q rest _ hrest => ?_⟩
  · by_cases hq : q = p
    · subst hq
      exact ⟨fun _ => ⟨_, hself, rfl⟩, fun _ => (h.entry q).mpr ⟨x, hx, ServerPass.held_of_inFlight hflight⟩⟩
    · simp only [List.getElem?_set_ne (Ne.symm hq)]
      exact h.entry q
  · by_cases hq : q = p
    · subst hq
      simp [htails, hself, ServerPass.inFlight]
    · simp only [List.getElem?_set_ne (Ne.symm hq)]
      exact h.behind q
  · by_cases hqp : q = p
    · exact ⟨tails, hqp ▸ htails⟩
    · rw [List.getElem?_set_ne (Ne.symm hqp)] at hq
      have := (h.running q started hq).1
      rw [hidle] at this
      cases this
  · obtain ⟨rfl, -⟩ : p = q ∧ tails = rest := by simpa [htails] using hrest
    exact ⟨s.clock, hself⟩

/-- The pass that is under way is over. -/
theorem InLine.finishPass (h : s.InLine) {p started : Nat} {outcome : ω} {tails : List (Option Nat)}
    (htails : s.hydrationTails = some p :: tails) (hp : s.passes[p]? = some (.running started)) :
    ({ s with operating := false, hydrationTails := tails,
              passes := s.passes.set p (.finished started outcome) } : ServerRefreshes ω).InLine := by
  have hself : (s.passes.set p (.finished started outcome))[p]? = some (.finished started outcome) :=
    List.getElem?_set_self (List.getElem?_eq_some_iff.mp hp).1
  refine ⟨fun q => ?_, fun q => ?_, ?_, fun h => (by cases h), fun q started' hq => ?_, fun _ _ h => (by cases h)⟩
  · by_cases hq : q = p
    · subst hq
      simp [h.entry q, hself, hp, ServerPass.held]
    · simp only [List.getElem?_set_ne (Ne.symm hq)]
      exact h.entry q
  · by_cases hq : q = p
    · subst hq
      simp [h.notMem_rest htails q, hself, ServerPass.inFlight]
    · simp only [List.getElem?_set_ne (Ne.symm hq)]
      rw [← h.behind q, htails, List.mem_cons]
      simp [hq]
  · have honce := h.once
    rw [htails, List.countP_cons] at honce
    exact Nat.le_trans (Nat.le_add_right _ _) honce
  · by_cases hqp : q = p
    · subst hqp
      cases hself.symm.trans hq
    · -- only the first pass has started
      rw [List.getElem?_set_ne (Ne.symm hqp)] at hq
      obtain ⟨-, rest, hrest⟩ := h.running q started' hq
      exact absurd (by simpa [htails] using hrest : p = q ∧ tails = rest).1 (Ne.symm hqp)

theorem InLine.moves (h : s.InLine) (hmoves : Moves s a s') : s'.InLine := by
  cases hmoves with
  | call => exact ⟨h.entry, h.behind, h.once, h.operating, h.running, h.first⟩
  | refresh => exact h.refreshAccountFromServer
  | hydrate =>
    refine ⟨h.entry, fun p => ?_, by simpa using h.once, fun _ => by simp, fun p started hp => ?_,
      fun p tails hoperating htails => ?_⟩
    · simp only [List.mem_append, List.mem_singleton, reduceCtorEq, or_false]
      exact h.behind p
    · obtain ⟨hoperating, tails, htails⟩ := h.running p started hp
      exact ⟨hoperating, tails ++ [none], by simp [htails]⟩
    · cases hold : s.hydrationTails with
      | nil => exact absurd hold (h.operating hoperating)
      | cons o rest =>
        simp only [hold, List.cons_append, List.cons.injEq] at htails
        exact h.first p rest hoperating (by rw [hold, htails.1])
  | resumeQueued _ _ _ | resumeQueues _ _ _ =>
    exact ⟨h.entry, h.behind, h.once, h.operating, h.running, h.first⟩
  | resumeStarts _ hnone =>
    have hnew := h.startRefresh hnone
    exact ⟨hnew.entry, hnew.behind, hnew.once, hnew.operating, hnew.running, hnew.first⟩
  | startPass hidle htails => exact h.startPass hidle htails
  | startLocal hidle htails =>
    refine ⟨h.entry, h.behind, h.once, fun _ => by simp [htails], fun p started hp => ⟨rfl, ?_⟩, fun p rest _ hrest => ?_⟩
    · exact (h.running p started hp).2
    · simp [htails] at hrest
  | finishPass _ htails hp => exact h.finishPass htails hp
  | finishLocal _ htails =>
    refine ⟨h.entry, fun p => ?_, by simpa [htails] using h.once, fun h => (by cases h), fun p started hp => ?_,
      fun _ _ h => (by cases h)⟩
    · rw [← h.behind p, htails]
      simp
    · obtain ⟨-, rest, hrest⟩ := h.running p started hp
      simp [htails] at hrest
  | @release p started outcome hp =>
    have hentry := (h.entry p).mpr ⟨_, hp, rfl⟩
    refine h.goesOn hp rfl rfl fun q => ?_
    by_cases hq : q = p
    · simp [hq, ServerPass.held]
    · simp [hq, hentry, Ne.symm hq]
  | @settle p started outcome hp =>
    refine h.goesOn hp rfl rfl fun q => ?_
    by_cases hq : q = p
    · subst hq
      simp [h.entry q, hp, ServerPass.held]
    · simp [hq]
  | followUp _ _ =>
    have hcleared : ({ s with queuedServerRefreshes := none } : ServerRefreshes ω).InLine :=
      ⟨h.entry, h.behind, h.once, h.operating, h.running, h.first⟩
    have hnew := hcleared.refreshAccountFromServer
    exact ⟨hnew.entry, hnew.behind, hnew.once, hnew.operating, hnew.running, hnew.first⟩
  | settleCall _ _ => exact ⟨h.entry, h.behind, h.once, h.operating, h.running, h.first⟩

/-! ## The follow-up that waits is the one queued -/

end ServerRefreshes

/-- The pass that a follow-up waits for, or has joined. -/
def FollowUp.pass : FollowUp → Nat
  | .waiting p | .joined p => p

namespace ServerRefreshes

variable {s s' : ServerRefreshes ω} {a : ServerRefreshLabel ω}

/-- The promise is one that was returned. -/
def Returned (s : ServerRefreshes ω) : RefreshPromise → Prop
  | .refresh p => p < s.passes.length
  | .followUp f => f < s.followUps.length

structure Linked (s : ServerRefreshes ω) : Prop where
  queued : ∀ f, s.queuedServerRefreshes = some f ↔ ∃ p, s.followUps[f]? = some (.waiting p)
  passes : ∀ u ∈ s.followUps, u.pass < s.passes.length
  returned : ∀ call ∈ s.calls, ∀ promise, call.await = .refreshAccount promise → s.Returned promise

theorem linked_initial : (initial : ServerRefreshes ω).Linked where
  queued f := by simp [initial]
  passes u hu := by cases hu
  returned call hcall := by cases hcall

theorem Returned.mono {promise : RefreshPromise} (h : s.Returned promise)
    (hpasses : s.passes.length ≤ s'.passes.length) (hfollowUps : s.followUps.length ≤ s'.followUps.length) :
    s'.Returned promise := by
  cases promise with
  | refresh p => exact Nat.lt_of_lt_of_le h hpasses
  | followUp f => exact Nat.lt_of_lt_of_le h hfollowUps

/-- The follow-ups stay as they are. -/
theorem Linked.same (h : s.Linked) (hqueued : s'.queuedServerRefreshes = s.queuedServerRefreshes)
    (hfollowUps : s'.followUps = s.followUps) (hpasses : s.passes.length ≤ s'.passes.length)
    (hcalls : ∀ call ∈ s'.calls, call ∈ s.calls ∨
      ∀ promise, call.await = .refreshAccount promise → s'.Returned promise) : s'.Linked where
  queued f := by rw [hqueued, hfollowUps]; exact h.queued f
  passes u hu := Nat.lt_of_lt_of_le (h.passes u (hfollowUps ▸ hu)) hpasses
  returned call hcall promise hawait := by
    rcases hcalls call hcall with hold | hnew
    · exact (h.returned call hold promise hawait).mono hpasses (Nat.le_of_eq (by rw [hfollowUps]))
    · exact hnew promise hawait

theorem length_le_refreshAccountFromServer (s : ServerRefreshes ω) :
    s.passes.length ≤ s.refreshAccountFromServer.2.passes.length := by
  rcases refreshAccountFromServer_cases s with ⟨p, -, heq⟩ | ⟨-, heq⟩
  · rw [heq]
  · simp [heq, startRefresh]

theorem refreshAccountFromServer_frame (s : ServerRefreshes ω) :
    s.refreshAccountFromServer.2.followUps = s.followUps ∧ s.refreshAccountFromServer.2.calls = s.calls ∧
    s.refreshAccountFromServer.2.queuedServerRefreshes = s.queuedServerRefreshes ∧
    s.refreshAccountFromServer.2.clock = s.clock := by
  rcases refreshAccountFromServer_cases s with ⟨p, -, heq⟩ | ⟨-, heq⟩
  · simp [heq]
  · simp [heq, startRefresh]

theorem InLine.refresh_lt (h : s.InLine) : s.refreshAccountFromServer.1 < s.refreshAccountFromServer.2.passes.length := by
  rcases refreshAccountFromServer_cases s with ⟨p, hp, heq⟩ | ⟨-, heq⟩
  · rw [heq]
    exact h.entry_lt hp
  · simp [heq, ServerRefreshes.startRefresh]

/-- A call goes on. -/
theorem mem_set_call {c : Nat} {call call' : ServerRefreshCall ω} (h : call ∈ s.calls.set c call') :
    call ∈ s.calls ∨ call = call' := List.mem_or_eq_of_mem_set h

theorem Linked.followUp (h : s.Linked) (hline : s.InLine) {f p : Nat} (hf : s.followUps[f]? = some (.waiting p)) :
    (s.followUp f).Linked := by
  have hlt := (List.getElem?_eq_some_iff.mp hf).1
  have hcleared : ({ s with queuedServerRefreshes := none } : ServerRefreshes ω).InLine :=
    ⟨hline.entry, hline.behind, hline.once, hline.operating, hline.running, hline.first⟩
  obtain ⟨hfollowUps, hcalls, hqueued, -⟩ :=
    refreshAccountFromServer_frame ({ s with queuedServerRefreshes := none } : ServerRefreshes ω)
  have hmono := length_le_refreshAccountFromServer ({ s with queuedServerRefreshes := none } : ServerRefreshes ω)
  refine ⟨fun g => ?_, fun u hu => ?_, fun call hcall promise hawait => ?_⟩
  · -- the follow-up that went on was the only one that waited
    simp only [ServerRefreshes.followUp, hqueued, hfollowUps, reduceCtorEq, false_iff, not_exists]
    intro q hg
    by_cases hgf : f = g
    · subst hgf
      rw [List.getElem?_set_self hlt] at hg
      cases hg
    · rw [List.getElem?_set_ne hgf] at hg
      have hqueuedf := (h.queued f).mpr ⟨p, hf⟩
      rw [(h.queued g).mpr ⟨q, hg⟩] at hqueuedf
      exact hgf (Option.some.inj hqueuedf).symm
  · simp only [ServerRefreshes.followUp, hfollowUps] at hu
    rcases List.mem_or_eq_of_mem_set hu with hu | rfl
    · exact Nat.lt_of_lt_of_le (h.passes u hu) hmono
    · exact hcleared.refresh_lt
  · simp only [ServerRefreshes.followUp, hcalls] at hcall
    exact (h.returned call hcall promise hawait).mono hmono (by simp [ServerRefreshes.followUp, hfollowUps])

theorem Linked.moves (h : s.Linked) (hline : s.InLine) (hmoves : Moves s a s') : s'.Linked := by
  cases hmoves with
  | call =>
    refine h.same rfl rfl (Nat.le_refl _) fun call hcall => ?_
    rcases List.mem_append.mp hcall with hold | hnew
    · exact .inl hold
    · obtain rfl := List.mem_singleton.mp hnew
      exact .inr fun promise hawait => by cases hawait
  | refresh =>
    obtain ⟨hfollowUps, hcalls, hqueued, -⟩ := refreshAccountFromServer_frame s
    exact h.same hqueued hfollowUps (length_le_refreshAccountFromServer s) fun call hcall => .inl (hcalls ▸ hcall)
  | hydrate | startLocal | finishLocal => exact h.same rfl rfl (Nat.le_refl _) fun call hcall => .inl hcall
  | startPass | finishPass | release | settle =>
    exact h.same rfl rfl (by simp) fun call hcall => .inl hcall
  | resumeQueued _ _ hqueued =>
    refine h.same rfl rfl (Nat.le_refl _) fun call hcall => ?_
    rcases mem_set_call hcall with hold | rfl
    · exact .inl hold
    · obtain ⟨p, hf⟩ := (h.queued _).mp hqueued
      refine .inr fun promise hawait => ?_
      cases hawait
      exact (List.getElem?_eq_some_iff.mp hf).1
  | @resumeQueues c k p _ hp hnone =>
    have hnew : ∀ (f : Nat) (u : FollowUp), (s.followUps ++ [.waiting p])[f]? = some u →
        s.followUps[f]? = some u ∨ f = s.followUps.length := by
      intro f u hf
      rcases Nat.lt_or_ge f s.followUps.length with hlt | hge
      · exact .inl (by rwa [List.getElem?_append_left hlt] at hf)
      · have := (List.getElem?_eq_some_iff.mp hf).1
        simp only [List.length_append, List.length_singleton] at this
        exact .inr (by omega)
    refine ⟨fun f => ⟨?_, ?_⟩, fun u hu => ?_, fun call hcall promise hawait => ?_⟩
    · intro hf
      obtain rfl := Option.some.inj hf
      exact ⟨p, by simp⟩
    · rintro ⟨q, hf⟩
      rcases hnew f _ hf with hf | rfl
      · have := (h.queued f).mpr ⟨q, hf⟩
        rw [hnone] at this
        cases this
      · rfl
    · rcases List.mem_append.mp hu with hu | hu
      · exact h.passes u hu
      · obtain rfl := List.mem_singleton.mp hu
        exact hline.entry_lt hp
    · rcases mem_set_call hcall with hold | rfl
      · exact (h.returned call hold promise hawait).mono (Nat.le_refl _) (by simp)
      · cases hawait
        simp [Returned]
  | resumeStarts _ _ =>
    refine h.same rfl rfl (by simp [startRefresh]) fun call hcall => ?_
    rcases mem_set_call hcall with hold | rfl
    · exact .inl hold
    · refine .inr fun promise hawait => ?_
      cases hawait
      simp [Returned, startRefresh]
  | followUp hf _ => exact h.followUp hline hf
  | settleCall _ _ =>
    refine h.same rfl rfl (Nat.le_refl _) fun call hcall => ?_
    rcases mem_set_call hcall with hold | rfl
    · exact .inl hold
    · exact .inr fun promise hawait => by cases hawait

end ServerRefreshes

end Bittery
