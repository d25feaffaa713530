/-
Travel mode on the server: `domains/vaults/travel_mode/mod.rs` with the statements of `repo.rs`, for the requests
of one user.

The statements of one request come one after another, with those of others in between. The row is read and the
vaults are checked outside the transaction, which is the upsert and the event: from the upsert to the commit it
holds the lock on the row, so the events are numbered in the order of the commits. Of an event only what differs
from one to the next is kept.
-/
import Bittery.Lib.Runs
import Bittery.Server.Error

open Lib

namespace Bittery

structure TravelModeRow where
  enabled : Bool
  hiddenVaultIds : List String
  enabledAt : Option Nat
  updatedAt : Nat
deriving DecidableEq, Repr

structure TravelModeEvent where
  clientId : Option String
  enabled : Bool
  hiddenVaultIds : List String
deriving DecidableEq, Repr

def validateVaultAccess (accessible vaultIds : List String) : Except AppError Unit :=
  if vaultIds.all (accessible.contains ·) then .ok () else .error (.badRequest "One or more vaults are not accessible")

inductive TravelModeRequest where
  | setHiddenVaults (clientId : Option String) (hiddenVaultIds : List String)
  | enable (clientId : Option String) (hiddenVaultIds : List String)
  | disable (clientId : Option String)
deriving DecidableEq, Repr

/-- The statement that comes next, with what has been computed for it. -/
inductive TravelModeAwait where
  | fetch
  | validate (enabled : Bool) (hiddenVaultIds : List String)
  | upsert (enabled : Bool) (hiddenVaultIds : List String) (enabledAt : Option Nat)
  | insertEvent (row : TravelModeRow)
  | commit (row : TravelModeRow)
  | ended (answer : Except AppError TravelModeRow)

/-- The transaction has made its upsert. -/
def TravelModeAwait.locks : TravelModeAwait → Bool
  | .insertEvent _ | .commit _ => true
  | _ => false

def TravelModeAwait.commits : TravelModeAwait → Bool
  | .commit _ => true
  | _ => false

namespace TravelModeRequest

def clientId : TravelModeRequest → Option String
  | .setHiddenVaults clientId _ | .enable clientId _ | .disable clientId => clientId

/-- `insert_travel_mode_sync_event` -/
def event (r : TravelModeRequest) (row : TravelModeRow) : TravelModeEvent := ⟨r.clientId, row.enabled, row.hiddenVaultIds⟩

/-- What is done with the row that has been read; `enable` reads none. -/
def fetched (existing : Option TravelModeRow) : TravelModeRequest → TravelModeAwait
  | .setHiddenVaults _ hiddenVaultIds =>
    if existing.any (·.enabled) then
      .ended (.error (.badRequest "Cannot change hidden vaults while travel mode is enabled"))
    else .validate false hiddenVaultIds
  | .enable _ hiddenVaultIds => .validate true hiddenVaultIds
  | .disable _ => .upsert false ((existing.map (·.hiddenVaultIds)).getD []) none

def first : TravelModeRequest → TravelModeAwait
  | .enable _ hiddenVaultIds => .validate true hiddenVaultIds
  | _ => .fetch

/-- The whole request with nothing in between: the row it writes. -/
def alone (existing : Option TravelModeRow) (accessible : List String) (now updatedAt : Nat) :
    TravelModeRequest → Except AppError TravelModeRow
  | .setHiddenVaults _ hiddenVaultIds => do
    if existing.any (·.enabled) then
      throw (.badRequest "Cannot change hidden vaults while travel mode is enabled")
    validateVaultAccess accessible hiddenVaultIds
    return ⟨false, hiddenVaultIds, none, updatedAt⟩
  | .enable _ hiddenVaultIds => do
    validateVaultAccess accessible hiddenVaultIds
    return ⟨true, hiddenVaultIds, some now, updatedAt⟩
  | .disable _ => return ⟨false, (existing.map (·.hiddenVaultIds)).getD [], none, updatedAt⟩

/-- Two rows are the same to a request: it decides alike from both. -/
def Alike (existing row : Option TravelModeRow) : TravelModeRequest → Prop
  | .setHiddenVaults _ _ => existing.any (·.enabled) = row.any (·.enabled)
  | .enable _ _ => True
  | .disable _ => (existing.map (·.hiddenVaultIds)).getD [] = (row.map (·.hiddenVaultIds)).getD []

instance (existing row : Option TravelModeRow) : (r : TravelModeRequest) → Decidable (r.Alike existing row)
  | .setHiddenVaults _ _ => inferInstanceAs (Decidable (_ = _))
  | .enable _ _ => inferInstanceAs (Decidable True)
  | .disable _ => inferInstanceAs (Decidable (_ = _))

theorem alone_congr {existing row : Option TravelModeRow} {accessible : List String} {now updatedAt : Nat}
    {r : TravelModeRequest} (h : r.Alike existing row) :
    r.alone existing accessible now updatedAt = r.alone row accessible now updatedAt := by
  cases r with
  | setHiddenVaults clientId hiddenVaultIds =>
    have hsame : existing.any (·.enabled) = row.any (·.enabled) := h
    simp only [alone, hsame]
  | enable clientId hiddenVaultIds => rfl
  | disable clientId =>
    have hsame : (existing.map (·.hiddenVaultIds)).getD [] = (row.map (·.hiddenVaultIds)).getD [] := h
    simp only [alone, hsame]

end TravelModeRequest

/-- A request at work, with the row that it has read. -/
structure TravelModeTask where
  request : TravelModeRequest
  existing : Option TravelModeRow
  await : TravelModeAwait

namespace TravelModeTask

/-- The next statement of a request. -/
def resume (t : TravelModeTask) (row : Option TravelModeRow) (accessible : List String) (now : Nat) : TravelModeTask :=
  match t.await with
  | .fetch => { t with existing := row, await := t.request.fetched row }
  | .validate enabled hiddenVaultIds =>
    match validateVaultAccess accessible hiddenVaultIds with
    | .error error => { t with await := .ended (.error error) }
    | .ok () => { t with await := .upsert enabled hiddenVaultIds (if enabled then some now else none) }
  | .upsert enabled hiddenVaultIds enabledAt =>
    { t with await := .insertEvent ⟨enabled, hiddenVaultIds, enabledAt, now⟩ }
  | .insertEvent row => { t with await := .commit row }
  | .commit row => { t with await := .ended (.ok row) }
  | .ended _ => t

end TravelModeTask

/-- The committed row and events, the requests that have succeeded, the latest first, and the requests at work. -/
structure TravelModeState where
  row : Option TravelModeRow
  events : List TravelModeEvent
  succeeded : List TravelModeRequest
  tasks : List TravelModeTask

inductive TravelModeLabel where
  | start (request : TravelModeRequest)
  /-- The next statement of a request, with the user's vaults and the time of that moment. -/
  | resume (k : Nat) (accessible : List String) (now : Nat)
  /-- The next statement fails, or the request is dropped; its transaction is rolled back. -/
  | fail (k : Nat) (error : AppError)

namespace TravelModeState

def init : TravelModeState := ⟨none, [], [], []⟩

def step (s : TravelModeState) : TravelModeLabel → Option TravelModeState
  | .start request => some { s with tasks := s.tasks ++ [⟨request, none, request.first⟩] }
  | .resume k accessible now => do
    let t ← s.tasks[k]?
    let tasks := s.tasks.set k (t.resume s.row accessible now)
    match t.await with
    | .upsert _ _ _ =>
      -- The statement waits while another transaction has the row.
      if s.tasks.any (·.await.locks) then none else some { s with tasks }
    | .commit row =>
      some ⟨some row, t.request.event row :: s.events, t.request :: s.succeeded, tasks⟩
    | .ended _ => none
    | _ => some { s with tasks }
  | .fail k error => s.tasks[k]?.map fun t => { s with tasks := s.tasks.set k { t with await := .ended (.error error) } }

end TravelModeState

def travelMode : System TravelModeState TravelModeLabel := ⟨(· = .init), TravelModeState.step⟩

/-- Requests one after another, the latest first: the row and the events they leave. -/
inductive TravelModeSerial : List TravelModeRequest → Option TravelModeRow → List TravelModeEvent → Prop
  | nil : TravelModeSerial [] none []
  | cons {requests row events accessible now updatedAt} {r : TravelModeRequest} {row' : TravelModeRow} :
    TravelModeSerial requests row events → r.alone row accessible now updatedAt = .ok row' →
      TravelModeSerial (r :: requests) (some row') (r.event row' :: events)

theorem TravelModeSerial.shows {requests : List TravelModeRequest} {row : Option TravelModeRow} {events : List TravelModeEvent}
    (h : TravelModeSerial requests row events) :
    events.head?.map (fun e => (e.enabled, e.hiddenVaultIds)) = row.map fun row => (row.enabled, row.hiddenVaultIds) := by
  cases h with
  | nil => rfl
  | cons _ _ => rfl

/-! ## What a request is about to write -/

namespace TravelModeTask

/-- A request is about to write what it writes alone, on the row that it has read. -/
def Fits (t : TravelModeTask) : Prop :=
  match t.await with
  | .fetch | .ended _ => True
  | .validate enabled hiddenVaultIds => ∀ accessible now updatedAt, validateVaultAccess accessible hiddenVaultIds = .ok () →
      t.request.alone t.existing accessible now updatedAt =
        .ok ⟨enabled, hiddenVaultIds, if enabled then some now else none, updatedAt⟩
  | .upsert enabled hiddenVaultIds enabledAt => ∃ accessible now, ∀ updatedAt,
      t.request.alone t.existing accessible now updatedAt = .ok ⟨enabled, hiddenVaultIds, enabledAt, updatedAt⟩
  | .insertEvent row | .commit row => ∃ accessible now updatedAt,
      t.request.alone t.existing accessible now updatedAt = .ok row

theorem fits_fetched (r : TravelModeRequest) (row : Option TravelModeRow) : Fits ⟨r, row, r.fetched row⟩ := by
  cases r with
  | setHiddenVaults clientId hiddenVaultIds =>
    cases hon : row.any (·.enabled) with
    | true => simp [Fits, TravelModeRequest.fetched, hon]
    | false =>
      simp only [Fits, TravelModeRequest.fetched, hon, Bool.false_eq_true, if_false]
      intro accessible now updatedAt hvalid
      simp only [TravelModeRequest.alone, hon, hvalid]
      rfl
  | enable clientId hiddenVaultIds =>
    intro accessible now updatedAt hvalid
    simp only [TravelModeRequest.alone, hvalid]
    rfl
  | disable clientId => exact ⟨[], 0, fun _ => rfl⟩

theorem fits_first (r : TravelModeRequest) : Fits ⟨r, none, r.first⟩ := by
  cases r with
  | enable clientId hiddenVaultIds => exact fits_fetched (.enable clientId hiddenVaultIds) none
  | setHiddenVaults clientId hiddenVaultIds => trivial
  | disable clientId => trivial

theorem Fits.resume {t : TravelModeTask} (h : t.Fits) (row : Option TravelModeRow) (accessible : List String) (now : Nat) :
    (t.resume row accessible now).Fits := by
  obtain ⟨r, existing, await⟩ := t
  cases await with
  | fetch => exact fits_fetched r row
  | validate enabled hiddenVaultIds =>
    simp only [TravelModeTask.resume]
    cases hvalid : validateVaultAccess accessible hiddenVaultIds with
    | error error => trivial
    | ok => exact ⟨accessible, now, fun updatedAt => h accessible now updatedAt hvalid⟩
  | upsert enabled hiddenVaultIds enabledAt =>
    obtain ⟨accessible', now', hwrites⟩ := h
    exact ⟨accessible', now', now, hwrites now⟩
  | insertEvent row => exact h
  | commit row => trivial
  | ended answer => trivial

end TravelModeTask

/-! ## Runs in which no request commits what it has read too early -/

namespace TravelModeState

/-- A request that commits decides from the row it has read as it would from the row that is there. -/
def Current (s : TravelModeState) : TravelModeLabel → Prop
  | .resume k _ _ => ∀ t ∈ (s.tasks[k]?).toList, t.await.commits = true → t.request.Alike t.existing s.row
  | _ => True

instance (s : TravelModeState) : (label : TravelModeLabel) → Decidable (s.Current label)
  | .resume _ _ _ => inferInstanceAs (Decidable (∀ t ∈ _, _))
  | .start _ | .fail _ _ => inferInstanceAs (Decidable True)

/-- The row and the events are those of the successful requests in some order, and the last event shows the row. -/
def Serializable (s : TravelModeState) : Prop :=
  (∃ order, order.Perm s.succeeded ∧ TravelModeSerial order s.row s.events) ∧
    s.events.head?.map (fun e => (e.enabled, e.hiddenVaultIds)) = s.row.map fun row => (row.enabled, row.hiddenVaultIds)

structure Sound (s : TravelModeState) : Prop where
  serial : TravelModeSerial s.succeeded s.row s.events
  fits : ∀ t ∈ s.tasks, t.Fits

theorem Sound.step {s s' : TravelModeState} {label : TravelModeLabel} (h : s.Sound) (hcurrent : s.Current label)
    (hstep : s.step label = some s') : s'.Sound := by
  have hset : ∀ {k : Nat} {t : TravelModeTask}, t.Fits → ∀ u ∈ s.tasks.set k t, u.Fits := by
    intro k t ht u hu
    obtain hu | rfl := List.mem_or_eq_of_mem_set hu
    · exact h.fits u hu
    · exact ht
  cases label with
  | start request =>
    cases hstep
    refine ⟨h.serial, fun t ht => ?_⟩
    obtain ht | ht := List.mem_append.mp ht
    · exact h.fits t ht
    · exact List.mem_singleton.mp ht ▸ TravelModeTask.fits_first request
  | resume k accessible now =>
    obtain ⟨t, ht, hstep⟩ := Option.bind_eq_some_iff.mp hstep
    have hfits := h.fits t (List.mem_of_getElem? ht)
    have htasks := hset (k := k) (hfits.resume s.row accessible now)
    cases hawait : t.await with
    | commit row =>
      simp only [hawait, Option.some.injEq] at hstep
      subst hstep
      have hread : t.request.Alike t.existing s.row := hcurrent t (by simp [ht]) (by rw [hawait]; rfl)
      simp only [TravelModeTask.Fits, hawait] at hfits
      obtain ⟨accessible', now', updatedAt, halone⟩ := hfits
      exact ⟨.cons h.serial (TravelModeRequest.alone_congr hread ▸ halone), htasks⟩
    | upsert enabled hiddenVaultIds enabledAt =>
      simp only [hawait] at hstep
      split at hstep
      · cases hstep
      · cases hstep
        exact ⟨h.serial, htasks⟩
    | ended answer => simp [hawait] at hstep
    | fetch | validate | insertEvent =>
      simp only [hawait, Option.some.injEq] at hstep
      subst hstep
      exact ⟨h.serial, htasks⟩
  | fail k error =>
    obtain ⟨t, ht, rfl⟩ := Option.map_eq_some_iff.mp hstep
    exact ⟨h.serial, hset trivial⟩

end TravelModeState

/-- **Travel mode is serializable** in these runs: the requests could have come in the order of their commits. -/
theorem travelMode_serializable {s : TravelModeState} (h : travelMode.ReachableUnder TravelModeState.Current s) :
    s.Serializable ∧ TravelModeSerial s.succeeded s.row s.events := by
  have hsound : s.Sound := h.invariant TravelModeState.Sound (fun s hinit => by subst hinit; exact ⟨.nil, List.forall_mem_nil _⟩)
    fun s label t _ hsound hcurrent hstep => hsound.step hcurrent hstep
  exact ⟨⟨⟨_, .refl _, hsound.serial⟩, hsound.serial.shows⟩, hsound.serial⟩

theorem travelMode_serializable_disabled : ∃ s : TravelModeState, s.row = some ⟨false, ["a"], none, 4⟩ ∧ s.Serializable := by
  have hrun : (travelMode.runUnder TravelModeState.Current .init
      [.start (.enable none ["a"]), .resume 0 ["a"] 1, .resume 0 [] 2, .resume 0 [] 2, .resume 0 [] 2,
        .start (.disable none), .resume 1 [] 3, .resume 1 [] 4, .resume 1 [] 4, .resume 1 [] 4]).map (·.row) =
      some (some ⟨false, ["a"], none, 4⟩) := by decide
  obtain ⟨s, hs, hrow⟩ := Option.map_eq_some_iff.mp hrun
  exact ⟨s, hrow, (travelMode_serializable (System.ReachableUnder.runUnder (.init rfl) hs)).1⟩

/-! ## A set of hidden vaults that has read the row before travel mode is switched on -/

theorem TravelModeSerial.last {requests : List TravelModeRequest} {row : Option TravelModeRow} {e : TravelModeEvent}
    {events : List TravelModeEvent} (h : TravelModeSerial requests row (e :: events)) :
    ∃ (r : TravelModeRequest) (rest : List TravelModeRequest) (before : Option TravelModeRow) (row' : TravelModeRow)
      (accessible : List String) (now updatedAt : Nat), requests = r :: rest ∧ row = some row' ∧ e = r.event row' ∧
      TravelModeSerial rest before events ∧ r.alone before accessible now updatedAt = .ok row' := by
  generalize hes : e :: events = es at h
  cases h with
  | nil => cases hes
  | cons hrest halone =>
    cases hes
    exact ⟨_, _, _, _, _, _, _, rfl, rfl, rfl, hrest, halone⟩

/-- Travel mode is switched off, and the hidden vaults are others, by a request for hidden vaults. -/
theorem set_switches_off : ¬ ∀ s, travelMode.Reachable s → s.Serializable := by
  intro hall
  have hrun : (travelMode.run .init
      [.start (.setHiddenVaults none ["x"]), .start (.enable none ["a"]), .resume 0 [] 0, .resume 1 ["a", "x"] 1,
        .resume 1 [] 2, .resume 1 [] 2, .resume 1 [] 2, .resume 0 ["a", "x"] 3, .resume 0 [] 4, .resume 0 [] 4,
        .resume 0 [] 4]).map (fun s => (s.succeeded, s.events)) =
      some ([.setHiddenVaults none ["x"], .enable none ["a"]], [⟨none, false, ["x"]⟩, ⟨none, true, ["a"]⟩]) := by decide
  obtain ⟨s, hs, hends⟩ := Option.map_eq_some_iff.mp hrun
  obtain ⟨hsucceeded, hevents⟩ := Prod.mk.injEq .. ▸ hends
  obtain ⟨⟨order, hperm, hserial⟩, -⟩ := hall s (.run (.init rfl) hs)
  rw [hevents] at hserial
  obtain ⟨r, rest, before, row, accessible, now, updatedAt, rfl, -, he, hserial, halone⟩ := hserial.last
  obtain ⟨_, _, _, row₁, _, _, _, _, rfl, he₁, _, _⟩ := hserial.last
  have hon : row₁.enabled = true := (congrArg TravelModeEvent.enabled he₁).symm
  have hmem := hperm.subset List.mem_cons_self
  rw [hsucceeded] at hmem
  simp only [List.mem_cons, List.not_mem_nil, or_false] at hmem
  obtain rfl | rfl := hmem
  · -- It is refused once travel mode is on.
    simp only [TravelModeRequest.alone, Option.any_some, hon, if_true] at halone
    cases halone
  · have hoff : row.enabled = false := (congrArg TravelModeEvent.enabled he).symm
    simp only [TravelModeRequest.alone] at halone
    cases hvalid : validateVaultAccess accessible ["a"] with
    | error error => rw [hvalid] at halone; cases halone
    | ok =>
      rw [hvalid] at halone
      cases halone
      cases hoff

end Bittery
