/-
A retry of a queued command at the server: whether it is executed.

A command keeps its key over the attempts (`Retries.itemRequest`), and the server keeps what
it answered to a key, a failure of its own included. So a retry is executed only when nothing
is stored under the key, or no longer.
-/
import Bittery.Client.Requests
import Bittery.Server.IdempotencyFacts

namespace Bittery

open Lib Idempotency

/-- The idempotency scope of a request. -/
def WriteRequest.scope (r : WriteRequest) (principalId : String) : RequestScope :=
  ⟨principalId, r.method, r.path, r.idempotencyKey⟩

/-- A request reaches the server; `json` writes its body. -/
def WriteRequest.arrival (json : RequestBody → List Byte) (principalId : String) (id : Nat) (r : WriteRequest) : Label :=
  .arrive id (r.scope principalId) (json r.body) (r.etag.map fun etag => etag.toUTF8.toList)

/-- The statements of a request, one after another, as far as they go; `locked` are the rows
that other transactions hold. -/
def proceed (sha256 : List Byte → Fingerprint) (id : Nat) (locked : RequestScope → Bool) : Nat → State → State
  | 0, s => s
  | n + 1, s =>
    match step sha256 s (.statement id s.clock locked) with
    | some t => proceed sha256 id locked n t
    | none => s

/-- **A request is executed**: nothing comes in the way of its claim, and it gets to the operation. -/
def Executes (sha256 : List Byte → Fingerprint) (json : RequestBody → List Byte) (locked : RequestScope → Bool) (s : State)
    (principalId : String) (id : Nat) (r : WriteRequest) : Prop :=
  ∃ t, step sha256 s (r.arrival json principalId id) = some t ∧
    ∃ p, (proceed sha256 id locked 5 t).requests.get? id = some p ∧ p.pc = .operate

/-- Nothing that the server keeps is stored under a scope. -/
def Unclaimed (records : Records) (now : Idempotency.Time) (scope : RequestScope) : Prop :=
  ∀ row, records.get? scope = some row → row.expired now = true

/-! ## The claim of a request that is alone -/

variable {sha256 : List Byte → Fingerprint} {json : RequestBody → List Byte} {locked : RequestScope → Bool} {s t : State}
  {now : Idempotency.Time} {id : Nat} {p : Process} {records records' : Records} {scope : RequestScope} {fingerprint : Fingerprint}

/-- The maintenance neither frees a scope nor claims one. -/
theorem Maintained.unclaimed_iff (h : Maintained now records records') :
    Unclaimed records' now scope ↔ Unclaimed records now scope := by
  rcases h scope with hsame | ⟨r, hr, hexpired, hnone⟩ | ⟨r, r', hr, hr', hpending, hindeterminate, -⟩
  · simp only [Unclaimed, hsame]
  · simp [Unclaimed, hr, hnone, hexpired]
  · have hno : r.expired now = false := by simp [Record.expired, hpending]
    have hno' : r'.expired now = false := by simp [Record.expired, hindeterminate]
    simp [Unclaimed, hr, hr', hno, hno']

theorem insertClaim_inserts (fingerprint : Fingerprint) (now : Idempotency.Time) (hl : scope.withinLimits = true)
    (hfree : records.get? scope = none) :
    ∃ t', insertClaim scope fingerprint now records = some (t', true) := by
  rw [insertClaim, dif_pos hl]
  cases hi : records.insert (.claimed scope fingerprint now hl) with
  | some t' => exact ⟨t', rfl⟩
  | none =>
    obtain ⟨r, hr, hkey⟩ := Table.insert_eq_none.mp hi
    exact absurd hkey (Table.get?_eq_none.mp hfree r hr)

theorem insertClaim_finds {row : Record} (hl : scope.withinLimits = true) (hrow : records.get? scope = some row) :
    insertClaim scope fingerprint now records = some (records, false) := by
  rw [insertClaim, dif_pos hl]
  have hnone : records.insert (.claimed scope fingerprint now hl) = none :=
    Table.insert_eq_none.mpr ⟨row, Table.mem_of_get? hrow, Table.key_of_get? hrow⟩
  rw [hnone]

theorem reclaim_snd (fingerprint : Fingerprint) (now : Idempotency.Time) {row : Record} (hrow : records.get? scope = some row) :
    (reclaim scope fingerprint now records).2 = row.expired now := by
  rw [Bool.eq_iff_iff]
  simp only [reclaim, Table.any_eq_true, Bool.and_eq_true, decide_eq_true_eq]
  constructor
  · rintro ⟨r, hr, hscope, hexpired⟩
    obtain rfl := Table.eq_of_key_eq hr (Table.mem_of_get? hrow) (hscope.trans (Table.key_of_get? hrow).symm)
    exact hexpired
  · exact fun hexpired => ⟨row, Table.mem_of_get? hrow, Table.key_of_get? hrow, hexpired⟩

theorem get?_setPc (hp : s.requests.get? p.id = some p) (pc : Pc) :
    (s.setPc p.id pc).requests.get? p.id = some { p with pc := pc } := by
  rw [State.setPc, Table.get?_updateWhere, hp, Option.map_some, if_pos (by simp)]

/-- One more statement. -/
theorem proceed_succ (hp : s.requests.get? p.id = some p) (hs : runStatement s p s.clock locked = some t) (n : Nat) :
    proceed sha256 p.id locked (n + 1) s = proceed sha256 p.id locked n t := by
  have hstep : step sha256 s (.statement p.id s.clock locked) = some t := by
    rw [step, if_pos (Nat.le_refl _), hp]
    exact hs
  rw [proceed, hstep]

/-- At its operation, or answered, a request has no statement left. -/
theorem proceed_stays (hp : s.requests.get? p.id = some p) (hpc : p.pc = .operate ∨ p.pc = .done) (n : Nat) :
    proceed sha256 p.id locked n s = s := by
  cases n with
  | zero => rfl
  | succ n =>
    have hstep : step sha256 s (.statement p.id s.clock locked) = none := by
      rw [step, if_pos (Nat.le_refl _), hp]
      rcases hpc with hpc | hpc <;> simp [runStatement, hpc]
    rw [proceed, hstep]

/-- The request has got to its operation. -/
def Operating (s : State) (id : Nat) : Prop := ∃ p, s.requests.get? id = some p ∧ p.pc = .operate

theorem get?_answer (hp : s.requests.get? p.id = some p) (reply : Except ApiError Response) :
    (s.answer p reply).requests.get? p.id = some { p with pc := .done } := get?_setPc hp .done

/-- An answered request is never at its operation. -/
theorem not_operating_answer (hp : s.requests.get? p.id = some p) {reply : Except ApiError Response}
    (hs : runStatement s p s.clock locked = some (s.answer p reply)) (n : Nat) :
    ¬ Operating (proceed sha256 p.id locked (n + 1) s) p.id := by
  have hdone := get?_answer hp reply
  rw [proceed_succ hp hs, proceed_stays (p := { p with pc := .done }) hdone (.inr rfl) n]
  simp [Operating, hdone]

/-- A request that got its claim is at its operation. -/
theorem operating_of_claim (hp : s.requests.get? p.id = some p)
    (hs : runStatement s p s.clock locked = some ({ s with records := records }.setPc p.id .operate)) (n : Nat) :
    Operating (proceed sha256 p.id locked (n + 1) s) p.id := by
  have hoperate : ({ s with records := records }.setPc p.id .operate).requests.get? p.id = some { p with pc := .operate } :=
    get?_setPc (s := { s with records := records }) hp .operate
  rw [proceed_succ hp hs, proceed_stays (p := { p with pc := .operate }) hoperate (.inl rfl) n]
  exact ⟨_, hoperate, rfl⟩

theorem select_not_operating {row : Record} (hp : s.requests.get? p.id = some p) (hpc : p.pc = .select)
    (hrow : s.records.get? p.scope = some row) : ¬ Operating (proceed sha256 p.id locked 1 s) p.id := by
  obtain ⟨reply, hs⟩ : ∃ reply, runStatement s p s.clock locked = some (s.answer p reply) := by
    simp only [runStatement, hpc]
    rcases readClaim_some p.fingerprint hrow with ⟨-, h⟩ | ⟨-, -, h⟩ | ⟨-, -, h⟩ | ⟨-, -, stored, -, -, -, h⟩ <;>
      exact ⟨_, by rw [h]; rfl⟩
  exact not_operating_answer hp hs 0

theorem reclaim_operates_iff {row : Record} (hp : s.requests.get? p.id = some p) (hpc : p.pc = .reclaim)
    (hrow : s.records.get? p.scope = some row) :
    Operating (proceed sha256 p.id locked 2 s) p.id ↔ row.expired s.clock = true := by
  have hsnd := reclaim_snd p.fingerprint s.clock hrow
  cases hreclaim : reclaim p.scope p.fingerprint s.clock s.records with
  | mk records hit =>
    rw [hreclaim] at hsnd
    subst hsnd
    cases hexpired : row.expired s.clock with
    | true =>
      have hs : runStatement s p s.clock locked = some ({ s with records := records }.setPc p.id .operate) := by
        simp only [runStatement, hpc, hreclaim, hexpired]
      exact iff_of_true (operating_of_claim hp hs 1) rfl
    | false =>
      have hs : runStatement s p s.clock locked = some (s.setPc p.id .select) := by
        simp only [runStatement, hpc, hreclaim, hexpired]
      rw [proceed_succ hp hs]
      exact iff_of_false (select_not_operating (p := { p with pc := .select }) (get?_setPc hp .select) rfl hrow) (by simp)

theorem insert_operates_iff (hp : s.requests.get? p.id = some p) (hpc : p.pc = .insert) :
    Operating (proceed sha256 p.id locked 3 s) p.id ↔
      p.scope.withinLimits = true ∧ Unclaimed s.records s.clock p.scope := by
  by_cases hl : p.scope.withinLimits = true
  · cases hrow : s.records.get? p.scope with
    | none =>
      obtain ⟨records, hinsert⟩ := insertClaim_inserts p.fingerprint s.clock hl hrow
      have hs : runStatement s p s.clock locked = some ({ s with records := records }.setPc p.id .operate) := by
        simp only [runStatement, hpc, hinsert]
      exact iff_of_true (operating_of_claim hp hs 2) ⟨hl, by simp [Unclaimed, hrow]⟩
    | some row =>
      have hs : runStatement s p s.clock locked = some (s.setPc p.id .reclaim) := by
        simp only [runStatement, hpc, insertClaim_finds hl hrow]
      rw [proceed_succ hp hs, reclaim_operates_iff (p := { p with pc := .reclaim }) (get?_setPc hp .reclaim) rfl hrow]
      simp [Unclaimed, hrow, hl, State.setPc]
  · -- The insert fails, and the request with it.
    have hnone : insertClaim p.scope p.fingerprint s.clock s.records = none := by rw [insertClaim, dif_neg hl]
    have hs : runStatement s p s.clock locked =
        some (s.answer p (.error (.ofAppError (.internal "Idempotency database operation failed")))) := by
      simp only [runStatement, hpc, hnone]
    exact iff_of_false (not_operating_answer hp hs 2) fun h => hl h.1

/-- **A request that is alone gets to its operation** exactly when its scope is within the
limits of the columns and nothing kept is stored under it. -/
theorem operates_iff (hp : s.requests.get? p.id = some p) (hpc : p.pc = .deleteExpired) :
    Operating (proceed sha256 p.id locked 5 s) p.id ↔
      p.scope.withinLimits = true ∧ Unclaimed s.records s.clock p.scope := by
  have hs : runStatement s p s.clock locked =
      some ({ s with records := deleteExpired locked s.clock s.records }.setPc p.id .markStale) := by
    simp only [runStatement, hpc]
  rw [proceed_succ hp hs]
  have hp₁ := get?_setPc (s := { s with records := deleteExpired locked s.clock s.records }) hp .markStale
  generalize ht : ({ s with records := deleteExpired locked s.clock s.records }.setPc p.id .markStale) = t at hp₁ ⊢
  have hclock : t.clock = s.clock := by rw [← ht]; rfl
  have hrecords : t.records = deleteExpired locked s.clock s.records := by rw [← ht]; rfl
  have hs₁ : runStatement t { p with pc := .markStale } t.clock locked =
      some ({ t with records := markStale locked t.clock t.records }.setPc p.id .insert) := rfl
  rw [proceed_succ (p := { p with pc := .markStale }) hp₁ hs₁]
  have hp₂ := get?_setPc (s := { t with records := markStale locked t.clock t.records }) (p := { p with pc := .markStale }) hp₁ .insert
  rw [insert_operates_iff (p := { p with pc := .insert }) hp₂ rfl]
  simp only [State.setPc, Maintained.unclaimed_iff markStale_maintained, hclock, hrecords,
    Maintained.unclaimed_iff deleteExpired_maintained]

theorem executes_iff (hnew : s.requests.get? id = none) (principalId : String) (r : WriteRequest) :
    Executes sha256 json locked s principalId id r ↔
      (r.scope principalId).withinLimits = true ∧ Unclaimed s.records s.clock (r.scope principalId) := by
  generalize hp : (⟨id, r.scope principalId, requestFingerprint sha256 (json r.body) (r.etag.map fun etag => etag.toUTF8.toList),
    .deleteExpired⟩ : Process) = p
  have hid : p.id = id := by rw [← hp]
  cases hinsert : s.requests.insert p with
  | none =>
    obtain ⟨q, hq, hkey⟩ := Table.insert_eq_none.mp hinsert
    exact absurd (hkey.trans hid) (Table.get?_eq_none.mp hnew q hq)
  | some requests =>
    have harrive : step sha256 s (r.arrival json principalId id) = some { s with requests := requests } := by
      simp only [WriteRequest.arrival, step, hp, hinsert, Option.map_some]
    have hget : ({ s with requests := requests } : State).requests.get? p.id = some p :=
      (Table.get?_insert hinsert p.id).trans (if_pos rfl)
    have hoperates : Operating (proceed sha256 p.id locked 5 { s with requests := requests }) p.id ↔ _ :=
      operates_iff hget (by rw [← hp])
    rw [hid] at hoperates
    constructor
    · rintro ⟨t, ht, hoperating⟩
      obtain rfl := Option.some.inj (harrive.symm.trans ht)
      rw [← hp] at hoperates
      exact hoperates.mp hoperating
    · intro h
      rw [← hp] at hoperates
      exact ⟨_, harrive, hoperates.mpr h⟩

/-! ## Retries -/

/-- **When a retry is executed**: it sends the request of the failed attempt, under the same key,
and it is executed exactly when the scope fits its columns and the server keeps nothing under it. -/
theorem retry_executes_iff (sha256 : List Byte → Fingerprint) (json : RequestBody → List Byte) (locked : RequestScope → Bool)
    {c d : ItemSyncCommand} (hretry : Retries c d) (step : ItemStep) :
    d.itemRequest step = c.itemRequest step ∧
    ∀ (r : WriteRequest), c.itemRequest step = .ok r → ∀ (s : State) (principalId : String) (id : Nat), s.requests.get? id = none →
      (Executes sha256 json locked s principalId id r ↔
        (r.scope principalId).withinLimits = true ∧ Unclaimed s.records s.clock (r.scope principalId)) :=
  ⟨hretry.itemRequest step, fun r _ _ principalId _ hnew => executes_iff hnew principalId r⟩

def createsItem : ItemSyncCommand :=
  ⟨"ann@home", "op-1", some "op-1", some "op-1", .create, "item-0001", "vault-01", none, none, none, some .login,
    some ⟨"data", "iv", "alg", 1, "ann"⟩, none, 0, 100, 0, some .pending, none, none, none, none, none⟩

def createsItemRequest : WriteRequest :=
  ⟨"PUT", "/api/v1/vaults/vault-01/items/item-0001", .create .login "data" "iv" "alg", none, "op-1"⟩

/-- A failure that claimed no key, at a server that has nothing: the retry is executed. -/
theorem retry_executes_iff_unclaimed :
    (createsItem.markRetrying 1000 "x" "503").itemRequest .single = .ok createsItemRequest ∧
      Executes (fun bytes => bytes) (fun _ => [7]) (fun _ => false) ⟨5, .empty, .empty, []⟩ "ann" 2 createsItemRequest := by
  obtain ⟨hsame, hexecutes⟩ := retry_executes_iff (fun bytes => bytes) (fun _ => [7]) (fun _ => false)
    (Retries.marked 1000 "x" "503" (.refl (c := createsItem))) .single
  have hrequest : createsItem.itemRequest .single = .ok createsItemRequest := by decide
  exact ⟨hsame.trans hrequest, (hexecutes _ hrequest ⟨5, .empty, .empty, []⟩ "ann" 2 rfl).mpr ⟨by decide, by simp [Unclaimed]⟩⟩

def replyStatus : Except ApiError Response → Nat
  | .ok response => response.stored.status.toNat
  | .error e => e.status

/-- An attempt was answered with a 5xx, and no attempt has committed anything. -/
def failedAttempt (s : State) (scope : RequestScope) : Bool :=
  (s.history.any fun ev => ev.scope = scope && match ev.kind with
    | .answered reply => 500 ≤ replyStatus reply
    | _ => false) &&
  s.history.all fun ev => ev.scope ≠ scope || match ev.kind with
    | .executed response => 500 ≤ response.status.toNat
    | _ => true

/-- The first attempt at the command gets to its operation, which fails with a 500. -/
def failingAttempt : List Label :=
  let statement : Label := .statement 1 0 fun _ => false
  [createsItemRequest.arrival (fun _ => [7]) "ann" 1, statement, statement, statement, .operate 1 ⟨500, none, [], none⟩, statement]

/-- The failure is kept for a day, and every retry of that day is answered from it. -/
theorem stored_failure_answers_retry : ¬ ∀ (sha256 : List Byte → Fingerprint) (json : RequestBody → List Byte)
    (locked : RequestScope → Bool) (c d : ItemSyncCommand) (step : ItemStep) (r : WriteRequest) (s : State)
    (principalId : String) (id : Nat), (server sha256).Reachable s → Retries c d → d.status = some .retrying →
    d.itemRequest step = .ok r → (r.scope principalId).withinLimits = true → failedAttempt s (r.scope principalId) = true →
    s.requests.get? id = none → Executes sha256 json locked s principalId id r := by
  intro hall
  have hrun : ((server (fun bytes => bytes)).run ⟨0, .empty, .empty, []⟩ failingAttempt).any (fun s =>
      failedAttempt s (createsItemRequest.scope "ann") && (s.requests.get? 2).isNone &&
        (s.records.get? (createsItemRequest.scope "ann")).any fun row => !row.expired s.clock) := by decide +kernel
  obtain ⟨s, hs, hprops⟩ := (Option.any_eq_true ..).mp hrun
  simp only [Bool.and_eq_true, Option.isNone_iff_eq_none] at hprops
  obtain ⟨⟨hfailed, hnew⟩, hrow⟩ := hprops
  obtain ⟨row, hrow, hkept⟩ := (Option.any_eq_true ..).mp hrow
  have hreachable : (server (fun bytes => bytes)).Reachable s := System.Reachable.run (.init ⟨rfl, rfl, rfl⟩) hs
  have hexecutes := hall (fun bytes => bytes) (fun _ => [7]) (fun _ => false) createsItem
    (createsItem.markRetrying 1000 "x" "500") .single createsItemRequest s "ann" 2 hreachable (.marked 1000 "x" "500" .refl)
    (by decide) (by decide) (by decide) hfailed hnew
  have hexpired := ((executes_iff hnew "ann" createsItemRequest).mp hexecutes).2 row hrow
  rw [hexpired] at hkept
  cases hkept

end Bittery
