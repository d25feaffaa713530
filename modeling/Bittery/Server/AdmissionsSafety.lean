/-
The limits of admission hold as long as no request is overtaken between what it has checked and
what it writes, and an invitation is made pending again only if it has expired and there is room.

Accepting an invitation counts no members: `send_invitation` has counted the pending invitations
as members, and the invariant is that reservation. An invitation that has admitted someone, or
was declined, stays so, and one that was cancelled is gone.
-/
import Bittery.Lib.Except
import Bittery.Server.Admissions

namespace Bittery

open Lib

/-! ## What the claim is about -/

namespace AdmissionState

variable (q : AdmissionState)

/-- The limits: of uninvited accounts, of members, and of what an invitation admits. -/
structure AdmissionsLimited (config : AdmissionConfig) : Prop where
  selfHosted : config.mode = .selfHosted → q.tables.accounts.count (·.uninvited) ≤ 1
  members : ∀ t ∈ q.tables.teams.rows, ∀ limit ∈ t.memberLimit, q.tables.members t.id ≤ limit
  /-- The invitation is pending and has not expired when it admits. -/
  pending : ∀ invitationId accountId found now, .accepted invitationId accountId found now ∈ q.history →
    ∃ r, found = some r ∧ r.status = .pending ∧ now ≤ r.expiresAt
  /-- It admits at most one user, and none after it was cancelled or declined. -/
  once : q.history.Pairwise fun later earlier => ∀ id, later.admits id = true → earlier.closes id = false

end AdmissionState

/-- The row of an invitation as it was read, up to a resend. -/
def TeamInvitation.Unchanged (read r : TeamInvitation) : Prop :=
  { r with tokenHash := read.tokenHash, expiresAt := read.expiresAt } = read

theorem TeamInvitation.Unchanged.eq {read r : TeamInvitation} (h : read.Unchanged r) :
    r.id = read.id ∧ r.teamId = read.teamId ∧ r.status = read.status := by
  have heq : { r with tokenHash := read.tokenHash, expiresAt := read.expiresAt } = read := h
  have hid := congrArg TeamInvitation.id heq
  have hteam := congrArg TeamInvitation.teamId heq
  have hstatus := congrArg TeamInvitation.status heq
  exact ⟨hid, hteam, hstatus⟩

instance (read r : TeamInvitation) : Decidable (read.Unchanged r) :=
  inferInstanceAs (Decidable ({ r with tokenHash := read.tokenHash, expiresAt := read.expiresAt } = read))

namespace AdmissionTables

variable (db : AdmissionTables)

/-- The members of a team, with those that a pending invitation is for. -/
def taken (teamId : String) : Nat := db.members teamId + db.pendingInvitations teamId

def HasRoom (teamId : String) : Prop :=
  ∀ t ∈ db.teams.rows, t.id = teamId → ∀ limit ∈ t.memberLimit, db.taken teamId < limit

instance (teamId : String) : Decidable (db.HasRoom teamId) :=
  inferInstanceAs (Decidable (∀ t ∈ db.teams.rows, t.id = teamId → ∀ limit ∈ t.memberLimit, db.taken teamId < limit))

/-- What the request has checked is still so when it writes: nobody has registered before the
first account, the invitation is as it was read and has not expired, and the team has room for
the invitation. A resend is of an invitation that is pending, or has expired and finds room. -/
def Undisturbed (mode : DeploymentMode) (now : Time) : AdmissionWrite → Prop
  | .signup _ _ => mode = .selfHosted → db.accounts.rows = []
  | .signupWithInvitation _ invitation | .accept _ invitation =>
    ∃ r ∈ db.invitations.rows, invitation.Unchanged r ∧ now ≤ r.expiresAt
  | .expire invitation => ∀ r ∈ db.invitations.rows, r.id = invitation.id → invitation.Unchanged r
  | .resend invitationId _ _ =>
    ∀ r ∈ db.invitations.rows, r.id = invitationId →
      r.status = .pending ∨ r.status = .expired ∧ db.HasRoom r.teamId
  | .send invitation => db.HasRoom invitation.teamId
  | .decline _ | .cancel _ => True

instance (mode : DeploymentMode) (now : Time) : (w : AdmissionWrite) → Decidable (db.Undisturbed mode now w)
  | .signup _ _ => inferInstanceAs (Decidable (mode = .selfHosted → db.accounts.rows = []))
  | .signupWithInvitation _ invitation | .accept _ invitation =>
    inferInstanceAs (Decidable (∃ r ∈ db.invitations.rows, invitation.Unchanged r ∧ now ≤ r.expiresAt))
  | .expire invitation =>
    inferInstanceAs (Decidable (∀ r ∈ db.invitations.rows, r.id = invitation.id → invitation.Unchanged r))
  | .resend invitationId _ _ =>
    inferInstanceAs (Decidable (∀ r ∈ db.invitations.rows, r.id = invitationId →
      r.status = .pending ∨ r.status = .expired ∧ db.HasRoom r.teamId))
  | .send invitation => inferInstanceAs (Decidable (db.HasRoom invitation.teamId))
  | .decline _ | .cancel _ => inferInstanceAs (Decidable True)

end AdmissionTables

/-- What a step writes for a request. -/
def AdmissionState.writes (q : AdmissionState) : AdmissionLabel → Option AdmissionWrite
  | .resume k _ =>
    match q.requests[k]? with
    | some (.write w _) => some w
    | _ => none
  | _ => none

/-- The condition on a step: a request that writes is undisturbed. -/
def AdmissionState.Undisturbed (config : AdmissionConfig) (q : AdmissionState) (a : Time × AdmissionLabel) : Prop :=
  ∀ w ∈ q.writes a.2, q.tables.Undisturbed config.mode a.1 w

instance (config : AdmissionConfig) (q : AdmissionState) (a : Time × AdmissionLabel) :
    Decidable (q.Undisturbed config a) :=
  inferInstanceAs (Decidable (∀ w ∈ q.writes a.2, q.tables.Undisturbed config.mode a.1 w))

/-! ## What a request has read -/

/-- The invitation that a request has found pending. -/
def AdmissionWrite.read : AdmissionWrite → Option TeamInvitation
  | .signupWithInvitation _ invitation | .accept _ invitation | .expire invitation | .decline invitation => some invitation
  | .signup _ _ | .cancel _ | .resend _ _ _ | .send _ => none

def AdmissionAwait.read : AdmissionAwait → Option TeamInvitation
  | .ensureInviteeDoesNotExist _ invitation _ | .countCurrentMembers _ invitation _
  | .authorizeSignupKeys _ invitation | .loadInvitee _ invitation _ | .authorizeAcceptKeys _ invitation => some invitation
  | .write w _ => w.read
  | _ => none

/-- The member limit of a team that is about to be inserted. -/
def AdmissionAwait.newLimit : AdmissionAwait → Option Nat
  | .write (.signup _ team) _ => team.memberLimit
  | _ => none

/-- What a request holds over an await. -/
def AdmissionAwait.Held (t : AdmissionAwait) : Prop :=
  (∀ r ∈ t.read, r.status = .pending) ∧ ∀ limit ∈ t.newLimit, 1 ≤ limit

namespace AdmissionAwait

variable {config : AdmissionConfig} {db : AdmissionTables} {t t' : AdmissionAwait} {ok : Bool} {now : Time}

theorem Held.of_none (h : t.read = none) (hlimit : t.newLimit = none) : t.Held := by simp [Held, h, hlimit]

theorem Held.of_read {r : TeamInvitation} (h : t.read = some r) (hlimit : t.newLimit = none) (hr : r.status = .pending) :
    t.Held := by
  simp [Held, h, hlimit, hr]

/-- The team of a signup has room for its owner. -/
theorem held_signup (input : SignupInput) (account : Account) (selectedPlan : BillingPlan) (error : Option AppError) :
    (write (.signup account (config.signupTeam input selectedPlan)) error).Held := by
  refine ⟨nofun, fun limit hlimit => ?_⟩
  simp only [newLimit, AdmissionConfig.signupTeam] at hlimit
  split at hlimit
  · cases hlimit
  · cases selectedPlan <;> simp [planMemberLimit] at hlimit <;> omega

theorem loadPending_pending {p : TeamInvitation → Bool} {r : TeamInvitation} {team : LimitedTeam}
    (h : db.loadPending p = some (r, team)) : r.status = .pending := by
  simp only [AdmissionTables.loadPending, Option.bind_eq_bind, Option.bind_eq_some_iff, Option.pure_def,
    Option.some.injEq, Prod.mk.injEq] at h
  obtain ⟨r', hr', team', -, rfl, -⟩ := h
  have hmem := Table.mem_select.mp (List.mem_of_head? hr')
  simp only [Bool.and_eq_true, decide_eq_true_eq] at hmem
  exact hmem.2.2

theorem held_refuse (error : AppError) : (refuse error).Held := .of_none rfl rfl

/-- The locals of a request stay with it. -/
theorem Held.resume (h : t.Held) (hr : t.resume config db ok now = some t') : t'.Held := by
  cases t <;> simp only [AdmissionAwait.resume, Option.some.injEq] at hr <;> try subst hr
  case hasAnyRegisteredUser => split <;> exact .of_none rfl rfl
  case ensureUserDoesNotExist =>
    split
    · exact held_refuse _
    · split
      · exact held_refuse _
      · exact held_signup ..
  case getPendingSignupInvitation =>
    split
    · exact held_refuse _
    · next invitation team hload =>
      have hpending := loadPending_pending hload
      split
      · exact held_refuse _
      · split
        · exact held_refuse _
        · split
          · exact held_refuse _
          · exact .of_read rfl rfl hpending
  case ensureInviteeDoesNotExist input invitation memberLimit =>
    have hpending := h.1 invitation rfl
    split
    · exact held_refuse _
    · cases memberLimit <;> exact .of_read rfl rfl hpending
  case countCurrentMembers input invitation memberLimit =>
    have hpending := h.1 invitation rfl
    split
    · exact held_refuse _
    · exact .of_read rfl rfl hpending
  case authorizeSignupKeys input invitation =>
    have hpending := h.1 invitation rfl
    split
    · exact held_refuse _
    · exact .of_read rfl rfl hpending
  case loadPendingInvitation userId key answer =>
    split
    · exact held_refuse _
    · next invitation team hload =>
      have hpending := loadPending_pending hload
      cases answer with
      | decline => exact .of_read rfl rfl hpending
      | accept =>
        dsimp only
        split
        · exact .of_read rfl rfl hpending
        · split
          · exact held_refuse _
          · exact .of_read rfl rfl hpending
  case loadInvitee userId invitation answer =>
    have hpending := h.1 invitation rfl
    split
    · exact held_refuse _
    · split
      · exact held_refuse _
      · cases answer with
        | decline => exact .of_read rfl rfl hpending
        | accept =>
          dsimp only
          split
          · exact held_refuse _
          · exact .of_read rfl rfl hpending
  case authorizeAcceptKeys userId invitation =>
    have hpending := h.1 invitation rfl
    split
    · exact held_refuse _
    · exact .of_read rfl rfl hpending
  case loadManaged =>
    split
    · exact held_refuse _
    · split <;> exact .of_none rfl rfl
  case loadManager actorId invitation entitled action =>
    split
    · exact held_refuse _
    · split
      · exact held_refuse _
      · cases action <;> exact .of_none rfl rfl
  case loadSender =>
    split
    · exact held_refuse _
    · split
      · exact held_refuse _
      · split <;> exact .of_none rfl rfl
  case loadTeam =>
    split
    · exact held_refuse _
    · split
      · exact held_refuse _
      · split <;> exact .of_none rfl rfl
  case countMembers => exact .of_none rfl rfl
  case countPending => split <;> exact .of_none rfl rfl
  case loadExistingUser => split <;> exact .of_none rfl rfl
  case hasPendingInvitation => split <;> exact .of_none rfl rfl
  case authorizeSendKeys => split <;> exact .of_none rfl rfl
  all_goals cases hr

end AdmissionAwait

/-! ## Counting -/

namespace AdmissionTables

variable {db db' : AdmissionTables} {account : Account} {accounts : Table Account.id} {teamId : String}

theorem insertAccount_ok (h : db.insertAccount account = .ok accounts) : db.accounts.insert account = some accounts := by
  simp only [insertAccount] at h
  split at h
  · cases h
  · split at h
    · cases h
    · next hins => cases h; exact hins

/-- An account that is put into a team leaves the others with no more members. -/
theorem count_setTeam_le (userId teamId' : String) (role : TeamRole) :
    (db.setTeam userId teamId' role).count (·.teamId = some teamId) ≤
      db.members teamId + if teamId' = teamId then 1 else 0 := by
  cases hr : db.accounts.get? userId with
  | none =>
    rw [setTeam, Table.updateWhere_of_none hr]
    exact Nat.le_add_right _ _
  | some r =>
    obtain ⟨hmem, rfl⟩ := Table.get?_eq_some.mp hr
    have hcount : (db.setTeam r.id teamId' role).count (·.teamId = some teamId) +
        (if decide (r.teamId = some teamId) = true then 1 else 0) =
          db.members teamId + if decide (some teamId' = some teamId) = true then 1 else 0 :=
      Table.count_updateWhere_key hmem
    simp only [decide_eq_true_eq, Option.some.injEq] at hcount
    omega

theorem mem_setTeam {userId teamId' : String} {role : TeamRole} {x : Account} (hx : x ∈ db.setTeam userId teamId' role) :
    ∃ r ∈ db.accounts.rows, (r.id = userId ∧ x.teamId = some teamId') ∨ x.teamId = r.teamId := by
  obtain ⟨r, hr, rfl⟩ := Table.mem_updateWhere.mp hx
  by_cases hid : r.id = userId
  · exact ⟨r, hr, .inl ⟨hid, by simp [hid]⟩⟩
  · exact ⟨r, hr, .inr (by simp [hid])⟩

theorem count_uninvited_setTeam (userId teamId' : String) (role : TeamRole) :
    (db.setTeam userId teamId' role).count (·.uninvited) ≤ db.accounts.count (·.uninvited) :=
  Table.count_updateWhere_le fun _ _ _ h => h

theorem count_setStatus_le {status : InvitationStatus} (hstatus : status ≠ .pending) (invitationId : String) :
    (db.setStatus invitationId status).count (·.isPendingIn teamId) ≤ db.pendingInvitations teamId :=
  Table.count_updateWhere_le fun r _ _ h => by
    simp [TeamInvitation.isPendingIn, TeamInvitation.setStatus, hstatus] at h

/-- An invitation that is no longer pending leaves its place. -/
theorem count_setStatus_lt {status : InvitationStatus} (hstatus : status ≠ .pending) {r : TeamInvitation}
    (hr : r ∈ db.invitations) (hpending : r.status = .pending) :
    (db.setStatus r.id status).count (·.isPendingIn r.teamId) + 1 = db.pendingInvitations r.teamId := by
  have hcount : (db.setStatus r.id status).count (·.isPendingIn r.teamId) +
      (if r.isPendingIn r.teamId = true then 1 else 0) =
        db.pendingInvitations r.teamId + if (r.setStatus status).isPendingIn r.teamId = true then 1 else 0 :=
    Table.count_updateWhere_key hr
  have hbefore : r.isPendingIn r.teamId = true := by simp [TeamInvitation.isPendingIn, hpending]
  have hafter : (r.setStatus status).isPendingIn r.teamId = false := by
    simp [TeamInvitation.isPendingIn, TeamInvitation.setStatus, hstatus]
  simp only [hbefore, hafter, if_true, Bool.false_eq_true, if_false] at hcount
  exact hcount

theorem mem_setStatus {status : InvitationStatus} {invitationId : String} {x : TeamInvitation}
    (hx : x ∈ db.setStatus invitationId status) :
    ∃ r ∈ db.invitations.rows, x.id = r.id ∧ x.teamId = r.teamId ∧
      (r.id = invitationId ∧ x.status = status ∨ r.id ≠ invitationId ∧ x.status = r.status) := by
  obtain ⟨r, hr, rfl⟩ := Table.mem_updateWhere.mp hx
  refine ⟨r, hr, ?_⟩
  by_cases hid : r.id = invitationId
  · simp [hid, TeamInvitation.setStatus]
  · simp [hid]

theorem team_of_get? (h : ¬ (db.teams.get? teamId).isNone = true) : ∃ t ∈ db.teams.rows, t.id = teamId := by
  cases ht : db.teams.get? teamId with
  | none => exact absurd (by rw [ht]; rfl) h
  | some t => exact ⟨t, Table.get?_eq_some.1 ht⟩

theorem mem_reopen {invitationId tokenHash : String} {expiresAt : Time} {x : TeamInvitation}
    (hx : x ∈ db.reopen invitationId tokenHash expiresAt) :
    ∃ r ∈ db.invitations.rows, x.id = r.id ∧ x.teamId = r.teamId ∧ (r.id = invitationId ∨ x = r) := by
  obtain ⟨r, hr, rfl⟩ := Table.mem_updateWhere.mp hx
  refine ⟨r, hr, ?_⟩
  by_cases hid : r.id = invitationId
  · simp [hid, TeamInvitation.reopen]
  · simp [hid]

/-- An invitation that is pending again has its place, which it may have had before. -/
theorem count_reopen {r : TeamInvitation} (hr : r ∈ db.invitations) (tokenHash : String) (expiresAt : Time)
    (teamId : String) :
    (db.reopen r.id tokenHash expiresAt).count (·.isPendingIn teamId) +
        (if r.teamId = teamId ∧ r.status = .pending then 1 else 0) =
      db.pendingInvitations teamId + if r.teamId = teamId then 1 else 0 := by
  have hcount : (db.reopen r.id tokenHash expiresAt).count (·.isPendingIn teamId) +
      (if r.isPendingIn teamId = true then 1 else 0) =
        db.pendingInvitations teamId + if (r.reopen tokenHash expiresAt).isPendingIn teamId = true then 1 else 0 :=
    Table.count_updateWhere_key hr
  have hbefore : (r.isPendingIn teamId = true) ↔ r.teamId = teamId ∧ r.status = .pending := by
    simp [TeamInvitation.isPendingIn]
  have hafter : ((r.reopen tokenHash expiresAt).isPendingIn teamId = true) ↔ r.teamId = teamId := by
    rw [TeamInvitation.isPendingIn, TeamInvitation.reopen]
    simp
  simp only [hbefore, hafter] at hcount
  exact hcount

end AdmissionTables

/-! ## The invariant -/

structure Admitted (config : AdmissionConfig) (db : AdmissionTables) (history : List InvitationFact) : Prop where
  /-- The foreign keys. -/
  accountTeams : ∀ r ∈ db.accounts.rows, ∀ teamId ∈ r.teamId, ∃ t ∈ db.teams.rows, t.id = teamId
  invitationTeams : ∀ r ∈ db.invitations.rows, ∃ t ∈ db.teams.rows, t.id = r.teamId
  /-- A pending invitation has its place reserved. -/
  reserved : ∀ t ∈ db.teams.rows, ∀ limit ∈ t.memberLimit, db.taken t.id ≤ limit
  selfHosted : config.mode = .selfHosted → db.accounts.count (·.uninvited) ≤ 1
  closed : ∀ f ∈ history, ∀ r ∈ db.invitations.rows, f.closes r.id = true → r.status = .accepted ∨ r.status = .declined
  pending : ∀ invitationId accountId found now, .accepted invitationId accountId found now ∈ history →
    ∃ r, found = some r ∧ r.status = .pending ∧ now ≤ r.expiresAt
  once : history.Pairwise fun later earlier => ∀ id, later.admits id = true → earlier.closes id = false

namespace Admitted

variable {config : AdmissionConfig} {db db' : AdmissionTables} {history : List InvitationFact} {now : Time}

/-- The accounts change and an invitation is not pending any more. -/
theorem setStatus (h : Admitted config db history) {status : InvitationStatus} (hstatus : status ≠ .pending)
    {invitationId : String} {accounts : Table Account.id} {fact : Option InvitationFact}
    (hteams : ∀ r ∈ accounts.rows, ∀ teamId ∈ r.teamId, ∃ t ∈ db.teams.rows, t.id = teamId)
    (hself : config.mode = .selfHosted → accounts.count (·.uninvited) ≤ 1)
    (hreserved : ∀ teamId, accounts.count (·.teamId = some teamId) +
      (db.setStatus invitationId status).count (·.isPendingIn teamId) ≤ db.taken teamId)
    (hexpired : status = .expired → ∀ r ∈ db.invitations.rows, r.id = invitationId → r.status = .pending)
    (hcloses : ∀ f ∈ fact, status ≠ .expired ∧ ∀ id, f.closes id = true → id = invitationId)
    (hadmits : ∀ f ∈ fact, ∀ id accountId found now, f = .accepted id accountId found now →
      ∃ r ∈ db.invitations.rows, r.id = id ∧ found = some r ∧ r.status = .pending ∧ now ≤ r.expiresAt) :
    Admitted config { db with accounts, invitations := db.setStatus invitationId status } (fact.toList ++ history) where
  accountTeams := hteams
  invitationTeams x hx := by
    obtain ⟨r, hr, -, hteam, -⟩ := AdmissionTables.mem_setStatus hx
    rw [hteam]
    exact h.invitationTeams r hr
  reserved t ht limit hlimit := Nat.le_trans (hreserved t.id) (h.reserved t ht limit hlimit)
  selfHosted := hself
  closed f hf x hx hcloses' := by
    obtain ⟨r, hr, hid, -, ⟨hr', hstatus'⟩ | ⟨hr', hstatus'⟩⟩ := AdmissionTables.mem_setStatus hx
    · rw [hstatus']
      cases hcase : status with
      | accepted => exact .inl rfl
      | declined => exact .inr rfl
      | pending => exact absurd hcase hstatus
      | expired =>
        rcases List.mem_append.mp hf with hf | hf
        · exact absurd hcase (hcloses f (Option.mem_toList.mp hf)).1
        · have hpending := hexpired hcase r hr hr'
          have hclosed := h.closed f hf r hr (hid ▸ hcloses')
          rw [hpending] at hclosed
          simp at hclosed
    · rw [hstatus']
      rcases List.mem_append.mp hf with hf | hf
      · exact absurd (hid ▸ (hcloses f (Option.mem_toList.mp hf)).2 _ hcloses') hr'
      · exact h.closed f hf r hr (hid ▸ hcloses')
  pending id accountId found now hf := by
    rcases List.mem_append.mp hf with hf | hf
    · obtain ⟨r, -, -, hfound⟩ := hadmits _ (Option.mem_toList.mp hf) _ _ _ _ rfl
      exact ⟨r, hfound⟩
    · exact h.pending _ _ _ _ hf
  once := by
    refine List.pairwise_append.mpr ⟨?_, h.once, fun f hf f' hf' id hid => ?_⟩
    · cases fact <;> simp
    · refine Bool.eq_false_iff.mpr fun hcloses' => ?_
      cases hcase : f with
      | declined _ => simp [hcase, InvitationFact.admits] at hid
      | cancelled _ => simp [hcase, InvitationFact.admits] at hid
      | accepted id' accountId found now =>
        obtain ⟨r, hr, hrid, -, hpending, -⟩ := hadmits _ (Option.mem_toList.mp hf) _ _ _ _ hcase
        simp only [hcase, InvitationFact.admits, decide_eq_true_eq] at hid
        have hclosed := h.closed f' hf' r hr (by rw [hrid, hid]; exact hcloses')
        rw [hpending] at hclosed
        simp at hclosed

/-- Whoever a pending invitation admits takes its place. -/
theorem taken_setStatus {status : InvitationStatus} (hstatus : status ≠ .pending) {r : TeamInvitation}
    (hr : r ∈ db.invitations) (hpending : r.status = .pending) {accounts : Table Account.id}
    (haccounts : ∀ teamId, accounts.count (·.teamId = some teamId) ≤
      db.members teamId + if r.teamId = teamId then 1 else 0) (teamId : String) :
    accounts.count (·.teamId = some teamId) + (db.setStatus r.id status).count (·.isPendingIn teamId) ≤
      db.taken teamId := by
  have hmembers := haccounts teamId
  have hle : (db.setStatus r.id status).count (·.isPendingIn teamId) ≤ db.pendingInvitations teamId :=
    AdmissionTables.count_setStatus_le hstatus r.id
  unfold AdmissionTables.taken
  split at hmembers
  · next heq =>
    have hlt := AdmissionTables.count_setStatus_lt hstatus hr hpending
    rw [heq] at hlt
    omega
  · omega

/-- A joining transaction that finds the invitation as it was read. -/
theorem joins (h : Admitted config db history) {invitation : TeamInvitation} (hpending : invitation.status = .pending)
    (hC : ∃ r ∈ db.invitations.rows, invitation.Unchanged r ∧ now ≤ r.expiresAt) {accounts : Table Account.id}
    {accountId : String}
    (hteams : ∀ r ∈ accounts.rows, ∀ teamId ∈ r.teamId, ∃ t ∈ db.teams.rows, t.id = teamId)
    (hself : accounts.count (·.uninvited) ≤ db.accounts.count (·.uninvited))
    (haccounts : ∀ teamId, accounts.count (·.teamId = some teamId) ≤
      db.members teamId + if invitation.teamId = teamId then 1 else 0) :
    Admitted config { db with accounts, invitations := db.setStatus invitation.id .accepted }
      (.accepted invitation.id accountId (db.invitations.get? invitation.id) now :: history) := by
  obtain ⟨r, hr, hsame, hnow⟩ := hC
  obtain ⟨hid, hteam, hstatus⟩ := hsame.eq
  rw [hpending] at hstatus
  have hget : db.invitations.get? invitation.id = some r := Table.get?_eq_some.mpr ⟨hr, hid⟩
  have hreserved : ∀ teamId, accounts.count (·.teamId = some teamId) +
      (db.setStatus invitation.id .accepted).count (·.isPendingIn teamId) ≤ db.taken teamId := by
    intro teamId
    rw [← hid]
    exact taken_setStatus (by decide) hr hstatus (by rw [hteam]; exact haccounts) teamId
  have hcloses : ∀ f ∈ some (InvitationFact.accepted invitation.id accountId (db.invitations.get? invitation.id) now),
      InvitationStatus.accepted ≠ .expired ∧ ∀ id, f.closes id = true → id = invitation.id := by
    intro f hf
    cases hf
    exact ⟨by decide, fun id hid' => by simpa [InvitationFact.closes, eq_comm] using hid'⟩
  refine h.setStatus (by decide) hteams (fun hmode => Nat.le_trans hself (h.selfHosted hmode)) hreserved (by simp) hcloses ?_
  intro f hf id accountId' found now' heq
  cases hf
  cases heq
  exact ⟨r, hr, hid, hget, hstatus, hnow⟩

theorem expire (h : Admitted config db history) {invitationId : String}
    (hpending : ∀ r ∈ db.invitations.rows, r.id = invitationId → r.status = .pending) :
    Admitted config { db with invitations := db.setStatus invitationId .expired } history :=
  @setStatus _ _ _ h .expired (by decide) invitationId db.accounts none h.accountTeams h.selfHosted
    (fun _ => Nat.add_le_add_left (AdmissionTables.count_setStatus_le (by decide) invitationId) _)
    (fun _ => hpending) nofun nofun

theorem decline (h : Admitted config db history) (invitationId : String) :
    Admitted config { db with invitations := db.setStatus invitationId .declined } (.declined invitationId :: history) := by
  have hcloses : ∀ f ∈ some (InvitationFact.declined invitationId),
      InvitationStatus.declined ≠ .expired ∧ ∀ id, f.closes id = true → id = invitationId := by
    intro f hf
    cases hf
    exact ⟨by decide, fun id hid => by simpa [InvitationFact.closes, eq_comm] using hid⟩
  refine h.setStatus (by decide) h.accountTeams h.selfHosted (fun teamId => ?_) (by simp) hcloses ?_
  · exact Nat.add_le_add_left (AdmissionTables.count_setStatus_le (by decide) invitationId) _
  · intro f hf id accountId found now heq
    cases hf
    cases heq

theorem members_of_absent (h : Admitted config db history) {teamId : String} (habsent : ∀ t ∈ db.teams, t.id ≠ teamId) :
    db.members teamId = 0 := by
  refine Table.count_eq_zero.2 fun r hr => decide_eq_false fun hteam => ?_
  obtain ⟨t, ht, hid⟩ := h.accountTeams r hr teamId hteam
  exact habsent t ht hid

theorem pending_of_absent (h : Admitted config db history) {teamId : String} (habsent : ∀ t ∈ db.teams, t.id ≠ teamId) :
    db.pendingInvitations teamId = 0 := by
  refine Table.count_eq_zero.2 fun r hr => ?_
  obtain ⟨t, ht, hid⟩ := h.invitationTeams r hr
  have hne : r.teamId ≠ teamId := fun heq => habsent t ht (hid.trans heq)
  simp [TeamInvitation.isPendingIn, hne]

/-- Invitations only go. -/
theorem uninvite (h : Admitted config db history) (p : TeamInvitation → Bool) :
    Admitted config { db with invitations := db.invitations.deleteWhere p } history where
  accountTeams := h.accountTeams
  invitationTeams r hr := h.invitationTeams r (Table.mem_deleteWhere.1 hr).1
  reserved t ht limit hlimit :=
    Nat.le_trans (Nat.add_le_add_left Table.count_deleteWhere_le _) (h.reserved t ht limit hlimit)
  selfHosted := h.selfHosted
  closed f hf r hr := h.closed f hf r (Table.mem_deleteWhere.1 hr).1
  pending := h.pending
  once := h.once

theorem cancel (h : Admitted config db history) (invitationId : String) :
    Admitted config { db with invitations := db.invitations.deleteWhere (·.id = invitationId) }
      (.cancelled invitationId :: history) :=
  let hgone := h.uninvite fun r => decide (r.id = invitationId)
  { hgone with
    closed := by
      intro f hf r hr hcloses
      rcases List.mem_cons.1 hf with rfl | hf
      · have hid := (Table.mem_deleteWhere.1 hr).2
        simp only [InvitationFact.closes, decide_eq_true_eq] at hcloses
        simp [hcloses] at hid
      · exact hgone.closed f hf r hr hcloses
    pending := fun id accountId found now hf => by
      rcases List.mem_cons.1 hf with hf | hf
      · cases hf
      · exact h.pending id accountId found now hf
    once := List.pairwise_cons.2 ⟨fun f _ id hid => by simp [InvitationFact.admits] at hid, h.once⟩ }

/-- An invitation that is pending, or has expired and finds room, is pending again. -/
theorem resend (h : Admitted config db history) {invitationId tokenHash : String} {expiresAt : Time}
    (hC : ∀ r ∈ db.invitations.rows, r.id = invitationId → r.status = .pending ∨ r.status = .expired ∧ db.HasRoom r.teamId) :
    Admitted config { db with invitations := db.reopen invitationId tokenHash expiresAt } history where
  accountTeams := h.accountTeams
  invitationTeams x hx := by
    obtain ⟨r, hr, -, hteam, -⟩ := AdmissionTables.mem_reopen hx
    rw [hteam]
    exact h.invitationTeams r hr
  reserved t ht limit hlimit := by
    have hreserved := h.reserved t ht limit hlimit
    show db.members t.id + (db.reopen invitationId tokenHash expiresAt).count (·.isPendingIn t.id) ≤ limit
    unfold AdmissionTables.taken at hreserved
    cases hr : db.invitations.get? invitationId with
    | none =>
      have hsame : db.reopen invitationId tokenHash expiresAt = db.invitations := Table.updateWhere_of_none hr
      rw [hsame]
      exact hreserved
    | some r =>
      obtain ⟨hmem, rfl⟩ := Table.get?_eq_some.1 hr
      have hcount := AdmissionTables.count_reopen hmem tokenHash expiresAt t.id
      rcases hC r hmem rfl with hpending | ⟨-, hroom⟩
      · simp only [hpending, and_true] at hcount
        omega
      · by_cases heq : r.teamId = t.id
        · have hlt := hroom t ht heq.symm limit hlimit
          rw [heq, AdmissionTables.taken] at hlt
          rw [if_pos heq] at hcount
          omega
        · rw [if_neg heq] at hcount
          omega
  selfHosted := h.selfHosted
  closed f hf x hx hcloses := by
    obtain ⟨r, hr, hid, -, hopened⟩ := AdmissionTables.mem_reopen hx
    have hclosed := h.closed f hf r hr (hid ▸ hcloses)
    rcases hopened with heq | rfl
    · -- An invitation that has been closed is neither pending nor expired.
      rcases hC r hr heq with hopen | ⟨hopen, -⟩ <;> simp [hopen] at hclosed
    · exact hclosed
  pending := h.pending
  once := h.once

theorem send (h : Admitted config db history) {invitation : TeamInvitation} {invitations : Table TeamInvitation.id}
    (hins : db.invitations.insert invitation = some invitations) (hteam : ∃ t ∈ db.teams.rows, t.id = invitation.teamId)
    (hnew : ∀ f ∈ history, f.closes invitation.id = false) (hroom : db.HasRoom invitation.teamId) :
    Admitted config { db with invitations } history where
  accountTeams := h.accountTeams
  invitationTeams r hr := by
    rcases (Table.mem_insert hins r).1 hr with hr | rfl
    · exact h.invitationTeams r hr
    · exact hteam
  reserved t ht limit hlimit := by
    have hreserved := h.reserved t ht limit hlimit
    show db.members t.id + invitations.count (·.isPendingIn t.id) ≤ limit
    rw [Table.count_insert hins]
    unfold AdmissionTables.taken AdmissionTables.pendingInvitations at hreserved
    split
    · next hpending =>
      have heq : t.id = invitation.teamId := by
        simp only [TeamInvitation.isPendingIn, Bool.and_eq_true, decide_eq_true_eq] at hpending
        exact hpending.1.symm
      have hlt := hroom t ht heq limit hlimit
      rw [← heq] at hlt
      unfold AdmissionTables.taken AdmissionTables.pendingInvitations at hlt
      omega
    · omega
  selfHosted := h.selfHosted
  closed f hf r hr hcloses := by
    rcases (Table.mem_insert hins r).1 hr with hr | rfl
    · exact h.closed f hf r hr hcloses
    · rw [hnew f hf] at hcloses
      cases hcloses
  pending := h.pending
  once := h.once

/-- An account with a team of its own. -/
theorem signup (h : Admitted config db history) {account : Account} {team : LimitedTeam} {accounts : Table Account.id}
    {teams : Table LimitedTeam.id} (haccounts : db.accounts.insert account = some accounts)
    (hteams : db.teams.insert team = some teams) (hteam : account.teamId = some team.id)
    (hlimit : ∀ limit ∈ team.memberLimit, 1 ≤ limit) (hfirst : config.mode = .selfHosted → db.accounts.rows = []) :
    Admitted config { db with accounts, teams } history where
  accountTeams r hr teamId hteamId := by
    rcases (Table.mem_insert haccounts r).1 hr with hr | rfl
    · obtain ⟨t, ht, hid⟩ := h.accountTeams r hr teamId hteamId
      exact ⟨t, (Table.mem_insert hteams t).2 (.inl ht), hid⟩
    · rw [hteam] at hteamId
      cases hteamId
      exact ⟨team, (Table.mem_insert hteams team).2 (.inr rfl), rfl⟩
  invitationTeams r hr := by
    obtain ⟨t, ht, hid⟩ := h.invitationTeams r hr
    exact ⟨t, (Table.mem_insert hteams t).2 (.inl ht), hid⟩
  reserved t ht limit hlimit' := by
    have hcount : accounts.count (·.teamId = some t.id) = db.members t.id + if team.id = t.id then 1 else 0 := by
      simp [Table.count_insert haccounts, hteam, AdmissionTables.members]
    show accounts.count (·.teamId = some t.id) + db.pendingInvitations t.id ≤ limit
    rw [hcount]
    rcases (Table.mem_insert hteams t).1 ht with ht | rfl
    · have hreserved := h.reserved t ht limit hlimit'
      have hne := Table.insert_fresh hteams t ht
      simp only [if_neg (Ne.symm hne), AdmissionTables.taken] at hreserved ⊢
      omega
    · -- Nothing refers to a team that was not there.
      have hmembers := h.members_of_absent (Table.insert_fresh hteams)
      have hpending := h.pending_of_absent (Table.insert_fresh hteams)
      have := hlimit limit hlimit'
      simp only [if_true]
      omega
  selfHosted hmode := by
    have hnone : db.accounts.count (·.uninvited) = 0 := by
      rw [Table.count, hfirst hmode]
      rfl
    rw [Table.count_insert haccounts, hnone]
    split <;> omega
  closed := h.closed
  pending := h.pending
  once := h.once

/-- What a request writes, when it is not disturbed. -/
theorem write (h : Admitted config db history) {w : AdmissionWrite} (hread : ∀ r ∈ w.read, r.status = .pending)
    (hnew : ∀ invitation, w = .send invitation → ∀ f ∈ history, f.closes invitation.id = false)
    (hlimit : ∀ account team, w = .signup account team → ∀ limit ∈ team.memberLimit, 1 ≤ limit)
    (hC : db.Undisturbed config.mode now w) (hw : db.write w = .ok db') :
    Admitted config db' ((db.fact now w).toList ++ history) := by
  cases w with
  | signup account team =>
    simp only [AdmissionTables.write] at hw
    obtain ⟨accounts, haccounts, hw⟩ := Except.bind_ok_iff.1 hw
    split at hw
    · cases hw
    · next teams hteams =>
      cases hw
      exact h.signup (AdmissionTables.insertAccount_ok haccounts) hteams rfl (hlimit _ _ rfl) hC
  | signupWithInvitation account invitation =>
    simp only [AdmissionTables.write] at hw
    obtain ⟨accounts, haccounts, hw⟩ := Except.bind_ok_iff.1 hw
    split at hw
    · cases hw
    · next hteam =>
      cases hw
      have hins := AdmissionTables.insertAccount_ok haccounts
      refine h.joins (hread _ rfl) hC (fun r hr teamId hteamId => ?_) ?_ fun teamId => ?_
      · rcases (Table.mem_insert hins r).1 hr with hr | rfl
        · exact h.accountTeams r hr teamId hteamId
        · cases hteamId
          exact AdmissionTables.team_of_get? hteam
      · simp [Table.count_insert hins]
      · simp [Table.count_insert hins, AdmissionTables.members]
  | accept userId invitation =>
    simp only [AdmissionTables.write] at hw
    split at hw
    · cases hw
    · next hteam =>
      cases hw
      refine h.joins (hread _ rfl) hC (fun r hr teamId hteamId => ?_) (AdmissionTables.count_uninvited_setTeam ..)
        fun teamId => AdmissionTables.count_setTeam_le ..
      obtain ⟨r', hr', ⟨hid, hset⟩ | hsame⟩ := AdmissionTables.mem_setTeam hr
      · rw [hset] at hteamId
        cases hteamId
        refine AdmissionTables.team_of_get? fun hnone => hteam ⟨?_, hnone⟩
        exact Table.isSome_get?_iff.2 ⟨r', hr', hid⟩
      · exact h.accountTeams r' hr' teamId (hsame ▸ hteamId)
  | expire invitation =>
    cases hw
    have hpending : ∀ r ∈ db.invitations.rows, r.id = invitation.id → r.status = .pending := fun r hr hid =>
      (hC r hr hid).eq.2.2.trans (hread _ rfl)
    exact h.expire hpending
  | decline invitation =>
    cases hw
    exact h.decline invitation.id
  | cancel invitationId =>
    cases hw
    exact h.cancel invitationId
  | resend invitationId tokenHash expiresAt =>
    cases hw
    exact h.resend hC
  | send invitation =>
    simp only [AdmissionTables.write] at hw
    split at hw
    · cases hw
    · next hkeys =>
      split at hw
      · cases hw
      · next invitations hins =>
        cases hw
        refine h.send hins (AdmissionTables.team_of_get? fun hnone => hkeys (.inl hnone)) (hnew _ rfl) hC

/-! ### Other requests -/

/-- The teams keep their ids and limits. -/
theorem bill (h : Admitted config db history) (teamId : String) (plan : BillingPlan) (status : BillingStatus) :
    Admitted config (db.bill teamId plan status) history := by
  have hteams : ∀ t ∈ db.teams.rows, ∃ t' ∈ (db.bill teamId plan status).teams.rows, t'.id = t.id := fun t ht =>
    ⟨_, List.mem_map_of_mem ht, by dsimp only; split <;> rfl⟩
  refine ⟨fun r hr teamId' hteam => ?_, fun r hr => ?_, fun t ht limit hlimit => ?_, h.selfHosted, h.closed, h.pending,
    h.once⟩
  · obtain ⟨t, ht, rfl⟩ := h.accountTeams r hr teamId' hteam
    exact hteams t ht
  · obtain ⟨t, ht, hid⟩ := h.invitationTeams r hr
    rw [← hid]
    exact hteams t ht
  · obtain ⟨t', ht', rfl⟩ := List.mem_map.1 ht
    have hid : (if decide (t'.id = teamId) = true then { t' with billingPlan := plan, billingStatus := status }
      else t').id = t'.id := by split <;> rfl
    have hsame : (if decide (t'.id = teamId) = true then { t' with billingPlan := plan, billingStatus := status }
      else t').memberLimit = t'.memberLimit := by split <;> rfl
    rw [hsame] at hlimit
    rw [hid]
    exact h.reserved t' ht' limit hlimit

/-- A user is put into a new team, which has room for one. -/
theorem createPersonalTeam (h : Admitted config db history) {userId personalTeamId : String}
    (hw : db.createPersonalTeam userId personalTeamId = some db') : Admitted config db' history := by
  simp only [AdmissionTables.createPersonalTeam, Option.bind_eq_bind, Option.bind_eq_some_iff, Option.pure_def,
    Option.some.injEq] at hw
  obtain ⟨teams, hteams, rfl⟩ := hw
  have hold : ∀ t ∈ db.teams.rows, t ∈ teams.rows := fun t ht => (Table.mem_insert hteams t).2 (.inl ht)
  refine ⟨fun r hr teamId hteam => ?_, fun r hr => ?_, fun t ht limit hlimit => ?_, fun hmode => ?_, h.closed,
    h.pending, h.once⟩
  · obtain ⟨r', hr', ⟨-, hset⟩ | hsame⟩ := AdmissionTables.mem_setTeam hr
    · rw [hset] at hteam
      cases hteam
      exact ⟨_, (Table.mem_insert hteams _).2 (.inr rfl), rfl⟩
    · obtain ⟨t, ht, hid⟩ := h.accountTeams r' hr' teamId (hsame ▸ hteam)
      exact ⟨t, hold t ht, hid⟩
  · obtain ⟨t, ht, hid⟩ := h.invitationTeams r hr
    exact ⟨t, hold t ht, hid⟩
  · have hmembers : (db.setTeam userId personalTeamId .owner).count (·.teamId = some t.id) ≤
        db.members t.id + if personalTeamId = t.id then 1 else 0 := AdmissionTables.count_setTeam_le ..
    show (db.setTeam userId personalTeamId .owner).count (·.teamId = some t.id) + db.pendingInvitations t.id ≤ limit
    rcases (Table.mem_insert hteams t).1 ht with ht | heq
    · have hreserved := h.reserved t ht limit hlimit
      have hne := Table.insert_fresh hteams t ht
      rw [if_neg (Ne.symm hne)] at hmembers
      unfold AdmissionTables.taken at hreserved
      omega
    · rw [← heq] at hteams
      have hnone := h.members_of_absent (Table.insert_fresh hteams)
      have hpending := h.pending_of_absent (Table.insert_fresh hteams)
      rw [if_pos (by rw [heq]), hnone] at hmembers
      rw [heq] at hlimit
      cases hlimit
      omega
  · exact Nat.le_trans (AdmissionTables.count_uninvited_setTeam ..) (h.selfHosted hmode)

/-- Accounts, teams and invitations go, but no team that something refers to. -/
theorem delete (h : Admitted config db history) {accounts : Table Account.id} {pt : LimitedTeam → Bool}
    {pi : TeamInvitation → Bool} (hstay : accounts.rows.Sublist db.accounts.rows)
    (haccounts : ∀ r ∈ accounts.rows, ∀ t ∈ db.teams.rows, pt t = true → r.teamId ≠ some t.id)
    (hinvitations : ∀ r ∈ db.invitations.rows, ∀ t ∈ db.teams.rows, pt t = true → r.teamId = t.id → pi r = true) :
    Admitted config ⟨accounts, db.teams.deleteWhere pt, db.invitations.deleteWhere pi⟩ history where
  accountTeams r hr teamId hteam := by
    obtain ⟨t, ht, rfl⟩ := h.accountTeams r (hstay.mem hr) teamId hteam
    exact ⟨t, Table.mem_deleteWhere.2 ⟨ht, Bool.eq_false_iff.2 fun hgone => haccounts r hr t ht hgone hteam⟩, rfl⟩
  invitationTeams r hr := by
    obtain ⟨hr, hstays⟩ := Table.mem_deleteWhere.1 hr
    obtain ⟨t, ht, hid⟩ := h.invitationTeams r hr
    refine ⟨t, Table.mem_deleteWhere.2 ⟨ht, Bool.eq_false_iff.2 fun hgone => ?_⟩, hid⟩
    rw [hinvitations r hr t ht hgone hid.symm] at hstays
    cases hstays
  reserved t ht limit hlimit := by
    have hreserved := h.reserved t (Table.mem_deleteWhere.1 ht).1 limit hlimit
    exact Nat.le_trans (Nat.add_le_add hstay.countP_le Table.count_deleteWhere_le) hreserved
  selfHosted hmode := Nat.le_trans hstay.countP_le (h.selfHosted hmode)
  closed f hf r hr := h.closed f hf r (Table.mem_deleteWhere.1 hr).1
  pending := h.pending
  once := h.once

theorem deleteAccount (h : Admitted config db history) {userId : String} (hw : db.deleteAccount userId = some db') :
    Admitted config db' history := by
  simp only [AdmissionTables.deleteAccount] at hw
  split at hw
  · cases hw
  · next hblocked =>
    cases hw
    rw [Bool.not_eq_true, Table.any_eq_false] at hblocked
    have howned : ∀ t ∈ db.teams.rows, t.ownerId = userId →
        (db.teams.any fun x => x.id = t.id && x.ownerId = userId) = true := fun t ht howner =>
      Table.any_eq_true.2 ⟨t, ht, by simp [howner]⟩
    refine h.delete List.filter_sublist (fun r hr t ht hgone hteam => ?_) fun r hr t ht hgone hteam => ?_
    · obtain ⟨hr, hother⟩ := Table.mem_deleteWhere.1 hr
      have hblocked := hblocked r hr
      simp only [decide_eq_false_iff_not] at hother
      simp [hother, hteam, howned t ht (of_decide_eq_true hgone)] at hblocked
    · simp [hteam, howned t ht (of_decide_eq_true hgone)]

/-- The owner is the last member, and has left into a personal team before the team goes. -/
theorem deleteTeam (h : Admitted config db history) {userId personalTeamId : String}
    (hw : db.deleteTeam userId personalTeamId = some db') : Admitted config db' history := by
  simp only [AdmissionTables.deleteTeam, Option.bind_eq_bind, Option.bind_eq_some_iff] at hw
  obtain ⟨actor, hactor, teamId, hteam, team, hget, hw⟩ := hw
  split at hw
  · cases hw
  · next hguard =>
    obtain ⟨db₁, hcreate, hw⟩ := Option.bind_eq_some_iff.1 hw
    cases hw
    have h₁ := h.createPersonalTeam hcreate
    simp only [AdmissionTables.createPersonalTeam, Option.bind_eq_bind, Option.bind_eq_some_iff, Option.pure_def,
      Option.some.injEq] at hcreate
    obtain ⟨teams, hins, rfl⟩ := hcreate
    obtain ⟨hmem, rfl⟩ := Table.get?_eq_some.1 hactor
    obtain ⟨hteamMem, rfl⟩ := Table.get?_eq_some.1 hget
    have hother : personalTeamId ≠ team.id := fun heq => Table.insert_fresh hins team hteamMem heq.symm
    have hone : db.members team.id = 1 := by
      simp only [ne_eq, not_or, not_not] at hguard
      exact hguard.2.2
    have hcount : (db.setTeam actor.id personalTeamId .owner).count (·.teamId = some team.id) +
        (if decide (actor.teamId = some team.id) = true then 1 else 0) =
          db.members team.id + if decide (some personalTeamId = some team.id) = true then 1 else 0 :=
      Table.count_updateWhere_key hmem
    simp only [hteam, hother, decide_true, if_true, Option.some.injEq, decide_false, Bool.false_eq_true, if_false] at hcount
    have hnone : (db.setTeam actor.id personalTeamId .owner).count (·.teamId = some team.id) = 0 := by omega
    refine h₁.delete (List.Sublist.refl _) (fun r hr t ht hgone hteam' => ?_) fun r hr t ht hgone hteam' => ?_
    · have hzero := Table.count_eq_zero.1 hnone r hr
      rw [of_decide_eq_true hgone] at hteam'
      simp [hteam'] at hzero
    · simpa [hteam'] using hgone

end Admitted

/-! ## Runs -/

namespace AdmissionState

variable {config : AdmissionConfig} {q q' : AdmissionState} {now : Time}

structure Sound (config : AdmissionConfig) (q : AdmissionState) : Prop where
  admitted : Admitted config q.tables q.history
  held : ∀ t ∈ q.requests, t.Held

theorem Sound.start (h : q.Sound config) {t : AdmissionAwait} (ht : t.Held) : (q.start t).Sound config := by
  refine ⟨h.admitted, fun u hu => ?_⟩
  rcases List.mem_append.1 hu with hu | hu
  · exact h.held u hu
  · exact List.mem_singleton.1 hu ▸ ht

theorem held_set (h : q.Sound config) {t : AdmissionAwait} (ht : t.Held) (k : Nat) : ∀ u ∈ q.requests.set k t, u.Held := by
  intro u hu
  rcases List.mem_or_eq_of_mem_set hu with hu | rfl
  · exact h.held u hu
  · exact ht

theorem Sound.commit (h : q.Sound config) {k : Nat} {w : AdmissionWrite} {error : Option AppError}
    (hk : q.requests[k]? = some (.write w error)) (hfresh : q.isFresh w = true)
    (hC : q.tables.Undisturbed config.mode now w) :
    Admitted config (q.commit now w).tables (q.commit now w).history := by
  have hheld := h.held _ (List.mem_of_getElem? hk)
  unfold AdmissionState.commit
  split
  · exact h.admitted
  · next tables hw =>
    refine h.admitted.write hheld.1 (fun invitation hsend f hf => ?_) (fun account team hsignup limit hlimit => ?_) hC hw
    · subst hsend
      have hall := List.all_eq_true.1 hfresh f hf
      simpa using hall
    · subst hsignup
      exact hheld.2 limit hlimit

theorem Sound.resume (h : q.Sound config) {k : Nat} {ok : Bool} (hC : q.Undisturbed config (now, .resume k ok))
    (hstep : q.resume config now k ok = some q') : q'.Sound config := by
  simp only [AdmissionState.resume, Option.bind_eq_bind, Option.bind_eq_some_iff] at hstep
  obtain ⟨t, hk, hstep⟩ := hstep
  split at hstep
  · next w error =>
    split at hstep
    · next hfresh =>
      have hw : q.tables.Undisturbed config.mode now w := hC w (by simp only [writes, hk, Option.mem_def])
      cases hstep
      exact ⟨h.commit hk hfresh hw, held_set h (.of_none rfl rfl) k⟩
    · cases hstep
  · obtain ⟨t', ht', hstep⟩ := Option.bind_eq_some_iff.1 hstep
    cases hstep
    exact ⟨h.admitted, held_set h ((h.held t (List.mem_of_getElem? hk)).resume ht') k⟩

theorem held_beginSignup (input : SignupInput) : (config.beginSignup input).Held := by
  unfold AdmissionConfig.beginSignup
  split
  · exact .of_none rfl rfl
  · split <;> exact .of_none rfl rfl

/-- One step. -/
theorem Sound.step (h : q.Sound config) {a : Time × AdmissionLabel} (hC : q.Undisturbed config a)
    (hstep : (admissions config).step q a = some q') : q'.Sound config := by
  obtain ⟨now, label⟩ := a
  simp only [admissions] at hstep
  split at hstep
  case isFalse => cases hstep
  have htick : Sound config { q with clock := now } := ⟨h.admitted, h.held⟩
  cases label with
  | signup input => cases hstep; exact htick.start (held_beginSignup input)
  | signupWithInvitation input => cases hstep; exact htick.start (.of_none rfl rfl)
  | answer userId key answer => cases hstep; exact htick.start (.of_none rfl rfl)
  | manage actorId invitationId action => cases hstep; exact htick.start (.of_none rfl rfl)
  | send input => cases hstep; exact htick.start (.of_none rfl rfl)
  | resume k ok => exact htick.resume hC hstep
  | bill teamId plan status => cases hstep; exact ⟨h.admitted.bill teamId plan status, h.held⟩
  | depart userId personalTeamId =>
    obtain ⟨tables, hw, rfl⟩ := Option.map_eq_some_iff.1 hstep
    exact ⟨h.admitted.createPersonalTeam hw, h.held⟩
  | deleteTeam userId personalTeamId =>
    obtain ⟨tables, hw, rfl⟩ := Option.map_eq_some_iff.1 hstep
    exact ⟨h.admitted.deleteTeam hw, h.held⟩
  | deleteAccount userId =>
    obtain ⟨tables, hw, rfl⟩ := Option.map_eq_some_iff.1 hstep
    exact ⟨h.admitted.deleteAccount hw, h.held⟩

theorem Sound.limited (h : q.Sound config) : q.AdmissionsLimited config where
  selfHosted := h.admitted.selfHosted
  members t ht limit hlimit := Nat.le_trans (Nat.le_add_right _ _) (h.admitted.reserved t ht limit hlimit)
  pending := h.admitted.pending
  once := h.admitted.once

/-- **Admissions are limited**, in every run in which no request is overtaken between what it
has checked and what it writes, and a resend finds room for an invitation that has expired. -/
theorem admissions_limited (h : (admissions config).ReachableUnder (Undisturbed config) q) : q.AdmissionsLimited config := by
  refine Sound.limited (h.invariant (Sound config) (fun s hinit => ?_) fun s a t _ hs hC hstep => hs.step hC hstep)
  obtain ⟨hrequests, hhistory, hteams, hinvitations, haccounts⟩ := hinit
  refine ⟨⟨fun r hr teamId hteam => ?_, ?_, ?_, fun _ => ?_, ?_, ?_, ?_⟩, ?_⟩
  · rw [(haccounts r hr).1] at hteam
    cases hteam
  · simp [hinvitations, Table.empty]
  · simp [hteams, Table.empty]
  · rw [Table.count_eq_zero.2 fun r hr => (haccounts r hr).2]
    exact Nat.zero_le 1
  · simp [hhistory]
  · simp [hhistory]
  · simp [hhistory]
  · simp [hrequests]

end AdmissionState

/-! ## Runs on fixed inputs -/

def selfHostedAdmissions : AdmissionConfig :=
  { mode := .selfHosted, cloudPublicSignup := false, cloudBilling := false, hashToken := id, trim := id, lowercase := id }

/-- Ann registers first, and invites Bob. -/
def invitedRun : List (Time × AdmissionLabel) :=
  (0, .signup ⟨"ann", "a@x", none, "team"⟩) :: List.replicate 3 (0, .resume 0 true) ++
    (1, .send ⟨"ann", "team", "b@x", .member, "invitation", "token"⟩) :: List.replicate 6 (1, .resume 1 true)

/-- Bob signs up; all but the transaction. -/
def signingUpRun : List (Time × AdmissionLabel) :=
  invitedRun ++ (2, .signupWithInvitation ⟨"bob", "b@x", "token"⟩) :: List.replicate 3 (2, .resume 2 true)

theorem AdmissionState.admissions_limited_joined : ∃ q : AdmissionState,
    q.tables.accounts.rows.map (fun r => (r.id, r.teamId, r.uninvited)) =
        [("ann", some "team", true), ("bob", some "team", false)] ∧
      q.AdmissionsLimited selfHostedAdmissions := by
  have hrun : ((admissions selfHostedAdmissions).runUnder (AdmissionState.Undisturbed selfHostedAdmissions) {}
      (signingUpRun ++ [(3, .resume 2 true)])).map
        (fun q => q.tables.accounts.rows.map fun r => (r.id, r.teamId, r.uninvited)) =
      some [("ann", some "team", true), ("bob", some "team", false)] := by decide +kernel
  obtain ⟨q, hrun, hrows⟩ := Option.map_eq_some_iff.1 hrun
  have hinit : (admissions selfHostedAdmissions).init {} := ⟨rfl, rfl, rfl, rfl, nofun⟩
  exact ⟨q, hrows, AdmissionState.admissions_limited (System.ReachableUnder.runUnder (.init hinit) hrun)⟩

/-- Two first signups, neither of which has found an account. -/
theorem AdmissionState.two_uninvited :
    ¬ ∀ q, (admissions selfHostedAdmissions).Reachable q → q.AdmissionsLimited selfHostedAdmissions := by
  intro h
  have hrun : ((admissions selfHostedAdmissions).run {}
      [(0, .signup ⟨"ann", "a@x", none, "ours"⟩), (0, .signup ⟨"eve", "e@x", none, "hers"⟩),
        (1, .resume 0 true), (1, .resume 1 true), (2, .resume 0 true), (2, .resume 1 true),
        (3, .resume 0 true), (3, .resume 1 true)]).map (fun q => q.tables.accounts.count (·.uninvited)) = some 2 := by
    decide +kernel
  obtain ⟨q, hrun, hcount⟩ := Option.map_eq_some_iff.1 hrun
  have hinit : (admissions selfHostedAdmissions).init {} := ⟨rfl, rfl, rfl, rfl, nofun⟩
  have hlimited := (h q (System.Reachable.run (.init hinit) hrun)).selfHosted rfl
  omega

end Bittery
