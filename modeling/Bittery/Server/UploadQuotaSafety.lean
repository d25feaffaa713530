/-
The storage quota of a team holds, in every run in which a creation commits while its
reservation is open and no reservation of the team is between its two sums.

What a reservation has summed up bounds what there is (`Bounded`): whatever else commits
meanwhile frees storage, or moves a reservation over to the committed attachments, and the
lock keeps other reservations of the team out.
-/
import Bittery.Lib.Except
import Bittery.Server.UploadQuota

namespace Bittery

open Lib

variable {db : Db} {mode : DeploymentMode} {s s' : Uploads}

/-! ## The actor -/

theorem attachmentActor_cloud {userId : String} {actor : AttachmentActor} (h : attachmentActor db .cloud userId = .ok actor) :
    (∃ u, db.users.get? userId = some u ∧ u.teamId = some actor.teamId) ∧
      ∃ entitlement, entitlement = resolveAttachmentEntitlement .cloud ((db.teams.get? actor.teamId).map (·.billingPlan))
          ((db.teams.get? actor.teamId).map (·.billingStatus)) ∧
        actor.maxFileSizeBytes = entitlement.maxFileSizeBytes ∧ actor.storageBytes = entitlement.storageBytes := by
  unfold attachmentActor loadTeamBillingEntitlement at h
  cases hu : db.users.get? userId with
  | none => simp [hu] at h
  | some u =>
    cases ht : u.teamId with
    | none => simp [hu, ht] at h
    | some teamId =>
      simp only [hu, ht, Option.map_some, Option.bind_some] at h
      split at h
      · cases h
      · cases h
        exact ⟨⟨u, rfl, ht⟩, _, rfl, rfl, rfl⟩

theorem attachmentActor_quota {userId : String} {actor : AttachmentActor} {quota : Int}
    (h : attachmentActor db mode userId = .ok actor) (hq : quota ∈ actor.storageBytes) : mode = .cloud := by
  cases mode with
  | cloud => rfl
  | selfHosted =>
    unfold attachmentActor at h
    split at h
    · cases h; cases hq
    · cases h; cases hq
    · contradiction
    · contradiction

/-- The quota of a team is the same for its users. -/
theorem attachmentActor_same {userId userId' : String} {actor actor' : AttachmentActor}
    (h : attachmentActor db .cloud userId = .ok actor) (h' : attachmentActor db .cloud userId' = .ok actor')
    (hteam : actor.teamId = actor'.teamId) : actor.storageBytes = actor'.storageBytes := by
  obtain ⟨-, e, he, -, hquota⟩ := attachmentActor_cloud h
  obtain ⟨-, e', he', -, hquota'⟩ := attachmentActor_cloud h'
  rw [hteam] at he
  rw [hquota, hquota', he, he']

theorem storageBytes_nonneg {plan : Option BillingPlan} {status : Option BillingStatus} {quota : Int}
    (hq : quota ∈ (resolveAttachmentEntitlement .cloud plan status).storageBytes) : 0 ≤ quota := by
  unfold resolveAttachmentEntitlement at hq
  dsimp only at hq
  have hmb : (0 : Int) ≤ 250 * MB := by decide
  have hgb : (0 : Int) ≤ GB ∧ (0 : Int) ≤ 2 * GB := by decide
  split at hq
  · cases hq; exact hmb
  · split at hq
    · cases hq; exact hgb.1
    · split at hq
      · cases hq; exact hgb.2
      · cases hq; exact le_refl 0

/-- A file that is within the maximum of a plan has a size that is accounted for. -/
theorem storageSize_nonneg {userId : String} {actor : AttachmentActor} {input : CreateAttachmentUploadInput}
    (hinput : checkUploadInput input = .ok ()) (hactor : attachmentActor db .cloud userId = .ok actor)
    (hmax : ¬ (actor.maxFileSizeBytes.any fun maxBytes => maxBytes < input.fileSize.toInt) = true) :
    0 ≤ (encryptedAttachmentStorageSize input.fileSize).toInt := by
  obtain ⟨-, e, he, hmaxBytes, -⟩ := attachmentActor_cloud hactor
  obtain ⟨max, hmaxOf, hle⟩ := maxFileSize_of_cloud ((db.teams.get? actor.teamId).map (·.billingPlan))
    ((db.teams.get? actor.teamId).map (·.billingStatus))
  have hpos : 0 < input.fileSize.toInt := by
    unfold checkUploadInput at hinput
    split at hinput
    · cases hinput
    · next hok => omega
  rw [hmaxBytes, he, hmaxOf, Option.any_some, decide_eq_true_eq] at hmax
  have hmb : 50 * MB ≤ MAX_ACCOUNTED_FILE_SIZE := by decide
  rw [(@storageSize_of_le input.fileSize (by omega) (by omega)).1]
  omega

/-! ## What a step does -/

/-- Nothing is added: rows go, requests end, and time passes. -/
structure Uploads.Frees (s s' : Uploads) : Prop where
  now : s.now ≤ s'.now
  pending : ∃ p, s'.pending = s.pending.deleteWhere p
  attachments : ∃ p, s'.attachments = s.attachments.deleteWhere p
  reserving : ∀ r ∈ s'.reserving, r ∈ s.reserving
  creating : ∀ c ∈ s'.creating, c ∈ s.creating
  issued : s'.issued = s.issued
  consumed : s'.consumed = s.consumed

theorem deleteNone {ρ κ : Type} {key : ρ → κ} (t : Table key) : ∃ p, t = t.deleteWhere p :=
  ⟨fun _ => false, (Table.deleteWhere_of_false fun _ _ => rfl).symm⟩

theorem Uploads.frees_endReserving (s : Uploads) (id : Nat) : s.Frees (s.endReserving id) :=
  ⟨le_refl _, deleteNone _, deleteNone _, fun _ h => (Table.mem_deleteWhere.mp h).1, fun _ h => h, rfl, rfl⟩

theorem Uploads.frees_endCreating (s : Uploads) (id : Nat) : s.Frees (s.endCreating id) :=
  ⟨le_refl _, deleteNone _, deleteNone _, fun _ h => h, fun _ h => (Table.mem_deleteWhere.mp h).1, rfl, rfl⟩

/-- What a reservation finds at its next phase. -/
inductive ReserveRequest.Advances (db : Db) (s : Uploads) (r : ReserveRequest) : ReservePhase → Prop
  | locked (hphase : r.phase = .waiting) (hfree : s.lockHeld r.actor.teamId = false) : Advances db s r .locked
  | summed (hphase : r.phase = .locked) : Advances db s r (.summed (committedUsage db s.attachments r.actor.teamId))
  | granted {committed : Int} (hphase : r.phase = .summed committed) (hfits : ∀ quota ∈ r.actor.storageBytes,
      committed + pendingUsage s.pending r.actor.teamId r.now + r.storageSize.toInt ≤ quota) : Advances db s r .granted

/-- The row that a reservation inserts. -/
def ReserveRequest.row (r : ReserveRequest) (pendingId attachmentId : String) : PendingAttachmentUpload :=
  { id := pendingId, attachmentId := attachmentId, teamId := r.actor.teamId, itemId := r.input.itemId,
    storageKey := r.storageKey, fileSize := r.input.fileSize, storageSize := r.storageSize, createdBy := r.userId,
    expiresAt := r.now + PENDING_ATTACHMENT_UPLOAD_LIFETIME, consumedAt := none }

def PendingAttachmentUpload.attachment (p : PendingAttachmentUpload) : UploadedAttachment :=
  ⟨p.attachmentId, p.itemId, p.storageKey, p.storageSize, p.createdBy⟩

inductive UploadEffect (db : Db) (mode : DeploymentMode) (s : Uploads) : UploadLabel → Uploads → Prop
  | frees {label : UploadLabel} {s' : Uploads} (hf : s.Frees s') : UploadEffect db mode s label s'
  | reserves {label : UploadLabel} {r : ReserveRequest} {reserving : Table ReserveRequest.id}
      (hinput : checkUploadInput r.input = .ok ()) (hactor : attachmentActor db mode r.userId = .ok r.actor)
      (hmax : ¬ (r.actor.maxFileSizeBytes.any fun maxBytes => maxBytes < r.input.fileSize.toInt) = true)
      (hnow : r.now = s.now) (hphase : r.phase = .waiting) (hins : s.reserving.insert r = some reserving) :
      UploadEffect db mode s label { s with reserving := reserving }
  | advances {label : UploadLabel} {r : ReserveRequest} {phase : ReservePhase} (hr : r ∈ s.reserving)
      (hphase : r.Advances db s phase) : UploadEffect db mode s label (s.putReserving { r with phase := phase })
  | issues {label : UploadLabel} {r : ReserveRequest} {pendingId attachmentId : String}
      {pending : Table PendingAttachmentUpload.id} (hr : r ∈ s.reserving) (hphase : r.phase = .granted)
      (hnew : pendingId ∉ s.issued) (hins : s.pending.insert (r.row pendingId attachmentId) = some pending) :
      UploadEffect db mode s label ({ s with pending := pending, issued := pendingId :: s.issued }.endReserving r.id)
  | loads {label : UploadLabel} {c : CreateRequest} {creating : Table CreateRequest.id} (hc : c.reservation ∈ s.pending)
      (hins : s.creating.insert c = some creating) : UploadEffect db mode s label { s with creating := creating }
  | creates {id : Nat} {c : CreateRequest} {attachments : Table UploadedAttachment.id} (hc : s.creating.get? id = some c)
      (hins : s.attachments.insert c.reservation.attachment = some attachments) :
      UploadEffect db mode s (.createAttachment id) ({ s with
        attachments := attachments
        pending := s.consumePending c.reservation.id
        consumed := c.reservation.id :: s.consumed }.endCreating c.id)

/-- **What each step does.** -/
theorem Uploads.effect {label : UploadLabel} (h : s.step db mode label = some s') : UploadEffect db mode s label s' := by
  cases label with
  | tick time =>
    cases h
    exact .frees ⟨Nat.le_add_right .., deleteNone _, deleteNone _, fun _ h => h, fun _ h => h, rfl, rfl⟩
  | reserve id userId storageKey input =>
    simp only [step, Option.bind_eq_some_iff, Except.toOption_eq_some_iff, exists_eq_right] at h
    simp only [reserve, Except.bind_ok_iff, Except.guard_ok_iff, Except.pure_ok_iff] at h
    obtain ⟨⟨⟩, hinput, actor, hactor, hmax, h⟩ := h
    obtain ⟨reserving, hins, rfl⟩ := Option.map_eq_some_iff.mp h
    exact .reserves (r := ⟨id, userId, actor, input, storageKey, s.now, .waiting⟩) hinput hactor hmax rfl rfl hins
  | lock id =>
    simp only [step, Option.bind_eq_bind, Option.bind_eq_some_iff, Option.guard_eq_some', exists_const, Option.pure_def,
      Option.some.injEq] at h
    obtain ⟨r, hr, hguard, rfl⟩ := h
    exact .advances (Table.mem_of_get? hr) (.locked hguard.1 hguard.2)
  | sumCommitted id =>
    simp only [step, Option.bind_eq_bind, Option.bind_eq_some_iff, Option.guard_eq_some', exists_const, Option.pure_def,
      Option.some.injEq] at h
    obtain ⟨r, hr, hphase, rfl⟩ := h
    exact .advances (Table.mem_of_get? hr) (.summed hphase)
  | sumPending id =>
    simp only [step, Option.bind_eq_bind, Option.bind_eq_some_iff] at h
    obtain ⟨r, hr, h⟩ := h
    split at h
    · next committed hphase =>
      cases h
      unfold checkQuota
      dsimp only
      split
      · exact .frees (s.frees_endReserving r.id)
      · next hfits =>
        refine .advances (Table.mem_of_get? hr) (.granted hphase fun quota hq => ?_)
        rw [Option.mem_def.mp hq, Option.any_some, decide_eq_true_eq] at hfits
        exact Int.not_lt.mp hfits
    · cases h
  | insertPending id pendingId attachmentId =>
    simp only [step, Option.bind_eq_bind, Option.bind_eq_some_iff, Option.guard_eq_some', exists_const] at h
    obtain ⟨r, hr, hphase, h⟩ := h
    simp only [insertPending, Option.bind_eq_bind, Option.bind_eq_some_iff, Option.guard_eq_some', exists_const,
      Option.pure_def, Option.some.injEq] at h
    obtain ⟨hnew, -, -, pending, hins, rfl⟩ := h
    exact .issues (Table.mem_of_get? hr) hphase hnew hins
  | rollback id =>
    cases h
    exact .frees (s.frees_endReserving id)
  | loadReservation id userId storageKey itemId attachmentId fileSize =>
    simp only [step, Option.bind_eq_bind, Option.bind_eq_some_iff, Option.guard_eq_some', exists_const, Option.pure_def,
      Option.some.injEq] at h
    obtain ⟨-, -, reservation, hload, -, creating, hins, rfl⟩ := h
    exact .loads (c := ⟨id, reservation⟩) (List.mem_of_find?_eq_some hload) hins
  | createAttachment id =>
    simp only [step, Option.bind_eq_bind, Option.bind_eq_some_iff, Option.pure_def, Option.some.injEq] at h
    obtain ⟨c, hc, rfl⟩ := h
    unfold createAttachment
    dsimp only
    split
    · exact .frees (s.frees_endCreating c.id)
    · next attachments hins => exact .creates hc hins
  | abandon id =>
    cases h
    exact .frees (s.frees_endCreating id)
  | deleteAttachment attachmentId =>
    cases h
    exact .frees ⟨le_refl _, deleteNone _, ⟨_, rfl⟩, fun _ h => h, fun _ h => h, rfl, rfl⟩
  | deleteItem itemId =>
    cases h
    exact .frees ⟨le_refl _, ⟨_, rfl⟩, ⟨_, rfl⟩, fun _ h => h, fun _ h => h, rfl, rfl⟩
  | cleanup ids =>
    simp only [step, Option.bind_eq_bind, Option.bind_eq_some_iff, Option.guard_eq_some', exists_const, Option.pure_def,
      Option.some.injEq] at h
    obtain ⟨-, rfl⟩ := h
    exact .frees ⟨le_refl _, ⟨_, rfl⟩, deleteNone _, fun _ h => h, fun _ h => h, rfl, rfl⟩

/-! ## Rows and requests -/

/-- Sizes are not negative in the cloud; reservations are the ones given out, of the team of
their user, and a creation has read one of them; one that is unconsumed has not been consumed. -/
structure Uploads.Rows (db : Db) (mode : DeploymentMode) (s : Uploads) : Prop where
  pendingSize : mode = .cloud → ∀ p ∈ s.pending, 0 ≤ p.storageSize.toInt
  attachmentSize : mode = .cloud → ∀ a ∈ s.attachments, 0 ≤ a.storageSize.toInt
  team : ∀ p ∈ s.pending, ∃ actor, attachmentActor db mode p.createdBy = .ok actor ∧ actor.teamId = p.teamId
  issued : ∀ p ∈ s.pending, p.id ∈ s.issued
  loaded : ∀ c ∈ s.creating, c.reservation.id ∈ s.issued ∧
    ∀ p ∈ s.pending, p.id = c.reservation.id → p = { c.reservation with consumedAt := p.consumedAt }
  consumed : ∀ id ∈ s.consumed, id ∈ s.issued
  unconsumed : ∀ p ∈ s.pending, p.consumedAt = none → p.id ∉ s.consumed
  once : s.consumed.Nodup

/-- Reservations in flight are of users with an entitlement, and one of a team holds the lock. -/
structure Uploads.Requests (db : Db) (mode : DeploymentMode) (s : Uploads) : Prop where
  actor : ∀ r ∈ s.reserving, attachmentActor db mode r.userId = .ok r.actor
  size : mode = .cloud → ∀ r ∈ s.reserving, 0 ≤ r.storageSize.toInt
  now : ∀ r ∈ s.reserving, r.now ≤ s.now
  lock : ∀ r ∈ s.reserving, ∀ q ∈ s.reserving, r.phase.holdsLock = true → q.phase.holdsLock = true →
    r.actor.teamId = q.actor.teamId → r = q

theorem ReserveRequest.Advances.holdsLock {r : ReserveRequest} {phase : ReservePhase} (h : r.Advances db s phase) :
    phase.holdsLock = true ∧ (r.phase.holdsLock = true ∨ s.lockHeld r.actor.teamId = false) := by
  cases h with
  | locked hphase hfree => exact ⟨rfl, .inr hfree⟩
  | summed hphase => exact ⟨rfl, .inl (by rw [hphase]; rfl)⟩
  | granted hphase hfits => exact ⟨rfl, .inl (by rw [hphase]; rfl)⟩

theorem Uploads.Requests.step {label : UploadLabel} (h : s.Requests db mode) (he : UploadEffect db mode s label s') :
    s'.Requests db mode := by
  cases he with
  | frees hf =>
    exact ⟨fun r hr => h.actor r (hf.reserving r hr), fun hc r hr => h.size hc r (hf.reserving r hr),
      fun r hr => (h.now r (hf.reserving r hr)).trans hf.now,
      fun r hr q hq => h.lock r (hf.reserving r hr) q (hf.reserving q hq)⟩
  | @reserves _ new reserving hinput hactor hmax hnow hphase hins =>
    have hmem : ∀ {r}, r ∈ reserving → r ∈ s.reserving ∨ r = new := fun hr => (Table.mem_insert hins _).mp hr
    have hnot : ¬ new.phase.holdsLock = true := by rw [hphase]; exact nofun
    refine ⟨fun r hr => ?_, fun hc r hr => ?_, fun r hr => ?_, fun r hr q hq hrl hql hteam => ?_⟩
    · rcases hmem hr with hr | rfl
      · exact h.actor r hr
      · exact hactor
    · rcases hmem hr with hr | rfl
      · exact h.size hc r hr
      · exact storageSize_nonneg hinput (hc ▸ hactor) hmax
    · rcases hmem hr with hr | rfl
      · exact h.now r hr
      · exact hnow.le
    · rcases hmem hr with hr | rfl
      · rcases hmem hq with hq | rfl
        · exact h.lock r hr q hq hrl hql hteam
        · exact absurd hql hnot
      · exact absurd hrl hnot
  | @advances _ old phase hr hphase =>
    have hmem : ∀ {r}, r ∈ (s.putReserving { old with phase := phase }).reserving →
        r = { old with phase := phase } ∨ (r ∈ s.reserving ∧ r.id ≠ old.id) := fun hr => Table.mem_put.mp hr
    have hother : ∀ {q : ReserveRequest}, q ∈ s.reserving → q.id ≠ old.id → q.phase.holdsLock = true →
        q.actor.teamId ≠ old.actor.teamId := by
      intro q hq hne hql hteam
      rcases hphase.holdsLock.2 with hold | hfree
      · exact hne (congrArg ReserveRequest.id (h.lock q hq old hr hql hold hteam))
      · have := Table.any_eq_false.mp hfree q hq
        simp [hteam, hql] at this
    refine ⟨fun r hr' => ?_, fun hc r hr' => ?_, fun r hr' => ?_, fun r hr' q hq' hrl hql hteam => ?_⟩
    · rcases hmem hr' with rfl | ⟨hr', -⟩
      · exact h.actor old hr
      · exact h.actor r hr'
    · rcases hmem hr' with rfl | ⟨hr', -⟩
      · exact h.size hc old hr
      · exact h.size hc r hr'
    · rcases hmem hr' with rfl | ⟨hr', -⟩
      · exact h.now old hr
      · exact h.now r hr'
    · rcases hmem hr' with rfl | ⟨hr', hrne⟩
      · rcases hmem hq' with rfl | ⟨hq', hqne⟩
        · rfl
        · exact absurd hteam.symm (hother hq' hqne hql)
      · rcases hmem hq' with rfl | ⟨hq', hqne⟩
        · exact absurd hteam (hother hr' hrne hrl)
        · exact h.lock r hr' q hq' hrl hql hteam
  | @issues _ r pendingId attachmentId pending hr hphase hnew hins =>
    have hmem : ∀ {q}, q ∈ s.reserving.deleteWhere (fun q => q.id = r.id) → q ∈ s.reserving := fun hq =>
      (Table.mem_deleteWhere.mp hq).1
    exact ⟨fun q hq => h.actor q (hmem hq), fun hc q hq => h.size hc q (hmem hq), fun q hq => h.now q (hmem hq),
      fun q hq q' hq' => h.lock q (hmem hq) q' (hmem hq')⟩
  | loads hc hins => exact ⟨h.actor, h.size, h.now, h.lock⟩
  | creates hc hins => exact ⟨h.actor, h.size, h.now, h.lock⟩

theorem PendingAttachmentUpload.isOpen_iff {p : PendingAttachmentUpload} {now : Time} :
    p.isOpen now = true ↔ p.consumedAt = none ∧ now < p.expiresAt := by
  simp [PendingAttachmentUpload.isOpen]

theorem Uploads.Rows.step {label : UploadLabel} (h : s.Rows db mode) (hreq : s.Requests db mode)
    (he : UploadEffect db mode s label s') (ht : s.Timely label) : s'.Rows db mode := by
  cases he with
  | frees hf =>
    obtain ⟨p, hp⟩ := hf.pending
    obtain ⟨q, hq⟩ := hf.attachments
    have hpending : ∀ x ∈ s'.pending, x ∈ s.pending := fun x hx => (Table.mem_deleteWhere.mp (hp ▸ hx)).1
    have hattachments : ∀ x ∈ s'.attachments, x ∈ s.attachments := fun x hx => (Table.mem_deleteWhere.mp (hq ▸ hx)).1
    refine ⟨fun hc x hx => h.pendingSize hc x (hpending x hx), fun hc x hx => h.attachmentSize hc x (hattachments x hx),
      fun x hx => h.team x (hpending x hx), fun x hx => ?_, fun c hc => ?_, fun id hid => ?_, fun x hx hopen => ?_, ?_⟩
    · rw [hf.issued]; exact h.issued x (hpending x hx)
    · obtain ⟨hissued, hsame⟩ := h.loaded c (hf.creating c hc)
      rw [hf.issued]
      exact ⟨hissued, fun x hx => hsame x (hpending x hx)⟩
    · rw [hf.issued]; exact h.consumed id (hf.consumed ▸ hid)
    · rw [hf.consumed]; exact h.unconsumed x (hpending x hx) hopen
    · rw [hf.consumed]; exact h.once
  | reserves => exact ⟨h.pendingSize, h.attachmentSize, h.team, h.issued, h.loaded, h.consumed, h.unconsumed, h.once⟩
  | advances => exact ⟨h.pendingSize, h.attachmentSize, h.team, h.issued, h.loaded, h.consumed, h.unconsumed, h.once⟩
  | @issues _ r pendingId attachmentId pending hr hphase hnew hins =>
    have hmem : ∀ {x}, x ∈ pending → x ∈ s.pending ∨ x = r.row pendingId attachmentId := fun hx =>
      (Table.mem_insert hins _).mp hx
    refine ⟨fun hc x hx => ?_, h.attachmentSize, fun x hx => ?_, fun x hx => ?_, fun c hc => ?_,
      fun id hid => List.mem_cons_of_mem _ (h.consumed id hid), fun x hx hopen => ?_, h.once⟩
    · rcases hmem hx with hx | rfl
      · exact h.pendingSize hc x hx
      · exact hreq.size hc r hr
    · rcases hmem hx with hx | rfl
      · exact h.team x hx
      · exact ⟨r.actor, hreq.actor r hr, rfl⟩
    · rcases hmem hx with hx | rfl
      · exact List.mem_cons_of_mem _ (h.issued x hx)
      · exact List.mem_cons_self
    · obtain ⟨hissued, hsame⟩ := h.loaded c hc
      refine ⟨List.mem_cons_of_mem _ hissued, fun x hx hid => ?_⟩
      rcases hmem hx with hx | rfl
      · exact hsame x hx hid
      · have hid : pendingId = c.reservation.id := hid
        exact absurd (hid ▸ hissued) hnew
    · rcases hmem hx with hx | rfl
      · exact h.unconsumed x hx hopen
      · exact fun hin => hnew (h.consumed _ hin)
  | @loads _ c creating hc hins =>
    refine ⟨h.pendingSize, h.attachmentSize, h.team, h.issued, fun q hq => ?_, h.consumed, h.unconsumed, h.once⟩
    rcases (Table.mem_insert hins q).mp hq with hq | rfl
    · exact h.loaded q hq
    · refine ⟨h.issued _ hc, fun p hp hid => ?_⟩
      rw [Table.eq_of_key_eq hp hc hid]
  | @creates id c attachments hc hins =>
    have hfree : s.attachments.get? c.reservation.attachmentId = none :=
      Table.get?_eq_none.mpr fun a ha => Table.insert_fresh hins a ha
    obtain ⟨hopen, -⟩ := ht c hc hfree
    rw [Option.any_eq_true] at hopen
    obtain ⟨p, hp, hopen⟩ := hopen
    obtain ⟨hpmem, hpid⟩ := Table.get?_eq_some.mp hp
    obtain ⟨hissued, hsame⟩ := h.loaded c (Table.mem_of_get? hc)
    have hrow : p = { c.reservation with consumedAt := p.consumedAt } := hsame p hpmem hpid
    -- A row after the update is one from before, perhaps consumed now.
    have hmem : ∀ {x}, x ∈ s.consumePending c.reservation.id →
        ∃ y ∈ s.pending, x = { y with consumedAt := x.consumedAt } ∧ (x.consumedAt = none → x = y ∧ y.id ≠ p.id) := by
      intro x hx
      obtain ⟨y, hy, rfl⟩ := Table.mem_updateWhere.mp hx
      refine ⟨y, hy, ?_⟩
      by_cases hyid : y.id = c.reservation.id
      · rw [if_pos (decide_eq_true hyid)]
        exact ⟨rfl, nofun⟩
      · rw [if_neg (by simpa using hyid)]
        exact ⟨rfl, fun _ => ⟨rfl, fun he => hyid (he.trans hpid)⟩⟩
    refine ⟨fun hcloud x hx => ?_, fun hcloud a ha => ?_, fun x hx => ?_, fun x hx => ?_, fun q hq => ?_,
      fun id hid => ?_, fun x hx hxopen => ?_, ?_⟩
    · obtain ⟨y, hy, he, -⟩ := hmem hx
      rw [he]
      exact h.pendingSize hcloud y hy
    · rcases (Table.mem_insert hins a).mp ha with ha | rfl
      · exact h.attachmentSize hcloud a ha
      · have := h.pendingSize hcloud p hpmem
        rw [hrow] at this
        exact this
    · obtain ⟨y, hy, he, -⟩ := hmem hx
      rw [he]
      exact h.team y hy
    · obtain ⟨y, hy, he, -⟩ := hmem hx
      rw [he]
      exact h.issued y hy
    · obtain ⟨hqissued, hqsame⟩ := h.loaded q (Table.mem_deleteWhere.mp hq).1
      refine ⟨hqissued, fun x hx hid => ?_⟩
      obtain ⟨y, hy, he, -⟩ := hmem hx
      have hyid : y.id = q.reservation.id := by rw [← hid, he]
      rw [he, hqsame y hy hyid]
    · rcases List.mem_cons.mp hid with rfl | hid
      · exact hissued
      · exact h.consumed id hid
    · obtain ⟨y, hy, -, hsame⟩ := hmem hx
      obtain ⟨rfl, hne⟩ := hsame hxopen
      show x.id ∉ c.reservation.id :: s.consumed
      rw [List.mem_cons, not_or]
      exact ⟨fun he => hne (he.trans hpid.symm), h.unconsumed x hy hxopen⟩
    · refine List.nodup_cons.mpr ⟨?_, h.once⟩
      rw [← hpid]
      exact h.unconsumed p hpmem (PendingAttachmentUpload.isOpen_iff.mp hopen).1

/-! ## Usage -/

theorem committedUsage_delete_le (hsize : ∀ a ∈ s.attachments, 0 ≤ a.storageSize.toInt) (p : UploadedAttachment → Bool)
    (teamId : String) : committedUsage db (s.attachments.deleteWhere p) teamId ≤ committedUsage db s.attachments teamId := by
  refine Table.sum_deleteWhere_le fun a ha => ?_
  split
  · exact hsize a ha
  · exact le_refl 0

/-- Reservations that go, and time that passes, leave less pending. -/
theorem pendingUsage_delete_le (hsize : ∀ p ∈ s.pending, 0 ≤ p.storageSize.toInt) (p : PendingAttachmentUpload → Bool)
    (teamId : String) {now now' : Time} (hnow : now ≤ now') :
    pendingUsage (s.pending.deleteWhere p) teamId now' ≤ pendingUsage s.pending teamId now := by
  refine le_trans (Table.sum_mono fun x hx => ?_) (Table.sum_deleteWhere_le fun x hx => ?_)
  · have := hsize x (Table.mem_deleteWhere.mp hx).1
    by_cases hteam : x.teamId = teamId
    · by_cases hopen : x.isOpen now' = true
      · have hopen' : x.isOpen now = true := by
          rw [PendingAttachmentUpload.isOpen_iff] at hopen ⊢
          exact ⟨hopen.1, hnow.trans_lt hopen.2⟩
        simp [hteam, hopen, hopen']
      · rw [Bool.not_eq_true] at hopen
        simp only [hteam, decide_true, Bool.true_and, hopen]
        split
        · contradiction
        · split
          · exact this
          · exact le_refl 0
    · simp [hteam]
  · split
    · exact hsize x hx
    · exact le_refl 0

theorem pendingUsage_insert {p : PendingAttachmentUpload} {pending : Table PendingAttachmentUpload.id}
    (hins : s.pending.insert p = some pending) (teamId : String) (now : Time) :
    pendingUsage pending teamId now = pendingUsage s.pending teamId now +
      if p.teamId = teamId && p.isOpen now then p.storageSize.toInt else 0 := Table.sum_insert hins

theorem committedUsage_insert {a : UploadedAttachment} {attachments : Table UploadedAttachment.id}
    (hins : s.attachments.insert a = some attachments) (teamId : String) :
    committedUsage db attachments teamId = committedUsage db s.attachments teamId +
      if (db.users.get? a.uploadedBy).any (fun u => u.teamId = some teamId) then a.storageSize.toInt else 0 :=
  Table.sum_insert hins

/-- A reservation that is open and is consumed is pending no more. -/
theorem pendingUsage_consume {p : PendingAttachmentUpload} (hp : p ∈ s.pending) (hopen : p.isOpen s.now = true)
    (teamId : String) :
    pendingUsage (s.consumePending p.id) teamId s.now + (if p.teamId = teamId then p.storageSize.toInt else 0) =
      pendingUsage s.pending teamId s.now := by
  have hsum : pendingUsage (s.consumePending p.id) teamId s.now + (if p.teamId = teamId && p.isOpen s.now then p.storageSize.toInt else 0) =
      pendingUsage s.pending teamId s.now + (if p.teamId = teamId &&
        PendingAttachmentUpload.isOpen { p with consumedAt := some s.now } s.now then p.storageSize.toInt else 0) :=
    Table.sum_updateWhere_key hp
  have hclosed : PendingAttachmentUpload.isOpen { p with consumedAt := some s.now } s.now = false := rfl
  simp only [hopen, hclosed, Bool.and_true, Bool.and_false, decide_eq_true_eq, Bool.false_eq_true, if_false,
    Int.add_zero] at hsum
  exact hsum

/-! ## What the sums of a reservation bound -/

/-- A sum of the attachments bounds what is committed, a reservation that is granted fits, and
every quota holds. -/
structure Uploads.Bounded (db : Db) (s : Uploads) : Prop where
  summed : ∀ r ∈ s.reserving, r.actor.storageBytes.isSome = true → ∀ committed, r.phase = .summed committed →
    committedUsage db s.attachments r.actor.teamId ≤ committed
  granted : ∀ r ∈ s.reserving, r.phase = .granted → ∀ quota ∈ r.actor.storageBytes,
    s.usage db r.actor.teamId + r.storageSize.toInt ≤ quota
  quota : ∀ userId actor, attachmentActor db .cloud userId = .ok actor → ∀ quota ∈ actor.storageBytes,
    s.usage db actor.teamId ≤ quota

/-- Nothing of a team grows, and no reservation of it is new. -/
theorem Uploads.Bounded.mono (h : s.Bounded db)
    (hcommitted : ∀ teamId, committedUsage db s'.attachments teamId ≤ committedUsage db s.attachments teamId)
    (husage : ∀ teamId, s'.usage db teamId ≤ s.usage db teamId) (hreserving : ∀ r ∈ s'.reserving, r ∈ s.reserving) :
    s'.Bounded db :=
  ⟨fun r hr hq c hphase => (hcommitted _).trans (h.summed r (hreserving r hr) hq c hphase),
    fun r hr hphase quota hq => (Int.add_le_add_right (husage _) _).trans (h.granted r (hreserving r hr) hphase quota hq),
    fun userId actor hactor quota hq => (husage _).trans (h.quota userId actor hactor quota hq)⟩

theorem Uploads.Bounded.advances {r : ReserveRequest} {phase : ReservePhase} (h : s.Bounded db) (hrows : s.Rows db .cloud)
    (hreq : s.Requests db .cloud) (hr : r ∈ s.reserving) (hphase : r.Advances db s phase) :
    (s.putReserving { r with phase := phase }).Bounded db := by
  have hmem : ∀ {q}, q ∈ (s.putReserving { r with phase := phase }).reserving →
      q = { r with phase := phase } ∨ (q ∈ s.reserving ∧ q.id ≠ r.id) := fun hq => Table.mem_put.mp hq
  refine ⟨fun q hq hquota committed hsummed => ?_, fun q hq hgranted quota hquota => ?_, h.quota⟩
  · rcases hmem hq with rfl | ⟨hq, -⟩
    · cases hphase with
      | locked => cases hsummed
      | summed => cases hsummed; exact le_refl _
      | granted => cases hsummed
    · exact h.summed q hq hquota committed hsummed
  · rcases hmem hq with rfl | ⟨hq, -⟩
    · cases hphase with
      | locked => cases hgranted
      | summed => cases hgranted
      | @granted committed hsummed hfits =>
        have hcommitted := h.summed r hr (Option.isSome_iff_exists.mpr ⟨quota, hquota⟩) committed hsummed
        have hpending := pendingUsage_delete_le (hrows.pendingSize rfl) (fun _ => false) r.actor.teamId (hreq.now r hr)
        rw [Table.deleteWhere_of_false fun _ _ => rfl] at hpending
        have hfit := hfits quota hquota
        show committedUsage db s.attachments r.actor.teamId + pendingUsage s.pending r.actor.teamId s.now +
          r.storageSize.toInt ≤ quota
        omega
    · exact h.granted q hq hgranted quota hquota

theorem Uploads.Bounded.issues {r : ReserveRequest} {pendingId attachmentId : String}
    {pending : Table PendingAttachmentUpload.id} (h : s.Bounded db) (hreq : s.Requests db .cloud) (hr : r ∈ s.reserving)
    (hphase : r.phase = .granted) (hins : s.pending.insert (r.row pendingId attachmentId) = some pending) :
    Uploads.Bounded db ({ s with pending := pending, issued := pendingId :: s.issued }.endReserving r.id) := by
  have hsize := hreq.size rfl r hr
  have husage : ∀ teamId, Uploads.usage db
      ({ s with pending := pending, issued := pendingId :: s.issued }.endReserving r.id) teamId ≤
      s.usage db teamId + if r.actor.teamId = teamId then r.storageSize.toInt else 0 := by
    intro teamId
    have hpending := pendingUsage_insert hins teamId s.now
    have hrow : (if (r.row pendingId attachmentId).teamId = teamId && (r.row pendingId attachmentId).isOpen s.now then
        (r.row pendingId attachmentId).storageSize.toInt else 0) ≤
        if r.actor.teamId = teamId then r.storageSize.toInt else 0 := by
      show (if r.actor.teamId = teamId && (r.row pendingId attachmentId).isOpen s.now then r.storageSize.toInt else 0) ≤ _
      by_cases hteam : r.actor.teamId = teamId
      · simp only [hteam, decide_true, Bool.true_and, if_true]
        split
        · exact le_refl _
        · exact hsize
      · simp [hteam]
    show committedUsage db s.attachments teamId + pendingUsage pending teamId s.now ≤
      committedUsage db s.attachments teamId + pendingUsage s.pending teamId s.now + _
    omega
  have hleft : ∀ {q}, q ∈ s.reserving.deleteWhere (fun q => q.id = r.id) → q ∈ s.reserving ∧ q.id ≠ r.id := by
    intro q hq
    obtain ⟨hq, hne⟩ := Table.mem_deleteWhere.mp hq
    exact ⟨hq, by simpa using hne⟩
  refine ⟨fun q hq => h.summed q (hleft hq).1, fun q hq hgranted quota hquota => ?_, fun userId actor hactor quota hquota => ?_⟩
  · -- The lock keeps other reservations of the team out.
    obtain ⟨hq, hne⟩ := hleft hq
    have hteam : r.actor.teamId ≠ q.actor.teamId := fun he => hne (congrArg ReserveRequest.id
      (hreq.lock q hq r hr (by rw [hgranted]; rfl) (by rw [hphase]; rfl) he.symm))
    have hu := husage q.actor.teamId
    rw [if_neg hteam] at hu
    have hgrant := h.granted q hq hgranted quota hquota
    omega
  · have hu := husage actor.teamId
    by_cases hteam : r.actor.teamId = actor.teamId
    · rw [if_pos hteam] at hu
      have hquota' : quota ∈ r.actor.storageBytes := by
        rw [attachmentActor_same (hreq.actor r hr) hactor hteam]
        exact hquota
      have hgrant := h.granted r hr hphase quota hquota'
      rw [hteam] at hgrant
      omega
    · rw [if_neg hteam] at hu
      have hbefore := h.quota userId actor hactor quota hquota
      omega

/-- A creation in time moves its reservation over to the attachments. -/
theorem Uploads.Bounded.creates {id : Nat} {c : CreateRequest} {attachments : Table UploadedAttachment.id}
    (h : s.Bounded db) (hrows : s.Rows db .cloud) (ht : s.Timely (.createAttachment id))
    (hc : s.creating.get? id = some c) (hins : s.attachments.insert c.reservation.attachment = some attachments) :
    Uploads.Bounded db ({ s with
      attachments := attachments
      pending := s.consumePending c.reservation.id
      consumed := c.reservation.id :: s.consumed }.endCreating c.id) := by
  have hfree : s.attachments.get? c.reservation.attachmentId = none :=
    Table.get?_eq_none.mpr fun a ha => Table.insert_fresh hins a ha
  obtain ⟨hopen, halone⟩ := ht c hc hfree
  rw [Option.any_eq_true] at hopen
  obtain ⟨p, hp, hopen⟩ := hopen
  obtain ⟨hpmem, hpid⟩ := Table.get?_eq_some.mp hp
  have hrow := (hrows.loaded c (Table.mem_of_get? hc)).2 p hpmem hpid
  obtain ⟨actor, hactor, hteam⟩ := hrows.team p hpmem
  obtain ⟨⟨u, hu, hut⟩, -⟩ := attachmentActor_cloud hactor
  have hcreated : p.createdBy = c.reservation.createdBy := by rw [hrow]
  have hpteam : p.teamId = c.reservation.teamId := by rw [hrow]
  have hpsize : p.storageSize = c.reservation.storageSize := by rw [hrow]
  have hcommitted : ∀ teamId, committedUsage db attachments teamId = committedUsage db s.attachments teamId +
      if p.teamId = teamId then p.storageSize.toInt else 0 := by
    intro teamId
    have husers : (db.users.get? c.reservation.attachment.uploadedBy).any (fun u => u.teamId = some teamId) =
        decide (p.teamId = teamId) := by
      show (db.users.get? c.reservation.createdBy).any _ = _
      rw [← hcreated, hu, Option.any_some, hut, hteam]
      exact decide_eq_decide.mpr (Option.some.injEq ..).to_iff
    rw [committedUsage_insert hins teamId, husers]
    simp only [decide_eq_true_eq]
    rw [show c.reservation.attachment.storageSize = p.storageSize from hpsize.symm]
  have hpending : ∀ teamId, pendingUsage (s.consumePending c.reservation.id) teamId s.now +
      (if p.teamId = teamId then p.storageSize.toInt else 0) = pendingUsage s.pending teamId s.now := by
    intro teamId
    rw [← hpid]
    exact pendingUsage_consume hpmem hopen teamId
  have husage : ∀ teamId, Uploads.usage db ({ s with
      attachments := attachments
      pending := s.consumePending c.reservation.id
      consumed := c.reservation.id :: s.consumed }.endCreating c.id) teamId = s.usage db teamId := by
    intro teamId
    have hsum := hcommitted teamId
    have hrest := hpending teamId
    show committedUsage db attachments teamId + pendingUsage (s.consumePending c.reservation.id) teamId s.now =
      committedUsage db s.attachments teamId + pendingUsage s.pending teamId s.now
    omega
  refine ⟨fun r hr hquota committed hsummed => ?_, fun r hr hgranted quota hquota => ?_,
    fun userId actor hactor quota hquota => ?_⟩
  · -- No reservation of the team is between its sums.
    have hne : p.teamId ≠ r.actor.teamId := by
      intro he
      have := halone r hr (he.symm.trans hpteam) hquota
      rw [hsummed] at this
      cases this
    show committedUsage db attachments r.actor.teamId ≤ committed
    rw [hcommitted, if_neg hne, Int.add_zero]
    exact h.summed r hr hquota committed hsummed
  · rw [husage]; exact h.granted r hr hgranted quota hquota
  · rw [husage]; exact h.quota userId actor hactor quota hquota

theorem Uploads.Bounded.step {label : UploadLabel} (h : s.Bounded db) (hrows : s.Rows db .cloud)
    (hreq : s.Requests db .cloud) (he : UploadEffect db .cloud s label s') (ht : s.Timely label) : s'.Bounded db := by
  cases he with
  | frees hf =>
    obtain ⟨p, hp⟩ := hf.pending
    obtain ⟨q, hq⟩ := hf.attachments
    have hcommitted : ∀ teamId, committedUsage db s'.attachments teamId ≤ committedUsage db s.attachments teamId := by
      intro teamId
      rw [hq]
      exact committedUsage_delete_le (hrows.attachmentSize rfl) q teamId
    refine h.mono hcommitted (fun teamId => Int.add_le_add (hcommitted teamId) ?_) hf.reserving
    rw [hp]
    exact pendingUsage_delete_le (hrows.pendingSize rfl) p teamId hf.now
  | @reserves _ new reserving hinput hactor hmax hnow hphase hins =>
    refine ⟨fun r hr hquota committed hsummed => ?_, fun r hr hgranted quota hquota => ?_, h.quota⟩
    · rcases (Table.mem_insert hins r).mp hr with hr | rfl
      · exact h.summed r hr hquota committed hsummed
      · cases hphase.symm.trans hsummed
    · rcases (Table.mem_insert hins r).mp hr with hr | rfl
      · exact h.granted r hr hgranted quota hquota
      · cases hphase.symm.trans hgranted
  | advances hr hphase => exact h.advances hrows hreq hr hphase
  | issues hr hphase hnew hins => exact h.issues hreq hr hphase hins
  | loads hc hins => exact ⟨h.summed, h.granted, h.quota⟩
  | creates hc hins => exact h.creates hrows ht hc hins

/-! ## Every run -/

structure Uploads.Inv (db : Db) (mode : DeploymentMode) (s : Uploads) : Prop where
  rows : s.Rows db mode
  requests : s.Requests db mode
  bounded : mode = .cloud → s.Bounded db

theorem Uploads.inv_init (now : Time) : Uploads.Inv db mode ⟨now, .empty, .empty, .empty, .empty, [], []⟩ := by
  have hnone : ∀ {ρ κ : Type} {key : ρ → κ} {P : ρ → Prop}, ∀ r ∈ (Table.empty : Table key), P r :=
    fun r hr => absurd hr (Table.not_mem_empty r)
  refine ⟨⟨fun _ => hnone, fun _ => hnone, hnone, hnone, hnone, by simp, hnone, List.nodup_nil⟩,
    ⟨hnone, fun _ => hnone, hnone, hnone⟩, fun hcloud => ⟨hnone, hnone, fun userId actor hactor quota hquota => ?_⟩⟩
  obtain ⟨-, e, he, -, hbytes⟩ := attachmentActor_cloud hactor
  rw [hbytes, he] at hquota
  exact storageBytes_nonneg hquota

/-- **The attachment quota is never exceeded** and no reservation is consumed twice, in every run in
which each creation commits in time. -/
theorem quota_held (db : Db) (mode : DeploymentMode) (s : Uploads)
    (hs : (uploads db mode).ReachableUnder Uploads.Timely s) : s.QuotaHeld db mode := by
  have hinv : s.Inv db mode := by
    refine System.ReachableUnder.invariant (Uploads.Inv db mode) ?_ ?_ hs
    · rintro _ ⟨now, rfl⟩
      exact Uploads.inv_init now
    · intro s label s' _ hI ht hstep
      have he := Uploads.effect hstep
      refine ⟨hI.rows.step hI.requests he ht, hI.requests.step he, ?_⟩
      rintro rfl
      exact (hI.bounded rfl).step hI.rows hI.requests he ht
  refine ⟨fun userId actor hactor quota hquota => ?_, hinv.rows.once⟩
  obtain rfl := attachmentActor_quota hactor hquota
  exact (hinv.bounded rfl).quota userId actor hactor quota hquota

/-! ## A creation in time, and one that comes too late -/

/-- Ann alone, on the personal plan. -/
def annAlone : Db :=
  { Db.empty with
    users := ⟨[⟨"ann", "Ann", "pk-ann", some "team", .owner⟩], by decide⟩
    teams := ⟨[⟨"team", "Team", "ann", .personal, .personal, .active⟩], by decide⟩ }

/-- A file of ten megabytes, the largest the plan takes. -/
def tenMegabytes (id : Nat) (name : String) : List UploadLabel :=
  [.reserve id "ann" name ⟨"item", "file.enc", "application/octet-stream", 10485760⟩, .lock id, .sumCommitted id,
   .sumPending id, .insertPending id name name]

def loadTenMegabytes (id : Nat) (name : String) : UploadLabel := .loadReservation id "ann" name "item" name 10485760

def noUploads : Uploads := ⟨0, .empty, .empty, .empty, .empty, [], []⟩

theorem quota_held_created : ∃ s, (uploads annAlone .cloud).run noUploads
    (tenMegabytes 0 "a" ++ [loadTenMegabytes 0 "a", .createAttachment 0] ++ tenMegabytes 1 "b") = some s ∧
      s.usage annAlone "team" = 37282892 ∧ s.QuotaHeld annAlone .cloud := by
  have hrun : ((uploads annAlone .cloud).runUnder Uploads.Timely noUploads
      (tenMegabytes 0 "a" ++ [loadTenMegabytes 0 "a", .createAttachment 0] ++ tenMegabytes 1 "b")).any
        (fun s => s.usage annAlone "team" = 37282892) = true := by decide +kernel
  rw [Option.any_eq_true] at hrun
  obtain ⟨s, hrun, husage⟩ := hrun
  exact ⟨s, System.run_of_runUnder hrun, of_decide_eq_true husage,
    quota_held annAlone .cloud s (.runUnder (.init ⟨0, rfl⟩) hrun)⟩

/-- The first file is created after its reservation has expired and fourteen others have
taken its place. -/
def expiredCreation : List UploadLabel :=
  tenMegabytes 0 "a" ++ [loadTenMegabytes 0 "a", .tick 900] ++
    ["b", "c", "d", "e", "f", "g", "h", "i", "j", "k", "l", "m", "n", "o"].flatMap (tenMegabytes 0) ++ [.createAttachment 0]

theorem expired_creation_exceeds_quota : ¬ ∀ (db : Db) (mode : DeploymentMode) (s : Uploads),
    (uploads db mode).Reachable s → s.QuotaHeld db mode := by
  intro hall
  have hrun : ((uploads annAlone .cloud).run noUploads expiredCreation).any
      (fun s => 250 * MB < s.usage annAlone "team") = true := by decide +kernel
  rw [Option.any_eq_true] at hrun
  obtain ⟨s, hrun, husage⟩ := hrun
  have hactor : attachmentActor annAlone .cloud "ann" = .ok ⟨"team", some (10 * MB), some (250 * MB)⟩ := by decide +kernel
  have hheld := (hall annAlone .cloud s (.run (.init ⟨0, rfl⟩) hrun)).quota "ann" _ hactor (250 * MB) rfl
  exact absurd (of_decide_eq_true husage) (Int.not_lt.mpr hheld)

end Bittery
