/-
Revocations are complete as long as no refresh and no login overlaps the DELETE, and no request
is cut off between the credentials it has changed, or the sessions it has deleted, and the record.

A revocation says which sessions it covers by where they come from. From the start of its DELETE
on, every covered session is one that the DELETE has found, and no request is about to insert
another; once the DELETE is through there is none, and no step brings one back.
-/
import Bittery.Server.Sessions

namespace Bittery

open Lib

/-! ## What the claim is about -/

namespace SessionState

variable (hashToken : String → String) (q : SessionState)

/-- Revocations are complete. -/
structure RevocationsComplete : Prop where
  /-- Once success is reported, no token of a revoked session verifies, nor one refreshed from it. -/
  reported : ∀ k r, .reported k r ∈ q.history → ∀ token s, q.verifyToken hashToken token = some s →
    r.covers s.origin = false
  /-- A committed change leaves no old session behind. -/
  changed : ∀ k r, .changed k r ∈ q.history → q.requests[k]? = some .ended →
    ∀ token s, q.verifyToken hashToken token = some s → r.covers s.origin = false
  /-- A session that was deleted by a revocation is on record, or about to be. -/
  recorded : ∀ k ids, .deleted k ids ∈ q.history → ∀ id ∈ ids,
    .recorded id ∈ q.history ∨ ∃ r rest login, q.requests[k]? = some (.record r rest login) ∧ id ∈ rest

end SessionState

/-! ## The condition -/

namespace SessionAwait

/-- Where the session comes from that the request is about to insert. -/
def yields : SessionAwait → Option SessionOrigin
  | .create device credentials _ | .clearing device credentials _ _ | .insert device credentials _ _
  | .record _ _ (some (device, credentials)) => some ⟨device.userId, credentials, []⟩
  | .regroup current | .regrouping current _ | .replace current _ => some current.origin
  | _ => none

/-- The revocation whose DELETE has started, and what it has found. -/
def claims : SessionAwait → Option (Revocation × List String)
  | .deleting r _ snapshot => some (r, snapshot)
  | .deletingSessions device number _ snapshot | .consume device number _ snapshot =>
    some (.credentials device.userId number none, snapshot)
  | _ => none

/-- Whether the request may be cut off: it has neither changed credentials without revoking the
sessions nor deleted sessions without a record. -/
def mayDrop : SessionAwait → Bool
  | .delete (.credentials _ _ _) _ _ | .deleting (.credentials _ _ _) _ _ => false
  | .record _ ids _ => ids.isEmpty
  | _ => true

end SessionAwait

namespace SessionState

variable (q : SessionState)

/-- No DELETE that has started and is not through covers a session from there. -/
def Unclaimed (o : SessionOrigin) : Prop := ∀ u ∈ q.requests, ∀ d ∈ u.claims, d.1.covers o = false

/-- The DELETE of a revocation misses nothing: no request is about to insert a session that is
covered, those that are there meet its condition, and the ids to be recorded are all that do. -/
structure Reached (r : Revocation) (target : SessionTarget) (listed : Option (List String)) : Prop where
  held : ∀ u ∈ q.requests, ∀ o ∈ u.yields, r.covers o = false
  live : ∀ s ∈ q.sessions.rows, r.covers s.origin = true → target.matches s = true
  listed : ∀ ids ∈ listed, ∀ s ∈ q.sessions.rows, target.matches s = true → s.id ∈ ids

/-- What a request finds when it goes on. -/
def Calm : SessionAwait → Prop
  | .verifyProof device => q.Unclaimed ⟨device.userId, q.credentials device.userId, []⟩
  | .select sessionId => ∀ s ∈ q.sessions.rows, s.id = sessionId → q.Unclaimed s.origin
  | .getOwned userId sessionId =>
    q.getOwnedSession sessionId userId = none → q.Reached (.device sessionId []) (.session sessionId userId) none
  | .delete r target listed => q.Reached (r.finds (q.find target)) target listed
  | .deleteSessions device number listed =>
    q.Reached (.credentials device.userId number none) (.user device.userId) (some listed)
  | _ => True

instance (o : SessionOrigin) : Decidable (q.Unclaimed o) :=
  inferInstanceAs (Decidable (∀ u ∈ q.requests, ∀ d ∈ u.claims, d.1.covers o = false))

instance (r : Revocation) (target : SessionTarget) (listed : Option (List String)) : Decidable (q.Reached r target listed) :=
  decidable_of_iff ((∀ u ∈ q.requests, ∀ o ∈ u.yields, r.covers o = false) ∧
      (∀ s ∈ q.sessions.rows, r.covers s.origin = true → target.matches s = true) ∧
      ∀ ids ∈ listed, ∀ s ∈ q.sessions.rows, target.matches s = true → s.id ∈ ids)
    ⟨fun ⟨hheld, hlive, hlisted⟩ => ⟨hheld, hlive, hlisted⟩, fun ⟨hheld, hlive, hlisted⟩ => ⟨hheld, hlive, hlisted⟩⟩

instance (t : SessionAwait) : Decidable (q.Calm t) := by
  cases t
  case verifyProof device => exact inferInstanceAs (Decidable (q.Unclaimed _))
  case select sessionId =>
    exact inferInstanceAs (Decidable (∀ s ∈ q.sessions.rows, s.id = sessionId → q.Unclaimed s.origin))
  case getOwned userId sessionId =>
    exact inferInstanceAs (Decidable (q.getOwnedSession sessionId userId = none → q.Reached _ _ _))
  case delete r target listed => exact inferInstanceAs (Decidable (q.Reached _ _ _))
  case deleteSessions device number listed => exact inferInstanceAs (Decidable (q.Reached _ _ _))
  all_goals exact inferInstanceAs (Decidable True)

/-- The condition on a step. -/
def Undisturbed (a : Time × SessionLabel) : Prop :=
  match a.2 with
  | .resume k _ _ => ∀ t ∈ q.requests[k]?, Calm { q with clock := a.1 } t
  | .drop k => ∀ t ∈ q.requests[k]?, t.mayDrop = true
  | _ => True

instance : (a : Time × SessionLabel) → Decidable (q.Undisturbed a)
  | (now, .resume k _ _) => inferInstanceAs (Decidable (∀ t ∈ q.requests[k]?, Calm { q with clock := now } t))
  | (_, .drop k) => inferInstanceAs (Decidable (∀ t ∈ q.requests[k]?, t.mayDrop = true))
  | (_, .login _) | (_, .refresh _) | (_, .change _ _ _) | (_, .recover _) | (_, .revokeDevice _ _ _) | (_, .cleanup) =>
    inferInstanceAs (Decidable True)

end SessionState

/-! ## What a revocation covers -/

namespace Revocation

variable {r : Revocation} {o : SessionOrigin} {id : String} {numbers : String → Nat}

def names : Revocation → List String
  | .credentials _ _ _ => []
  | .device sessionId found => sessionId :: found

/-- The new credentials are there. -/
def Settled (numbers : String → Nat) : Revocation → Prop
  | .credentials userId number _ => number ≤ numbers userId
  | .device _ _ => True

theorem covers_credentials {userId : String} {number : Nat} {spared : Option String} :
    (credentials userId number spared).covers o = true ↔
      o.userId = userId ∧ o.credentials < number ∧ ∀ id ∈ spared, id ∉ o.lineage := by
  cases spared <;> simp [covers, and_assoc]

theorem covers_device {sessionId : String} {found : List String} :
    (device sessionId found).covers o = true ↔ ∃ id ∈ o.lineage, id = sessionId ∨ id ∈ found := by
  simp [covers]

/-- A refresh under a new id takes no session out of reach. -/
theorem covers_extend (hid : id ∉ r.names) (h : r.covers (o.extend id) = true) : r.covers o = true := by
  cases r with
  | credentials userId number spared =>
    obtain ⟨huser, hlt, hspared⟩ := covers_credentials.1 h
    exact covers_credentials.2 ⟨huser, hlt, fun c hc hmem => hspared c hc (List.mem_cons_of_mem _ hmem)⟩
  | device sessionId found =>
    obtain ⟨x, hx, hnamed⟩ := covers_device.1 h
    rcases List.mem_cons.1 hx with rfl | hx
    · refine absurd ?_ hid
      rcases hnamed with rfl | hfound
      · exact List.mem_cons_self ..
      · exact List.mem_cons_of_mem _ hfound
    · exact covers_device.2 ⟨x, hx, hnamed⟩

/-- A login under the present credentials is not covered. -/
theorem covers_login (h : r.Settled numbers) (userId : String) :
    r.covers ⟨userId, numbers userId, []⟩ = false := by
  refine Bool.eq_false_iff.2 fun hcovers => ?_
  cases r with
  | credentials user number spared =>
    obtain ⟨rfl, hlt, -⟩ := covers_credentials.1 hcovers
    exact absurd hlt (Nat.not_lt.2 h)
  | device sessionId found =>
    obtain ⟨x, hx, -⟩ := covers_device.1 hcovers
    cases hx

theorem Settled.mono {numbers' : String → Nat} (h : r.Settled numbers)
    (hle : ∀ userId, numbers userId ≤ numbers' userId) : r.Settled numbers' := by
  cases r with
  | credentials userId number spared => exact Nat.le_trans h (hle userId)
  | device sessionId found => trivial

end Revocation

/-! ## What a step can do -/

namespace SessionState

variable {hashToken : String → String} {q q' : SessionState} {r : Revocation} {snapshot : List String}

/-- No session that the revocation covers is there or about to be inserted. -/
structure Gone (q : SessionState) (r : Revocation) : Prop where
  live : ∀ s ∈ q.sessions.rows, r.covers s.origin = false
  held : ∀ u ∈ q.requests, ∀ o ∈ u.yields, r.covers o = false
  settled : r.Settled q.credentials
  named : ∀ id ∈ r.names, id ∈ q.named

/-- Those that are there are the ones its DELETE has found. -/
structure Going (q : SessionState) (r : Revocation) (snapshot : List String) : Prop where
  live : ∀ s ∈ q.sessions.rows, r.covers s.origin = true → s.id ∈ snapshot
  held : ∀ u ∈ q.requests, ∀ o ∈ u.yields, r.covers o = false
  named : ∀ id ∈ r.names, id ∈ q.named

/-- A session is inserted as a request has held it, and a request gets hold of a session that is
there or of a login under the present credentials. -/
structure Advances (q q' : SessionState) : Prop where
  live : ∀ s ∈ q'.sessions.rows, s ∈ q.sessions.rows ∨
    ∃ u ∈ q.requests, ∃ o ∈ u.yields, ∃ id, id ∉ q.named ∧ s.origin = o.extend id
  held : ∀ u ∈ q'.requests, ∀ o ∈ u.yields, (∃ v ∈ q.requests, o ∈ v.yields) ∨ (∃ s ∈ q.sessions.rows, o = s.origin) ∨
    ∃ userId, o = ⟨userId, q'.credentials userId, []⟩
  credentials : ∀ userId, q.credentials userId ≤ q'.credentials userId
  named : ∀ id ∈ q.named, id ∈ q'.named

/-- **What is gone stays away.** -/
theorem Gone.advance (h : q.Gone r) (hstep : Advances q q') : q'.Gone r where
  live s hs := by
    rcases hstep.live s hs with hs | ⟨u, hu, o, ho, id, hid, heq⟩
    · exact h.live s hs
    · refine Bool.eq_false_iff.2 fun hcovers => ?_
      rw [heq] at hcovers
      have hnot := h.held u hu o ho
      rw [Revocation.covers_extend (fun hmem => hid (h.named id hmem)) hcovers] at hnot
      cases hnot
  held u hu o ho := by
    rcases hstep.held u hu o ho with ⟨v, hv, ho⟩ | ⟨s, hs, rfl⟩ | ⟨userId, rfl⟩
    · exact h.held v hv o ho
    · exact h.live s hs
    · exact Revocation.covers_login (h.settled.mono hstep.credentials) userId
  settled := h.settled.mono hstep.credentials
  named id hid := hstep.named id (h.named id hid)

theorem Going.advance (h : q.Going r snapshot) (hstep : Advances q q')
    (hnew : ∀ u ∈ q'.requests, ∀ o ∈ u.yields, (∀ v ∈ q.requests, o ∉ v.yields) → r.covers o = false) :
    q'.Going r snapshot where
  live s hs hcovers := by
    rcases hstep.live s hs with hs | ⟨u, hu, o, ho, id, hid, heq⟩
    · exact h.live s hs hcovers
    · rw [heq] at hcovers
      have hnot := h.held u hu o ho
      rw [Revocation.covers_extend (fun hmem => hid (h.named id hmem)) hcovers] at hnot
      cases hnot
  held u hu o ho := by
    by_cases hold : ∃ v ∈ q.requests, o ∈ v.yields
    · obtain ⟨v, hv, ho⟩ := hold
      exact h.held v hv o ho
    · exact hnew u hu o ho fun v hv hv' => hold ⟨v, hv, hv'⟩
  named id hid := hstep.named id (h.named id hid)

end SessionState

/-! ## The invariant -/

namespace SessionAwait

/-- The revocation whose DELETE is through. -/
def done : SessionAwait → Option Revocation
  | .record r _ _ | .audit r => some r
  | .create _ _ report | .clearing _ _ report _ | .insert _ _ report _ => report
  | _ => none

/-- The change that is committed, and whose sessions are still to be deleted. -/
def revokes : SessionAwait → Option Revocation
  | .delete (.credentials userId number spared) _ _ | .deleting (.credentials userId number spared) _ _ =>
    some (.credentials userId number spared)
  | _ => none

/-- The ids that are about to be recorded. -/
def pending : SessionAwait → List String
  | .record _ ids _ => ids
  | _ => []

theorem revokes_of_mayDrop {t : SessionAwait} (h : t.mayDrop = true) : t.revokes = none ∧ t.pending = [] := by
  unfold mayDrop at h
  split at h
  · cases h
  · cases h
  · exact ⟨rfl, List.isEmpty_iff.1 h⟩
  · next hdelete hdeleting hrecord =>
    cases t with
    | delete r target listed =>
      cases r with
      | credentials userId number spared => exact absurd rfl (hdelete userId number spared target listed)
      | device sessionId found => exact ⟨rfl, rfl⟩
    | deleting r listed snapshot =>
      cases r with
      | credentials userId number spared => exact absurd rfl (hdeleting userId number spared listed snapshot)
      | device sessionId found => exact ⟨rfl, rfl⟩
    | record r ids login => exact absurd rfl (hrecord r ids login)
    | _ => exact ⟨rfl, rfl⟩

/-- The session ids that the request names. -/
def names : SessionAwait → List String
  | .loadTarget _ _ sessionId | .loadCurrent _ _ sessionId _ | .getOwned _ sessionId | .listGroup sessionId _ => [sessionId]
  | .delete r _ _ => r.names
  | _ => []

/-- What the DELETE has found is among the ids to be recorded. -/
def Listed : SessionAwait → Prop
  | .deleting _ listed snapshot => ∀ ids ∈ listed, ∀ id ∈ snapshot, id ∈ ids
  | .deletingSessions _ _ listed snapshot | .consume _ _ listed snapshot => ∀ id ∈ snapshot, id ∈ listed
  | _ => True

structure Quiet (t : SessionAwait) : Prop where
  claims : t.claims = none
  done : t.done = none
  revokes : t.revokes = none
  listed : t.Listed

end SessionAwait

namespace SessionState

variable {hashToken : String → String} {q q' : SessionState} {r : Revocation} {k : Nat} {t t' : SessionAwait}

structure Fits (q : SessionState) (t : SessionAwait) : Prop where
  claims : ∀ d ∈ t.claims, q.Going d.1 d.2
  done : ∀ r ∈ t.done, q.Gone r
  revokes : ∀ r ∈ t.revokes, r.Settled q.credentials
  names : ∀ id ∈ t.names, id ∈ q.named
  listed : t.Listed

structure Sound (q : SessionState) : Prop where
  fits : ∀ u ∈ q.requests, q.Fits u
  reported : ∀ k r, .reported k r ∈ q.history → q.Gone r
  changed : ∀ k r, .changed k r ∈ q.history → (∃ u, q.requests[k]? = some u ∧ u.revokes = some r) ∨ q.Gone r
  recorded : ∀ k ids, .deleted k ids ∈ q.history → ∀ id ∈ ids,
    .recorded id ∈ q.history ∨ ∃ u, q.requests[k]? = some u ∧ id ∈ u.pending
  ids : ∀ s ∈ q.sessions.rows, s.id ∈ q.named
  /-- The row of a user is locked by one transaction at most, and does not change under it. -/
  locked : ∀ (k : Nat) (u : SessionAwait), q.requests[k]? = some u → ∀ l ∈ u.userLock, l.2 = q.credentials l.1 + 1 ∧
    ∀ (j : Nat) (v : SessionAwait), q.requests[j]? = some v → ∀ l' ∈ v.userLock, l'.1 = l.1 → j = k

theorem Fits.of_quiet (h : t.Quiet) (hnames : ∀ id ∈ t.names, id ∈ q.named) : q.Fits t where
  claims := by simp [h.claims]
  done := by simp [h.done]
  revokes := by simp [h.revokes]
  names := hnames
  listed := h.listed

theorem Fits.advance (h : q.Fits t) (hstep : Advances q q')
    (hnew : ∀ d ∈ t.claims, ∀ u ∈ q'.requests, ∀ o ∈ u.yields, (∀ v ∈ q.requests, o ∉ v.yields) → d.1.covers o = false) :
    q'.Fits t where
  claims d hd := (h.claims d hd).advance hstep (hnew d hd)
  done r hr := (h.done r hr).advance hstep
  revokes r hr := (h.revokes r hr).mono hstep.credentials
  names id hid := hstep.named id (h.names id hid)
  listed := h.listed

/-! ## A request goes on -/

/-- What a request does to the state when it goes on. -/
structure Follows (q q' : SessionState) (k : Nat) (t t' : SessionAwait) : Prop where
  requests : q'.requests = q.requests.set k t'
  advances : Advances q q'
  /-- It gets hold of nothing that another is about to delete. -/
  held : ∀ o ∈ t'.yields, o ∈ t.yields ∨ q.Unclaimed o
  fits : q'.Fits t'
  reported : ∀ j r, .reported j r ∈ q'.history → .reported j r ∈ q.history ∨ q'.Gone r
  changed : ∀ j r, .changed j r ∈ q'.history → .changed j r ∈ q.history ∨ q'.Gone r ∨ j = k ∧ t'.revokes = some r
  revokes : ∀ r, t.revokes = some r → t'.revokes = some r ∨ q'.Gone r
  deleted : ∀ j ids, .deleted j ids ∈ q'.history → .deleted j ids ∈ q.history ∨ j = k ∧ ∀ id ∈ ids, id ∈ t'.pending
  recorded : ∀ id, .recorded id ∈ q.history → .recorded id ∈ q'.history
  pending : ∀ id ∈ t.pending, id ∈ t'.pending ∨ .recorded id ∈ q'.history
  ids : ∀ s ∈ q'.sessions.rows, s.id ∈ q'.named
  /-- It locks a user's row that no other has locked, and writes only to that one. -/
  locks : ∀ l ∈ t'.userLock, l.2 = q'.credentials l.1 + 1 ∧
    ∀ (j : Nat) (v : SessionAwait), q.requests[j]? = some v → j ≠ k → ∀ l' ∈ v.userLock, l'.1 ≠ l.1
  others : ∀ (j : Nat) (v : SessionAwait), q.requests[j]? = some v → j ≠ k → ∀ l ∈ v.userLock,
    q'.credentials l.1 = q.credentials l.1

theorem getElem?_set_self' (hk : q.requests[k]? = some t) : (q.requests.set k t')[k]? = some t' := by
  rw [List.getElem?_set_self (List.getElem?_eq_some_iff.1 hk).1]

theorem mem_of_ne {j : Nat} {v : SessionAwait} (hj : j ≠ k) (hv : (q.requests.set k t')[j]? = some v) :
    q.requests[j]? = some v := by
  rwa [List.getElem?_set_ne hj.symm] at hv

theorem Sound.follows (h : q.Sound) (hk : q.requests[k]? = some t) (hf : Follows q q' k t t') : q'.Sound where
  fits u hu := by
    rw [hf.requests] at hu
    rcases List.mem_or_eq_of_mem_set hu with hold | rfl
    · refine (h.fits u hold).advance hf.advances fun d hd v hv o ho hnew => ?_
      rw [hf.requests] at hv
      rcases List.mem_or_eq_of_mem_set hv with hv' | heq
      · exact absurd ho (hnew v hv')
      · rcases hf.held o (heq ▸ ho) with hheld | hunclaimed
        · exact absurd hheld (hnew t (List.mem_of_getElem? hk))
        · exact hunclaimed u hold d hd
    · exact hf.fits
  reported j r hr := by
    rcases hf.reported j r hr with hr | hgone
    · exact (h.reported j r hr).advance hf.advances
    · exact hgone
  changed j r hr := by
    rw [hf.requests]
    rcases hf.changed j r hr with hr | hgone | ⟨rfl, hrevokes⟩
    · rcases h.changed j r hr with ⟨u, hu, hrevokes⟩ | hgone
      · by_cases hj : j = k
        · subst hj
          rw [hk] at hu
          cases hu
          exact (hf.revokes r hrevokes).imp (fun hr => ⟨t', getElem?_set_self' hk, hr⟩) id
        · exact .inl ⟨u, by rw [List.getElem?_set_ne (Ne.symm hj)]; exact hu, hrevokes⟩
      · exact .inr (hgone.advance hf.advances)
    · exact .inr hgone
    · exact .inl ⟨t', getElem?_set_self' hk, hrevokes⟩
  recorded j ids hids id hid := by
    rw [hf.requests]
    rcases hf.deleted j ids hids with hids | ⟨rfl, hpending⟩
    · rcases h.recorded j ids hids id hid with hrecorded | ⟨u, hu, hpending⟩
      · exact .inl (hf.recorded id hrecorded)
      · by_cases hj : j = k
        · subst hj
          rw [hk] at hu
          cases hu
          rcases hf.pending id hpending with hpending | hrecorded
          · exact .inr ⟨t', getElem?_set_self' hk, hpending⟩
          · exact .inl hrecorded
        · exact .inr ⟨u, by rw [List.getElem?_set_ne (Ne.symm hj)]; exact hu, hpending⟩
    · exact .inr ⟨t', getElem?_set_self' hk, hpending id hid⟩
  ids := hf.ids
  locked j u hu l hl := by
    rw [hf.requests] at hu ⊢
    by_cases hj : j = k
    · subst hj
      rw [getElem?_set_self' hk] at hu
      cases hu
      obtain ⟨hnumber, hother⟩ := hf.locks l hl
      refine ⟨hnumber, fun i v hv l' hl' heq => ?_⟩
      by_cases hi : i = j
      · exact hi
      · exact absurd heq (hother i v (mem_of_ne hi hv) hi l' hl')
    · have hold := mem_of_ne hj hu
      obtain ⟨hnumber, hother⟩ := h.locked j u hold l hl
      refine ⟨by rw [hnumber, hf.others j u hold hj l hl], fun i v hv l' hl' heq => ?_⟩
      by_cases hi : i = k
      · rw [hi, getElem?_set_self' hk] at hv
        cases hv
        exact absurd heq.symm ((hf.locks l' hl').2 j u hold hj l hl)
      · exact hother i v (mem_of_ne hi hv) l' hl' heq

theorem Advances.goOn (hyields : ∀ o ∈ t'.yields, (∃ v ∈ q.requests, o ∈ v.yields) ∨
    (∃ s ∈ q.sessions.rows, o = s.origin) ∨ ∃ userId, o = ⟨userId, q.credentials userId, []⟩) :
    Advances q (q.goOn k t') where
  live s hs := .inl hs
  held u hu o ho := by
    rcases List.mem_or_eq_of_mem_set hu with hu | rfl
    · exact .inl ⟨u, hu, ho⟩
    · exact hyields o ho
  credentials _ := Nat.le_refl _
  named _ hid := hid

theorem userBlocked_eq_false {userId : String} (h : q.userBlocked k userId = false) :
    ∀ (j : Nat) (v : SessionAwait), q.requests[j]? = some v → j ≠ k → ∀ l ∈ v.userLock, l.1 ≠ userId := by
  intro j v hv hj l hl heq
  simp only [userBlocked, List.any_eq_false] at h
  have hmem : v ∈ q.requests.set k .ended := List.mem_of_getElem? (by rw [List.getElem?_set_ne hj.symm]; exact hv)
  exact h v hmem (by rw [Option.mem_def.1 hl]; simp [heq])

/-- A request that only goes on: nothing but its own place in the list changes. -/
theorem follows_goOn (h : q.Sound) (hk : q.requests[k]? = some t)
    (hyields : ∀ o ∈ t'.yields, o ∈ t.yields ∨ q.Unclaimed o ∧
      ((∃ s ∈ q.sessions.rows, o = s.origin) ∨ ∃ userId, o = ⟨userId, q.credentials userId, []⟩))
    (hfits : Advances q (q.goOn k t') → (q.goOn k t').Fits t')
    (hrevokes : ∀ r, t.revokes = some r → t'.revokes = some r) (hpending : ∀ id ∈ t.pending, id ∈ t'.pending)
    (hlock : ∀ l ∈ t'.userLock, l ∈ t.userLock ∨ l.2 = q.credentials l.1 + 1 ∧ q.userBlocked k l.1 = false) :
    Follows q (q.goOn k t') k t t' := by
  have hadvances : Advances q (q.goOn k t') := .goOn fun o ho =>
    (hyields o ho).imp (fun hold => ⟨t, List.mem_of_getElem? hk, hold⟩) fun hnew => hnew.2
  exact
    { requests := rfl
      advances := hadvances
      held := fun o ho => (hyields o ho).imp_right fun hnew => hnew.1
      fits := hfits hadvances
      reported := fun _ _ hr => .inl hr
      changed := fun _ _ hr => .inl hr
      revokes := fun r hr => .inl (hrevokes r hr)
      deleted := fun _ _ hids => .inl hids
      recorded := fun _ hid => hid
      pending := fun id hid => .inl (hpending id hid)
      ids := h.ids
      locks := fun l hl => by
        rcases hlock l hl with hold | ⟨hnumber, hfree⟩
        · obtain ⟨hnumber, hother⟩ := h.locked k t hk l hold
          exact ⟨hnumber, fun j v hv hj l' hl' heq => hj (hother j v hv l' hl' heq)⟩
        · exact ⟨hnumber, userBlocked_eq_false hfree⟩
      others := fun _ _ _ _ _ _ => rfl }

theorem Fits.carry (h : q.Fits t) (hstep : Advances q q') (hclaims : t'.claims = none) (hdone : ∀ r ∈ t'.done, r ∈ t.done)
    (hrevokes : t'.revokes = none) (hnames : ∀ id ∈ t'.names, id ∈ t.names) (hlisted : t'.Listed) : q'.Fits t' where
  claims := by simp [hclaims]
  done r hr := (h.done r (hdone r hr)).advance hstep
  revokes := by simp [hrevokes]
  names id hid := hstep.named id (h.names id (hnames id hid))
  listed := hlisted

theorem forall_mem_none {α : Type} (p : α → Prop) : ∀ a ∈ (none : Option α), p a := by simp

/-- A request that goes on without a DELETE. -/
theorem Sound.carry (h : q.Sound) (hk : q.requests[k]? = some t)
    (hyields : ∀ o ∈ t'.yields, o ∈ t.yields ∨ q.Unclaimed o ∧
      ((∃ s ∈ q.sessions.rows, o = s.origin) ∨ ∃ userId, o = ⟨userId, q.credentials userId, []⟩))
    (hclaims : t'.claims = none) (hdone : ∀ r ∈ t'.done, r ∈ t.done) (ht : t.revokes = none) (ht' : t'.revokes = none)
    (hnames : ∀ id ∈ t'.names, id ∈ t.names) (hpending : ∀ id ∈ t.pending, id ∈ t'.pending) (hlisted : t'.Listed)
    (hlock : t'.userLock = none) : (q.goOn k t').Sound := by
  refine h.follows hk (follows_goOn h hk hyields (fun hadvances => ?_) (by simp [ht]) hpending (by simp [hlock]))
  exact (h.fits t (List.mem_of_getElem? hk)).carry hadvances hclaims hdone ht' hnames hlisted

/-- A request ends: everything it has held is let go. -/
theorem Sound.finish (h : q.Sound) (hk : q.requests[k]? = some t) (ht : t.revokes = none) (hpending : t.pending = []) :
    (q.goOn k .ended).Sound :=
  h.carry hk nofun rfl nofun ht rfl nofun (by simp [hpending]) trivial rfl

/-- A request goes on, with nothing new to yield or to have done, and nothing pending. -/
theorem Sound.plain (h : q.Sound) (hk : q.requests[k]? = some t) (hyields : t'.yields = none ∨ t'.yields = t.yields)
    (hclaims : t'.claims = none) (hdone : t'.done = none ∨ t'.done = t.done) (ht : t.revokes = none) (ht' : t'.revokes = none)
    (hnames : t'.names ⊆ t.names) (hpending : t.pending = []) (hlisted : t'.Listed) (hlock : t'.userLock = none) :
    (q.goOn k t').Sound := by
  refine h.carry hk (fun o ho => .inl ?_) hclaims (fun r hr => ?_) ht ht' (fun _ hid => hnames hid) (by simp [hpending]) hlisted hlock
  · obtain hy | hy := hyields <;> simp_all
  · obtain hd | hd := hdone <;> simp_all

/-! ### Sessions are inserted -/

theorem remove_live {ids : List String} {s : SessionRow} (hs : s ∈ (q.remove ids).sessions.rows) :
    s ∈ q.sessions.rows ∧ s.id ∉ ids := by
  obtain ⟨hmem, hnot⟩ := Table.mem_deleteWhere.1 hs
  exact ⟨hmem, by simpa using hnot⟩

theorem insert_some {s : SessionRow} {q₁ : SessionState} (hins : q.insert s = some q₁) :
    s.id ∉ q.named ∧ ∃ sessions, q.sessions.insert s = some sessions ∧
      q₁ = { q with sessions, named := s.id :: q.named } := by
  simp only [insert] at hins
  split at hins
  · cases hins
  · next hnew =>
    obtain ⟨sessions, hsessions, rfl⟩ := Option.map_eq_some_iff.1 hins
    exact ⟨hnew, sessions, hsessions, rfl⟩

/-- The transaction that inserts what the request has held. -/
theorem Sound.inserts (h : q.Sound) (hk : q.requests[k]? = some t) {cleared : List String} {s : SessionRow}
    {o : SessionOrigin} {q₁ : SessionState} (hyields : o ∈ t.yields) (horigin : s.origin = o.extend s.id)
    (hins : (q.remove cleared).insert s = some q₁) (hy : t'.yields = none) (hclaims : t'.claims = none)
    (hdone : ∀ r ∈ t'.done, r ∈ t.done) (ht : t.revokes = none) (ht' : t'.revokes = none) (hnames : t'.names = [])
    (hpending : t.pending = []) (hlisted : t'.Listed) (hlock : t'.userLock = none) : (q₁.goOn k t').Sound := by
  obtain ⟨hnew, sessions, hsessions, rfl⟩ := insert_some hins
  have hlive : ∀ x ∈ sessions.rows, x ∈ q.sessions.rows ∨ x = s := fun x hx =>
    ((Table.mem_insert hsessions x).1 hx).imp_left fun hx => (remove_live hx).1
  have hadvances : Advances q (goOn { q.remove cleared with sessions, named := s.id :: q.named } k t') := by
    refine ⟨fun x hx => ?_, fun u hu o' ho' => ?_, fun _ => Nat.le_refl _, fun id hid => List.mem_cons_of_mem _ hid⟩
    · rcases hlive x hx with hx | rfl
      · exact .inl hx
      · exact .inr ⟨t, List.mem_of_getElem? hk, o, hyields, x.id, hnew, horigin⟩
    · rcases List.mem_or_eq_of_mem_set hu with hu | rfl
      · exact .inl ⟨u, hu, ho'⟩
      · rw [hy] at ho'
        cases ho'
  refine h.follows hk
    { requests := rfl
      advances := hadvances
      held := by simp [hy]
      fits := (h.fits t (List.mem_of_getElem? hk)).carry hadvances hclaims hdone ht' (by simp [hnames]) hlisted
      reported := fun _ _ hr => .inl hr
      changed := fun _ _ hr => .inl hr
      revokes := by simp [ht]
      deleted := fun _ _ hids => .inl hids
      recorded := fun _ hid => hid
      pending := by simp [hpending]
      ids := fun x hx => ?_
      locks := by simp [hlock]
      others := fun _ _ _ _ _ _ => rfl }
  rcases hlive x hx with hx | rfl
  · exact List.mem_cons_of_mem _ (h.ids x hx)
  · exact List.mem_cons_self ..

/-! ### Revocations -/

theorem mem_find {target : SessionTarget} {s : SessionRow} (hs : s ∈ q.sessions.rows) (hmatches : target.matches s = true) :
    s.id ∈ q.find target := List.mem_map_of_mem (Table.mem_select.2 ⟨hs, hmatches⟩)

theorem mem_still {ids : List String} {s : SessionRow} (hs : s ∈ q.sessions.rows) (hid : s.id ∈ ids) :
    s.id ∈ q.still ids := by
  refine List.mem_filter.2 ⟨hid, ?_⟩
  have hget : q.sessions.get? s.id = some s := Table.get?_key hs
  rw [hget]
  rfl

theorem still_subset {ids : List String} {id : String} (hid : id ∈ q.still ids) : id ∈ ids := (List.mem_filter.1 hid).1

/-- A DELETE that misses nothing starts. -/
theorem Reached.going {target : SessionTarget} {listed : Option (List String)} (hC : q.Reached r target listed)
    (hnamed : ∀ id ∈ r.names, id ∈ q.named) (hy : t'.yields = none) : (q.goOn k t').Going r (q.find target) where
  live s hs hcovers := mem_find hs (hC.live s hs hcovers)
  held u hu o ho := by
    rcases List.mem_or_eq_of_mem_set hu with hu | rfl
    · exact hC.held u hu o ho
    · rw [hy] at ho
      cases ho
  named := hnamed

/-- Its rows are deleted, and none is left. -/
theorem Going.gone {snapshot : List String} (h : q.Going r snapshot) (hsettled : r.Settled q'.credentials)
    (hlive : ∀ s ∈ q'.sessions.rows, s ∈ q.sessions.rows ∧ s.id ∉ q.still snapshot)
    (hheld : ∀ u ∈ q'.requests, ∀ o ∈ u.yields, (∃ v ∈ q.requests, o ∈ v.yields) ∨ r.covers o = false)
    (hnamed : ∀ id ∈ q.named, id ∈ q'.named) : q'.Gone r where
  live s hs := by
    obtain ⟨hs, hnot⟩ := hlive s hs
    exact Bool.eq_false_iff.2 fun hcovers => hnot (mem_still hs (h.live s hs hcovers))
  held u hu o ho := by
    rcases hheld u hu o ho with ⟨v, hv, ho⟩ | hnot
    · exact h.held v hv o ho
    · exact hnot
  settled := hsettled
  named id hid := hnamed id (h.named id hid)

theorem Sound.update (h : q.Sound) {change : CredentialChange} {userId currentSessionId : String}
    (hk : q.requests[k]? = some (.update change userId currentSessionId)) (hfree : q.userBlocked k userId = false) :
    (((q.setCredentials userId (q.credentials userId + 1)).tell
      (.changed k (.credentials userId (q.credentials userId + 1) (change.spared currentSessionId)))).goOn k
      (.delete (.credentials userId (q.credentials userId + 1) (change.spared currentSessionId))
        (change.target userId currentSessionId) none)).Sound := by
  have hle : ∀ user, q.credentials user ≤ Function.update q.credentials userId (q.credentials userId + 1) user := by
    intro user
    by_cases huser : user = userId
    · simp [huser]
    · simp [Function.update_of_ne huser]
  refine h.follows hk
    { requests := rfl
      advances := ⟨fun _ hs => .inl hs, fun u hu o ho => ?_, hle, fun _ hid => hid⟩
      held := nofun
      fits := ⟨nofun, nofun, ?_, nofun, trivial⟩
      reported := fun _ _ hr => .inl ((List.mem_cons.1 hr).resolve_left nofun)
      changed := fun j r hr => ?_
      revokes := nofun
      deleted := fun _ _ hids => .inl ((List.mem_cons.1 hids).resolve_left nofun)
      recorded := fun id hid => List.mem_cons_of_mem _ hid
      pending := nofun
      ids := h.ids
      locks := nofun
      others := fun j v hv hj l hl => Function.update_of_ne (userBlocked_eq_false hfree j v hv hj l hl) .. }
  · rcases List.mem_or_eq_of_mem_set hu with hu | rfl
    · exact .inl ⟨u, hu, ho⟩
    · cases ho
  · intro r hr
    cases hr
    show _ ≤ Function.update q.credentials userId (q.credentials userId + 1) userId
    rw [Function.update_self]
  · rcases List.mem_cons.1 hr with heq | hr
    · cases heq
      exact .inr (.inr ⟨rfl, rfl⟩)
    · exact .inl hr

theorem Sound.deletes (h : q.Sound) {target : SessionTarget} {listed : Option (List String)}
    (hk : q.requests[k]? = some (.delete r target listed)) (hC : q.Reached (r.finds (q.find target)) target listed) :
    (q.goOn k (.deleting (r.finds (q.find target)) listed (q.find target))).Sound := by
  have hfits := h.fits _ (List.mem_of_getElem? hk)
  have hnamed : ∀ id ∈ (r.finds (q.find target)).names, id ∈ q.named := by
    intro id hid
    cases r with
    | credentials userId number spared => cases hid
    | device sessionId found =>
      rcases List.mem_cons.1 hid with rfl | hid
      · exact hfits.names id (List.mem_cons_self ..)
      · obtain ⟨s, hs, rfl⟩ := List.mem_map.1 hid
        exact h.ids s (Table.mem_select.1 hs).1
  refine h.follows hk (follows_goOn h hk nofun (fun _ => ?_) ?_ nofun nofun)
  · refine ⟨fun d hd => ?_, nofun, fun r' hr' => ?_, nofun, fun ids hids id hid => ?_⟩
    · cases hd
      exact hC.going hnamed rfl
    · cases r with
      | credentials userId number spared => cases hr'; exact hfits.revokes _ rfl
      | device sessionId found => cases hr'
    · obtain ⟨s, hs, rfl⟩ := List.mem_map.1 hid
      exact hC.listed ids hids s (Table.mem_select.1 hs).1 (Table.mem_select.1 hs).2
  · intro r' hr'
    cases r with
    | credentials userId number spared => exact hr'
    | device sessionId found => cases hr'

theorem Sound.deleted (h : q.Sound) {listed : Option (List String)} {snapshot : List String}
    (hk : q.requests[k]? = some (.deleting r listed snapshot)) :
    (((q.remove (q.still snapshot)).tell (.deleted k (q.still snapshot))).goOn k
      (.record r (listed.getD (q.still snapshot)) none)).Sound := by
  have hfits := h.fits _ (List.mem_of_getElem? hk)
  have hgoing : q.Going r snapshot := hfits.claims _ rfl
  have hsettled : r.Settled q.credentials := by
    cases r with
    | credentials userId number spared => exact hfits.revokes _ rfl
    | device sessionId found => trivial
  have hheld : ∀ u ∈ q.requests.set k (.record r (listed.getD (q.still snapshot)) none), ∀ o ∈ u.yields,
      ∃ v ∈ q.requests, o ∈ v.yields := by
    intro u hu o ho
    rcases List.mem_or_eq_of_mem_set hu with hu | rfl
    · exact ⟨u, hu, ho⟩
    · cases ho
  have hgone : (((q.remove (q.still snapshot)).tell (.deleted k (q.still snapshot))).goOn k
      (.record r (listed.getD (q.still snapshot)) none)).Gone r :=
    hgoing.gone hsettled (fun s hs => remove_live hs) (fun u hu o ho => .inl (hheld u hu o ho)) fun _ hid => hid
  refine h.follows hk
    { requests := rfl
      advances := ⟨fun s hs => .inl (remove_live hs).1, fun u hu o ho => .inl (hheld u hu o ho), fun _ => Nat.le_refl _,
        fun _ hid => hid⟩
      held := nofun
      fits := ⟨nofun, fun r' hr' => ?_, nofun, nofun, trivial⟩
      reported := fun _ _ hr => .inl ((List.mem_cons.1 hr).resolve_left nofun)
      changed := fun _ _ hr => .inl ((List.mem_cons.1 hr).resolve_left nofun)
      revokes := fun r' hr' => ?_
      deleted := fun j ids hids => ?_
      recorded := fun id hid => List.mem_cons_of_mem _ hid
      pending := nofun
      ids := fun s hs => h.ids s (remove_live hs).1
      locks := nofun
      others := fun _ _ _ _ _ _ => rfl }
  · cases hr'
    exact hgone
  · cases r with
    | credentials userId number spared => cases hr'; exact .inr hgone
    | device sessionId found => cases hr'
  · rcases List.mem_cons.1 hids with heq | hids
    · cases heq
      refine .inr ⟨rfl, fun id hid => ?_⟩
      cases listed with
      | none => exact hid
      | some ids => exact hfits.listed ids rfl id (still_subset hid)
    · exact .inl hids

/-! ### A recovery -/

theorem Sound.deletesAll (h : q.Sound) {device : SessionDevice} {number : Nat} {listed : List String}
    (hk : q.requests[k]? = some (.deleteSessions device number listed))
    (hC : q.Reached (.credentials device.userId number none) (.user device.userId) (some listed)) :
    (q.goOn k (.deletingSessions device number listed (q.find (.user device.userId)))).Sound := by
  refine h.follows hk (follows_goOn h hk nofun (fun _ => ?_) nofun nofun fun l hl => .inl hl)
  refine ⟨fun d hd => ?_, nofun, nofun, nofun, fun id hid => ?_⟩
  · cases hd
    exact hC.going nofun rfl
  · obtain ⟨s, hs, rfl⟩ := List.mem_map.1 hid
    exact hC.listed listed rfl s (Table.mem_select.1 hs).1 (Table.mem_select.1 hs).2

theorem Sound.finds (h : q.Sound) {device : SessionDevice} {number : Nat} {listed snapshot : List String}
    (hk : q.requests[k]? = some (.deletingSessions device number listed snapshot)) :
    (q.goOn k (.consume device number listed (q.still snapshot))).Sound := by
  have hfits := h.fits _ (List.mem_of_getElem? hk)
  have hgoing : q.Going (.credentials device.userId number none) snapshot := hfits.claims _ rfl
  refine h.follows hk (follows_goOn h hk nofun (fun hadvances => ?_) nofun nofun fun l hl => .inl hl)
  refine ⟨fun d hd => ?_, nofun, nofun, nofun, fun id hid => hfits.listed id (still_subset hid)⟩
  cases hd
  have hgoing' := hgoing.advance hadvances fun u hu o ho hnew => by
    rcases List.mem_or_eq_of_mem_set hu with hu | rfl
    · exact absurd ho (hnew u hu)
    · cases ho
  exact ⟨fun s hs hcovers => mem_still hs (hgoing.live s hs hcovers), hgoing'.held, hgoing'.named⟩

/-- The session that a recovery creates is not one that another DELETE is after. -/
theorem Sound.unclaimed_recovered (h : q.Sound) {device : SessionDevice} {number : Nat} {listed deleted : List String}
    (hk : q.requests[k]? = some (.consume device number listed deleted)) :
    q.Unclaimed ⟨device.userId, number, []⟩ := by
  intro u hu d hd
  obtain ⟨hnumber, hother⟩ := h.locked k _ hk _ rfl
  obtain ⟨j, hj⟩ := List.getElem?_of_mem hu
  refine Bool.eq_false_iff.2 fun hcovers => ?_
  have hown : ∀ device' number', u.userLock = some (device', number') →
      (Revocation.credentials device' number' none).covers ⟨device.userId, number, []⟩ = true → False := by
    intro userId number' hlock hcovers
    obtain ⟨huser, hlt, -⟩ := Revocation.covers_credentials.1 hcovers
    have hsame := hother j u hj _ hlock huser.symm
    subst hsame
    rw [hk] at hj
    cases hj
    cases hlock
    exact absurd hlt (Nat.lt_irrefl _)
  cases u <;> simp only [SessionAwait.claims, Option.mem_def, reduceCtorEq, Option.some.injEq] at hd
  case deleting r listed snapshot =>
    subst hd
    cases r with
    | credentials userId number' spared =>
      obtain ⟨rfl, hlt, -⟩ := Revocation.covers_credentials.1 hcovers
      have hsettled : number' ≤ q.credentials device.userId := (h.fits _ hu).revokes _ rfl
      simp only at hnumber hlt
      omega
    | device sessionId found =>
      obtain ⟨x, hx, -⟩ := Revocation.covers_device.1 hcovers
      cases hx
  case deletingSessions device' number' listed' snapshot =>
    subst hd
    exact hown _ _ rfl hcovers
  case consume device' number' listed' deleted' =>
    subst hd
    exact hown _ _ rfl hcovers

theorem Sound.recovers (h : q.Sound) {device : SessionDevice} {number : Nat} {listed deleted : List String}
    (hk : q.requests[k]? = some (.consume device number listed deleted)) :
    (((((q.remove deleted).setCredentials device.userId number).tell
      (.changed k (.credentials device.userId number none))).tell (.deleted k deleted)).goOn k
      (.record (.credentials device.userId number none) listed (some (device, number)))).Sound := by
  have hfits := h.fits _ (List.mem_of_getElem? hk)
  have hgoing : q.Going (.credentials device.userId number none) deleted := hfits.claims _ rfl
  obtain ⟨hnumber, hother⟩ := h.locked k _ hk _ rfl
  have hle : ∀ user, q.credentials user ≤ Function.update q.credentials device.userId number user := by
    intro user
    by_cases huser : user = device.userId
    · subst huser
      simp only at hnumber
      rw [Function.update_self]
      omega
    · rw [Function.update_of_ne huser]
  have hheld : ∀ u ∈ q.requests.set k (.record (.credentials device.userId number none) listed (some (device, number))),
      ∀ o ∈ u.yields, (∃ v ∈ q.requests, o ∈ v.yields) ∨ o = ⟨device.userId, number, []⟩ := by
    intro u hu o ho
    rcases List.mem_or_eq_of_mem_set hu with hu | rfl
    · exact .inl ⟨u, hu, ho⟩
    · cases ho
      exact .inr rfl
  have hself : (Revocation.credentials device.userId number none).covers ⟨device.userId, number, []⟩ = false := by
    simp [Revocation.covers]
  have hgone : (((((q.remove deleted).setCredentials device.userId number).tell
      (.changed k (.credentials device.userId number none))).tell (.deleted k deleted)).goOn k
      (.record (.credentials device.userId number none) listed (some (device, number)))).Gone
        (.credentials device.userId number none) := by
    refine hgoing.gone ?_ (fun s hs => ?_) (fun u hu o ho => ?_) fun _ hid => hid
    · show number ≤ Function.update q.credentials device.userId number device.userId
      rw [Function.update_self]
    · obtain ⟨hs, hnot⟩ := remove_live hs
      exact ⟨hs, fun hstill => hnot (still_subset hstill)⟩
    · rcases hheld u hu o ho with hold | rfl
      · exact .inl hold
      · exact .inr hself
  refine h.follows hk
    { requests := rfl
      advances := ⟨fun s hs => .inl (remove_live hs).1, fun u hu o ho => ?_, hle, fun _ hid => hid⟩
      held := fun o ho => ?_
      fits := ⟨nofun, fun r hr => ?_, nofun, nofun, trivial⟩
      reported := fun j r hr => ?_
      changed := fun j r hr => ?_
      revokes := nofun
      deleted := fun j ids hids => ?_
      recorded := fun id hid => List.mem_cons_of_mem _ (List.mem_cons_of_mem _ hid)
      pending := nofun
      ids := fun s hs => h.ids s (remove_live hs).1
      locks := nofun
      others := fun j v hv hj l hl => Function.update_of_ne (fun heq => hj (hother j v hv l hl heq)) .. }
  · rcases hheld u hu o ho with hold | rfl
    · exact .inl hold
    · refine .inr (.inr ⟨device.userId, ?_⟩)
      show _ = (⟨device.userId, Function.update q.credentials device.userId number device.userId, []⟩ : SessionOrigin)
      rw [Function.update_self]
  · cases ho
    exact .inr (h.unclaimed_recovered hk)
  · cases hr
    exact hgone
  · rcases List.mem_cons.1 hr with heq | hr
    · cases heq
    · exact .inl ((List.mem_cons.1 hr).resolve_left nofun)
  · rcases List.mem_cons.1 hr with heq | hr
    · cases heq
    · rcases List.mem_cons.1 hr with heq | hr
      · cases heq
        exact .inr (.inl hgone)
      · exact .inl hr
  · rcases List.mem_cons.1 hids with heq | hids
    · cases heq
      exact .inr ⟨rfl, fun id hid => hfits.listed id hid⟩
    · exact .inl ((List.mem_cons.1 hids).resolve_left nofun)

/-! ### Records and reports -/

theorem Sound.records (h : q.Sound) {id : String} {ids : List String} {login : Option (SessionDevice × Nat)}
    (hk : q.requests[k]? = some (.record r (id :: ids) login)) :
    ((q.tell (.recorded id)).goOn k (.record r ids login)).Sound := by
  have hyields : (SessionAwait.record r ids login).yields = (SessionAwait.record r (id :: ids) login).yields := by
    cases login <;> rfl
  have hadvances : Advances q ((q.tell (.recorded id)).goOn k (.record r ids login)) := by
    refine ⟨fun _ hs => .inl hs, fun u hu o ho => .inl ?_, fun _ => Nat.le_refl _, fun _ hid => hid⟩
    rcases List.mem_or_eq_of_mem_set hu with hu | rfl
    · exact ⟨u, hu, ho⟩
    · exact ⟨_, List.mem_of_getElem? hk, hyields ▸ ho⟩
  refine h.follows hk
    { requests := rfl
      advances := hadvances
      held := fun o ho => .inl (hyields ▸ ho)
      fits := ⟨nofun, fun r' hr' => ((h.fits _ (List.mem_of_getElem? hk)).done r' hr').advance hadvances, nofun, nofun,
        trivial⟩
      reported := fun _ _ hr => .inl ((List.mem_cons.1 hr).resolve_left nofun)
      changed := fun _ _ hr => .inl ((List.mem_cons.1 hr).resolve_left nofun)
      revokes := nofun
      deleted := fun _ _ hids => .inl ((List.mem_cons.1 hids).resolve_left nofun)
      recorded := fun _ hid => List.mem_cons_of_mem _ hid
      pending := fun id' hid' => ?_
      ids := h.ids
      locks := nofun
      others := fun _ _ _ _ _ _ => rfl }
  rcases List.mem_cons.1 hid' with rfl | hid'
  · exact .inr (List.mem_cons_self ..)
  · exact .inl hid'

/-- A revocation that is through is reported. -/
theorem Sound.reports (h : q.Sound) (hk : q.requests[k]? = some t) (ht : t.revokes = none) (hpending : t.pending = [])
    (hgone : q.Gone r) : ((q.tell (.reported k r)).goOn k .ended).Sound := by
  have hadvances : Advances q ((q.tell (.reported k r)).goOn k .ended) := by
    refine ⟨fun _ hs => .inl hs, fun u hu o ho => .inl ?_, fun _ => Nat.le_refl _, fun _ hid => hid⟩
    rcases List.mem_or_eq_of_mem_set hu with hu | rfl
    · exact ⟨u, hu, ho⟩
    · cases ho
  exact h.follows hk
    { requests := rfl
      advances := hadvances
      held := nofun
      fits := .of_quiet ⟨rfl, rfl, rfl, trivial⟩ nofun
      reported := fun j r' hr' => by
        rcases List.mem_cons.1 hr' with heq | hr'
        · cases heq
          exact .inr (hgone.advance hadvances)
        · exact .inl hr'
      changed := fun _ _ hr => .inl ((List.mem_cons.1 hr).resolve_left nofun)
      revokes := by simp [ht]
      deleted := fun _ _ hids => .inl ((List.mem_cons.1 hids).resolve_left nofun)
      recorded := fun _ hid => List.mem_cons_of_mem _ hid
      pending := by simp [hpending]
      ids := h.ids
      locks := nofun
      others := fun _ _ _ _ _ _ => rfl }

/-! ## Runs -/

theorem Sound.start (h : q.Sound) (ht : t.Quiet) (hy : t.yields = none) (hnames : ∀ id ∈ t.names, id ∈ q.named)
    (hlock : t.userLock = none) : (q.start t).Sound := by
  have hadvances : Advances q (q.start t) := by
    refine ⟨fun _ hs => .inl hs, fun u hu o ho => .inl ?_, fun _ => Nat.le_refl _, fun _ hid => hid⟩
    rcases List.mem_append.1 hu with hu | hu
    · exact ⟨u, hu, ho⟩
    · rw [List.mem_singleton.1 hu, hy] at ho
      cases ho
  have hold : ∀ {j : Nat} {v : SessionAwait}, (q.start t).requests[j]? = some v → q.requests[j]? = some v ∨ v = t := by
    intro j v hv
    rcases Nat.lt_or_ge j q.requests.length with hj | hj
    · exact .inl (by rwa [SessionState.start, List.getElem?_append_left hj] at hv)
    · rw [SessionState.start, List.getElem?_append_right hj] at hv
      exact .inr (List.mem_singleton.1 (List.mem_of_getElem? hv))
  have hkeep : ∀ {j : Nat} {v : SessionAwait}, q.requests[j]? = some v → (q.start t).requests[j]? = some v := by
    intro j v hv
    rw [SessionState.start, List.getElem?_append_left (List.getElem?_eq_some_iff.1 hv).1]
    exact hv
  refine ⟨fun u hu => ?_, fun j r hr => (h.reported j r hr).advance hadvances, fun j r hr => ?_, fun j ids hids id hid => ?_,
    h.ids, fun j u hu l hl => ?_⟩
  · rcases List.mem_append.1 hu with hu | hu
    · refine (h.fits u hu).advance hadvances fun d hd v hv o ho hnew => ?_
      rcases List.mem_append.1 hv with hv | hv
      · exact absurd ho (hnew v hv)
      · rw [List.mem_singleton.1 hv, hy] at ho
        cases ho
    · rw [List.mem_singleton.1 hu]
      exact .of_quiet ht hnames
  · exact (h.changed j r hr).imp (fun ⟨u, hu, hrevokes⟩ => ⟨u, hkeep hu, hrevokes⟩) fun hgone => hgone.advance hadvances
  · exact (h.recorded j ids hids id hid).imp_right fun ⟨u, hu, hpending⟩ => ⟨u, hkeep hu, hpending⟩
  · have hlocked : ∀ {i : Nat} {v : SessionAwait} {l : String × Nat}, (q.start t).requests[i]? = some v → l ∈ v.userLock →
        q.requests[i]? = some v := fun hv hl => (hold hv).resolve_right fun heq => by
      rw [heq, hlock] at hl
      cases hl
    obtain ⟨hnumber, hother⟩ := h.locked j u (hlocked hu hl) l hl
    exact ⟨hnumber, fun i v hv l' hl' heq => hother i v (hlocked hv hl') l' hl' heq⟩

theorem Sound.resume (h : q.Sound) {ok : Bool} {token : String} (hk : q.requests[k]? = some t) (hC : q.Calm t)
    (hstep : q.resumeAwait hashToken k ok token t = some q') : q'.Sound := by
  cases t with
  | verifyProof device =>
    cases hstep
    cases ok with
    | false => exact h.finish hk rfl rfl
    | true =>
      refine h.carry hk (fun o ho => ?_) rfl (forall_mem_none _) rfl rfl (List.forall_mem_nil _) (List.forall_mem_nil _) trivial rfl
      cases ho
      exact .inr ⟨hC, .inr ⟨_, rfl⟩⟩
  | create device credentials report =>
    cases hstep
    exact h.plain hk (.inr rfl) rfl (.inr rfl) rfl rfl (List.nil_subset _) rfl trivial rfl
  | clearing device credentials report snapshot =>
    simp only [resumeAwait] at hstep
    split at hstep
    · cases hstep
    · cases hstep
      exact h.plain hk (.inr rfl) rfl (.inr rfl) rfl rfl (List.nil_subset _) rfl trivial rfl
  | insert device credentials report cleared =>
    obtain ⟨q₁, hins, hstep⟩ := Option.bind_eq_some_iff.1 hstep
    cases hstep
    cases report with
    | none => exact h.inserts hk rfl rfl hins rfl rfl (forall_mem_none _) rfl rfl rfl rfl trivial rfl
    | some r => exact h.inserts hk rfl rfl hins rfl rfl (fun r hr => hr) rfl rfl rfl rfl trivial rfl
  | select sessionId =>
    simp only [resumeAwait] at hstep
    split at hstep
    · cases hstep
    · split at hstep
      · cases hstep
        exact h.finish hk rfl rfl
      · next current hcurrent =>
        cases hstep
        obtain ⟨hs, hid⟩ := Table.get?_eq_some.1 (Option.filter_eq_some_iff.1 hcurrent).1
        refine h.carry hk (fun o ho => ?_) rfl (forall_mem_none _) rfl rfl (List.forall_mem_nil _) (List.forall_mem_nil _) trivial rfl
        cases ho
        exact .inr ⟨hC current hs hid, .inl ⟨current, hs, rfl⟩⟩
  | regroup current =>
    cases hstep
    exact h.plain hk (.inr rfl) rfl (.inl rfl) rfl rfl (List.nil_subset _) rfl trivial rfl
  | regrouping current snapshot =>
    simp only [resumeAwait] at hstep
    split at hstep
    · cases hstep
    · cases hstep
      exact h.plain hk (.inr rfl) rfl (.inl rfl) rfl rfl (List.nil_subset _) rfl trivial rfl
  | replace current cleared =>
    obtain ⟨q₁, hins, hstep⟩ := Option.bind_eq_some_iff.1 hstep
    cases hstep
    exact h.inserts hk rfl rfl hins rfl rfl (forall_mem_none _) rfl rfl rfl rfl trivial rfl
  | update change userId currentSessionId =>
    simp only [resumeAwait] at hstep
    split at hstep
    · cases hstep
    · next hfree =>
      split at hstep
      · cases hstep
        exact h.finish hk rfl rfl
      · cases hstep
        exact h.update hk (Bool.eq_false_iff.2 hfree)
  | lockSessions device =>
    cases hstep
    cases ok with
    | false => exact h.finish hk rfl rfl
    | true => exact h.plain hk (.inl rfl) rfl (.inl rfl) rfl rfl (List.nil_subset _) rfl trivial rfl
  | lockingSessions device snapshot =>
    simp only [resumeAwait] at hstep
    split at hstep
    · cases hstep
    · cases hstep
      exact h.plain hk (.inl rfl) rfl (.inl rfl) rfl rfl (List.nil_subset _) rfl trivial rfl
  | updateUser device listed =>
    simp only [resumeAwait] at hstep
    split at hstep
    · cases hstep
    · next hfree =>
      cases hstep
      refine h.follows hk (follows_goOn h hk (forall_mem_none _) (fun _ => .of_quiet ⟨rfl, rfl, rfl, trivial⟩ (List.forall_mem_nil _))
        (forall_mem_none _) (List.forall_mem_nil _) ?_)
      intro l hl
      cases hl
      exact .inr ⟨rfl, Bool.eq_false_iff.2 hfree⟩
  | deleteSessions device number listed =>
    cases hstep
    exact h.deletesAll hk hC
  | deletingSessions device number listed snapshot =>
    simp only [resumeAwait] at hstep
    split at hstep
    · cases hstep
    · cases hstep
      exact h.finds hk
  | consume device number listed deleted =>
    simp only [resumeAwait] at hstep
    split at hstep
    · cases hstep
      exact h.finish hk rfl rfl
    · cases hstep
      exact h.recovers hk
  | loadTarget userId currentSessionId sessionId =>
    cases hstep
    exact h.plain hk (.inl rfl) rfl (.inl rfl) rfl rfl (List.Subset.refl _) rfl trivial rfl
  | loadCurrent userId currentSessionId sessionId targetSession =>
    cases hstep
    split
    · exact h.finish hk rfl rfl
    · exact h.plain hk (.inl rfl) rfl (.inl rfl) rfl rfl (List.Subset.refl _) rfl trivial rfl
  | getOwned userId sessionId =>
    simp only [resumeAwait] at hstep
    split at hstep
    · next hnone =>
      cases hstep
      have hreached := hC hnone
      refine h.reports hk rfl rfl ⟨fun s hs => Bool.eq_false_iff.2 fun hcovers => ?_, hreached.held, trivial, fun id hid => ?_⟩
      · have hmatches := hreached.live s hs hcovers
        simp only [SessionTarget.matches, Bool.and_eq_true, decide_eq_true_eq] at hmatches
        have hget : q.sessions.get? sessionId = some s := Table.get?_eq_some.2 ⟨hs, hmatches.1⟩
        simp [getOwnedSession, hget, hmatches.2] at hnone
      · exact (h.fits _ (List.mem_of_getElem? hk)).names id hid
    · next existing hexisting =>
      cases hstep
      split
      · exact h.plain hk (.inl rfl) rfl (.inl rfl) rfl rfl (List.Subset.refl _) rfl trivial rfl
      · exact h.plain hk (.inl rfl) rfl (.inl rfl) rfl rfl (List.Subset.refl _) rfl trivial rfl
  | listGroup sessionId device =>
    cases hstep
    exact h.plain hk (.inl rfl) rfl (.inl rfl) rfl rfl (List.Subset.refl _) rfl trivial rfl
  | delete r target listed =>
    cases hstep
    exact h.deletes hk hC
  | deleting r listed snapshot =>
    simp only [resumeAwait] at hstep
    split at hstep
    · cases hstep
    · cases hstep
      exact h.deleted hk
  | record r ids login =>
    cases ids with
    | cons id ids =>
      cases hstep
      exact h.records hk
    | nil =>
      cases hstep
      cases login with
      | none => exact h.plain hk (.inl rfl) rfl (.inr rfl) rfl rfl (List.nil_subset _) rfl trivial rfl
      | some login => exact h.plain hk (.inr rfl) rfl (.inr rfl) rfl rfl (List.nil_subset _) rfl trivial rfl
  | audit r =>
    cases hstep
    cases ok with
    | false => exact h.finish hk rfl rfl
    | true => exact h.reports hk rfl rfl ((h.fits _ (List.mem_of_getElem? hk)).done r rfl)
  | ended => cases hstep

/-- Some sessions have expired, and more ids are named. -/
theorem Sound.shrink (h : q.Sound) {sessions : SessionTable} (hlive : ∀ s ∈ sessions.rows, s ∈ q.sessions.rows)
    {named : List String} (hnamed : ∀ id ∈ q.named, id ∈ named) : Sound { q with sessions, named } := by
  have hadvances : Advances q { q with sessions, named } :=
    ⟨fun s hs => .inl (hlive s hs), fun u hu o ho => .inl ⟨u, hu, ho⟩, fun _ => Nat.le_refl _, hnamed⟩
  exact
    { fits := fun u hu => (h.fits u hu).advance hadvances fun d hd v hv o ho hnew => absurd ho (hnew v hv)
      reported := fun j r hr => (h.reported j r hr).advance hadvances
      changed := fun j r hr => (h.changed j r hr).imp_right fun hgone => hgone.advance hadvances
      recorded := h.recorded
      ids := fun s hs => hnamed _ (h.ids s (hlive s hs))
      locked := h.locked }

theorem Sound.tick (h : q.Sound) (now : Time) : Sound { q with clock := now } :=
  { fits := fun u hu => ⟨fun d hd => ⟨((h.fits u hu).claims d hd).live, ((h.fits u hu).claims d hd).held,
        ((h.fits u hu).claims d hd).named⟩,
      fun r hr => ⟨((h.fits u hu).done r hr).live, ((h.fits u hu).done r hr).held, ((h.fits u hu).done r hr).settled,
        ((h.fits u hu).done r hr).named⟩, (h.fits u hu).revokes, (h.fits u hu).names, (h.fits u hu).listed⟩
    reported := fun j r hr => ⟨(h.reported j r hr).live, (h.reported j r hr).held, (h.reported j r hr).settled,
      (h.reported j r hr).named⟩
    changed := fun j r hr => (h.changed j r hr).imp_right fun hgone => ⟨hgone.live, hgone.held, hgone.settled, hgone.named⟩
    recorded := h.recorded
    ids := h.ids
    locked := h.locked }

/-- One step. -/
theorem Sound.step (h : q.Sound) {a : Time × SessionLabel} (hC : q.Undisturbed a)
    (hstep : (sessionService hashToken).step q a = some q') : q'.Sound := by
  obtain ⟨now, label⟩ := a
  simp only [sessionService] at hstep
  split at hstep
  case isFalse => cases hstep
  have htick := h.tick now
  cases label with
  | login device => cases hstep; exact htick.start ⟨rfl, rfl, rfl, trivial⟩ rfl nofun rfl
  | refresh sessionId => cases hstep; exact htick.start ⟨rfl, rfl, rfl, trivial⟩ rfl nofun rfl
  | change change userId currentSessionId => cases hstep; exact htick.start ⟨rfl, rfl, rfl, trivial⟩ rfl nofun rfl
  | recover device => cases hstep; exact htick.start ⟨rfl, rfl, rfl, trivial⟩ rfl nofun rfl
  | revokeDevice userId currentSessionId sessionId =>
    simp only [SessionState.step] at hstep
    split at hstep
    · cases hstep
    · cases hstep
      have hnamed : Sound { q with clock := now, named := sessionId :: q.named } :=
        htick.shrink (fun s hs => hs) fun id hid => List.mem_cons_of_mem _ hid
      refine hnamed.start ⟨rfl, rfl, rfl, trivial⟩ rfl (fun id hid => ?_) rfl
      rw [List.mem_singleton.1 hid]
      exact List.mem_cons_self ..
  | resume k ok token =>
    obtain ⟨t, hk, hstep⟩ := Option.bind_eq_some_iff.1 hstep
    exact htick.resume hk (hC t hk) hstep
  | drop k =>
    obtain ⟨t, hk, rfl⟩ := Option.map_eq_some_iff.1 hstep
    obtain ⟨hrevokes, hpending⟩ := SessionAwait.revokes_of_mayDrop (hC t hk)
    exact htick.finish hk hrevokes hpending
  | cleanup =>
    cases hstep
    exact htick.shrink (fun s hs => (Table.mem_deleteWhere.1 hs).1) fun _ hid => hid

theorem Sound.init : Sound {} where
  fits := nofun
  reported := nofun
  changed := nofun
  recorded := nofun
  ids := nofun
  locked := nofun

theorem Sound.complete (h : q.Sound) : q.RevocationsComplete hashToken where
  reported k r hr token s hs := by
    have hmem := Table.mem_of_get? (Option.filter_eq_some_iff.1 hs).1
    exact (h.reported k r hr).live s hmem
  changed k r hr hk token s hs := by
    have hmem := Table.mem_of_get? (Option.filter_eq_some_iff.1 hs).1
    rcases h.changed k r hr with ⟨u, hu, hrevokes⟩ | hgone
    · rw [hk] at hu
      cases hu
      cases hrevokes
    · exact hgone.live s hmem
  recorded k ids hids id hid := by
    refine (h.recorded k ids hids id hid).imp_right fun ⟨u, hu, hpending⟩ => ?_
    cases u <;> simp only [SessionAwait.pending, List.not_mem_nil] at hpending
    exact ⟨_, _, _, hu, hpending⟩

/-- **Revocations are complete**, in every run in which no refresh and no login overlaps the
DELETE of a revocation, and no request is cut off before it has deleted and recorded. -/
theorem revocations_complete (h : (sessionService hashToken).ReachableUnder Undisturbed q) :
    q.RevocationsComplete hashToken := by
  refine Sound.complete (h.invariant Sound (fun s hinit => ?_) fun s a t _ hs hC hstep => hs.step hC hstep)
  have hempty : s = {} := hinit
  rw [hempty]
  exact Sound.init

end SessionState

/-! ## Runs on fixed inputs -/

/-- Ann logs in on the web. -/
def loginRun : List (Time × SessionLabel) :=
  (0, .login ⟨"ann", "web", some "browser"⟩) :: List.replicate 3 (0, .resume 0 true "") ++ [(0, .resume 0 true "first")]

/-- Her session is refreshed. -/
def refreshRun : List (Time × SessionLabel) :=
  loginRun ++ (1, .refresh "first") :: List.replicate 3 (1, .resume 1 true "") ++ [(1, .resume 1 true "second")]

namespace SessionState

theorem revocations_complete_changed : ∃ q : SessionState,
    q.history = [.reported 2 (.credentials "ann" 1 none), .recorded "second", .deleted 2 ["second"],
      .changed 2 (.credentials "ann" 1 none)] ∧
      q.RevocationsComplete id := by
  have hrun : ((sessionService id).runUnder Undisturbed {}
      (refreshRun ++ (2, .change .password "ann" "second") :: List.replicate 6 (2, .resume 2 true ""))).map (·.history) =
      some [.reported 2 (.credentials "ann" 1 none), .recorded "second", .deleted 2 ["second"],
        .changed 2 (.credentials "ann" 1 none)] := by
    decide +kernel
  obtain ⟨q, hrun, hhistory⟩ := Option.map_eq_some_iff.1 hrun
  exact ⟨q, hhistory, revocations_complete (System.ReachableUnder.runUnder (.init rfl) hrun)⟩

/-- The refresh has locked the session when the DELETE of a password change starts, and commits
before the DELETE goes on: the new session is not among those it has found. -/
theorem refresh_escapes : ¬ ∀ q, (sessionService id).Reachable q → q.RevocationsComplete id := by
  intro h
  have hrun : ((sessionService id).run {} (loginRun ++
      [(1, .refresh "first"), (1, .change .password "ann" "first"), (1, .resume 1 true ""), (2, .resume 2 true ""),
        (2, .resume 2 true ""), (3, .resume 1 true ""), (3, .resume 1 true ""), (3, .resume 1 true "second"),
        (4, .resume 2 true ""), (4, .resume 2 true ""), (4, .resume 2 true "")])).map
      (fun q => (q.history.head?, (q.verifyToken id "second").map (·.origin))) =
      some (some (.reported 2 (.credentials "ann" 1 none)), some ⟨"ann", 0, ["second", "first"]⟩) := by
    decide +kernel
  obtain ⟨q, hrun, heq⟩ := Option.map_eq_some_iff.1 hrun
  simp only [Prod.mk.injEq, Option.map_eq_some_iff] at heq
  obtain ⟨hreported, s, hs, horigin⟩ := heq
  have hcomplete := h q (System.Reachable.run (.init rfl) hrun)
  have hnot := hcomplete.reported 2 _ (List.mem_of_head? hreported) "second" s hs
  rw [horigin] at hnot
  revert hnot
  decide

end SessionState

end Bittery
