/-
Which losses of access to a vault are announced to the user who loses it.

A rotation that removes a user records its last event for that user, whatever it has seen of
the vault's keys. The deletion of a vault records one event for each member that was listed
before its transaction, and deletes every key there is by then.
-/
import Bittery.Client.Announcements
import Bittery.Server.Access

namespace Bittery

open Lib

/-! ## Announced -/

/-- Processing the event makes a client drop the vault, its keys and its items. -/
def SyncEvent.Drops (db : Db) (userId vaultId : String) (e : SyncEvent) : Prop :=
  ∀ r : Replica, ∃ r', performDeltaSync db userId r e = .ok r' ∧ r'.vaults vaultId = none ∧
    r'.vaultKeys vaultId = [] ∧ ∀ itemId item, r'.items itemId = some item → item.vaultId ≠ vaultId

/-- The user held a key of the vault before the transaction, and holds none after it. -/
def LosesAccess (db db' : Db) (userId vaultId : String) : Prop :=
  db.holdsKey userId vaultId = true ∧ db'.holdsKey userId vaultId = false

/-- **Loss of access is announced**: whoever loses access to a vault sees an event of the
transaction that makes the client drop it. -/
def LossAnnounced (db db' : Db) : Prop :=
  ∀ userId vaultId, LosesAccess db db' userId vaultId →
    ∃ e ∈ newEvents db db', visibleTo db' userId e = true ∧ e.Drops db' userId vaultId

/-- Adding a member, deleting a vault, removing a member and a departure. -/
def Transaction.changesMembers : Transaction → Bool
  | addVaultMember .. | deleteVault .. | finalizeRemoval .. | finalizeDeparture .. => true
  | _ => false

/-- Whoever holds a key of a vault that is deleted deletes it, or held one when the members
were listed. -/
def Transaction.ListsHolders (h : History) : Transaction → Prop
  | deleteVault userId _ vaultId _ listed => ∀ db, h.ago listed = some db →
      ∀ holder, h.now.holdsKey holder vaultId = true → holder = userId ∨ db.holdsKey holder vaultId = true
  | _ => True

variable {db db' seen listed : Db} {userId vaultId : String}

/-! ## The events of a loss -/

/-- An event that tells the user that access to the vault is gone. -/
structure SyncEvent.EndsAccess (userId vaultId : String) (e : SyncEvent) : Prop where
  eventType : e.eventType = .vaultDeleted ∨ e.eventType = .vaultAccessRevoked
  entityId : e.entityId = vaultId
  userId : e.userId = userId

theorem SyncEvent.EndsAccess.isUserScoped {e : SyncEvent} (h : e.EndsAccess userId vaultId) :
    e.eventType.isUserScoped = true := by
  rcases h.eventType with ht | ht <;> rw [ht] <;> rfl

theorem SyncEvent.EndsAccess.visibleTo {e : SyncEvent} (h : e.EndsAccess userId vaultId) (db : Db) :
    visibleTo db userId e = true := by
  simp [Bittery.visibleTo, SyncEvent.visible, h.isUserScoped, h.userId]

theorem SyncEvent.EndsAccess.drops {e : SyncEvent} (h : e.EndsAccess userId vaultId) (db : Db) :
    e.Drops db userId vaultId := by
  intro r
  have hsync : performDeltaSync db userId r e = .ok ((r.syncVaultKeys (listVaults db userId)).removeVault vaultId) := by
    rcases h.eventType with ht | ht <;> simp only [performDeltaSync, SyncEvent.syncsVaultKeys, ht, h.entityId] <;> rfl
  refine ⟨_, hsync, by simp [Replica.removeVault], by simp [Replica.removeVault], fun itemId item hitem => ?_⟩
  obtain ⟨-, hne⟩ := Option.filter_eq_some_iff.mp hitem
  exact of_decide_eq_true hne

/-! ## Deleting a vault -/

theorem mem_otherMembers {user : String} :
    user ∈ otherMembers db vaultId userId ↔ db.holdsKey user vaultId = true ∧ user ≠ userId := by
  simp only [otherMembers, List.mem_filter, List.mem_map, Table.mem_select, decide_eq_true_eq, Db.holdsKey_iff]
  simp only [and_assoc]

/-- The events a deletion records: one for the caller and one for each member that was
listed. The vault they are of is gone when they are seen. -/
theorem deleteVault_events {clientId : Option String} (h : deleteVault seen listed db userId clientId vaultId = .ok db') :
    List.Forall₂ (fun e user => e.EndsAccess user vaultId ∧ e.vaultId = none) (newEvents db db')
      (userId :: otherMembers listed vaultId userId) := by
  simp only [deleteVault, Except.guard_ok_iff, Except.bind_ok_iff, Prod.exists, Except.pure_ok_iff] at h
  obtain ⟨vault, role, -, -, db₁, hev, db₂, hloop, rfl⟩ := h
  obtain ⟨-, rfl⟩ := insertSyncEvent_ok hev
  -- The loop records an event for each member, and nothing else.
  let Ends : SyncEvent → String → Prop := fun e user => e.EndsAccess user vaultId ∧ e.vaultId = some vaultId
  let I : List String → Db → Prop := fun done d =>
    ∃ events, List.Forall₂ Ends events (userId :: done) ∧ d.events = db.events ++ events
  obtain ⟨events, hends, hevents⟩ : I ([] ++ otherMembers listed vaultId userId) db₂ := by
    refine Except.foldlM_ok I ?_ ⟨_, .cons ⟨⟨.inl rfl, rfl, rfl⟩, rfl⟩ .nil, rfl⟩ hloop
    rintro done member d d' ⟨events, hends, hevents⟩ hstep
    obtain ⟨-, rfl⟩ := insertSyncEvent_ok hstep
    refine ⟨events ++ [⟨d.nextSeq, .vaultAccessRevoked, vaultId, .vault, some vaultId, member, 1, clientId,
      some (.vaultDeleted vaultId)⟩], List.rel_append hends (.cons ⟨⟨.inr rfl, rfl, rfl⟩, rfl⟩ .nil), ?_⟩
    rw [← List.append_assoc, ← hevents]
    rfl
  show List.Forall₂ _ ((db₂.events.map _).drop db.events.length) _
  rw [hevents, List.map_append, List.drop_left' (List.length_map _), List.forall₂_map_left_iff]
  exact hends.imp fun e user ⟨he, hv⟩ => by
    rw [if_pos hv]
    exact ⟨⟨he.eventType, he.entityId, he.userId⟩, rfl⟩

/-- **The deletion of a vault is announced** exactly when whoever held a key was listed. -/
theorem deleteVault_announced {clientId : Option String}
    (h : deleteVault seen listed db userId clientId vaultId = .ok db') :
    LossAnnounced db db' ↔ ∀ holder, db.holdsKey holder vaultId = true →
      holder = userId ∨ listed.holdsKey holder vaultId = true := by
  have hevents := deleteVault_events h
  have hgone := deleteVault_access h
  have hnone : ∀ user, db'.holdsKey user vaultId = false := by
    intro user
    rw [Bool.eq_false_iff]
    intro hholds
    obtain ⟨k, hk, hv, -⟩ := Db.holdsKey_iff.mp hholds
    exact ((hgone.keys k).mp hk).2 hv
  constructor
  · intro hann holder hholds
    obtain ⟨e, he, hsees, -⟩ := hann holder vaultId ⟨hholds, hnone holder⟩
    obtain ⟨user, huser, hends, hv⟩ := forall₂_exists_of_mem_right hevents.flip he
    -- The event has no vault any more, so only the user it is for sees it.
    have hself : e.userId = holder := by
      simpa [visibleTo, SyncEvent.visible, hv, hends.isUserScoped] using hsees
    rw [← hself, hends.userId]
    rcases List.mem_cons.mp huser with rfl | hmem
    · exact .inl rfl
    · exact .inr (mem_otherMembers.mp hmem).1
  · rintro hlisted user vault ⟨hholds, hlost⟩
    -- Keys of other vaults stay.
    obtain ⟨k, hk, hv, hu⟩ := Db.holdsKey_iff.mp hholds
    have hvault : vault = vaultId := by
      by_contra hne
      have hstays : k ∈ db'.vaultKeys := (hgone.keys k).mpr ⟨hk, fun he => hne (hv.symm.trans he)⟩
      rw [Db.holdsKey_iff.mpr ⟨k, hstays, hv, hu⟩] at hlost
      cases hlost
    subst hvault
    have hmem : user ∈ userId :: otherMembers listed vault userId := by
      by_cases hself : user = userId
      · exact hself ▸ List.mem_cons_self ..
      · exact List.mem_cons_of_mem _ (mem_otherMembers.mpr ⟨(hlisted user hholds).resolve_left hself, hself⟩)
    obtain ⟨e, he, hends, -⟩ := forall₂_exists_of_mem_right hevents hmem
    exact ⟨e, he, hends.visibleTo db', hends.drops db'⟩

/-! ## Removals and departures -/

/-- Whoever loses a key to finalizations is excluded by one of the plans, and is told. -/
theorem FinalizedInTurn.lossAnnounced {actorId : String} {ps : List RotationPlan} {es : List SyncEvent}
    {tx tx' : Versions Db} (h : FinalizedInTurn actorId ps es tx tx') (hkeys : db'.vaultKeys = tx'.current.vaultKeys)
    (hevents : db'.events = tx'.current.events) : LossAnnounced tx.current db' := by
  intro user vaultId ⟨hholds, hlost⟩
  obtain ⟨k, hk, hv, hu⟩ := Db.holdsKey_iff.mp hholds
  have hgone : ∀ k' ∈ tx'.current.vaultKeys, k'.vaultId = vaultId → k'.userId ≠ user := by
    intro k' hk' hv' hu'
    rw [Db.holdsKey_iff.mpr ⟨k', hkeys ▸ hk', hv', hu'⟩] at hlost
    cases hlost
  by_cases hin : vaultId ∈ ps.map (·.vaultId)
  · obtain ⟨p, hp, hpv⟩ := List.mem_map.mp hin
    have hexcludes : p.excludes k = true := by
      by_contra hno
      have hstays := (h.rotatesKeys p hp _ (by rw [ite_rewrap_vaultId.1, hv, hpv])).mpr ⟨k, hk, fun hx => hno hx.1, rfl⟩
      exact hgone _ hstays (ite_rewrap_vaultId.1.trans hv) (ite_rewrap_vaultId.2.1.trans hu)
    simp only [RotationPlan.excludes, Bool.and_eq_true, decide_eq_true_eq] at hexcludes
    obtain ⟨e, he, htype, hentity, huser⟩ := h.events.2 p hp user (by rw [← hexcludes.2, hu])
    have hends : e.EndsAccess user vaultId := ⟨.inr htype, hentity.trans hpv, huser⟩
    refine ⟨e, ?_, hends.visibleTo db', hends.drops db'⟩
    rw [newEvents, hevents, h.events.1, List.drop_left]
    exact he
  · exact absurd hu (hgone k (((h.all.others vaultId hin).keys k hv).mpr hk) hv)

/-- Where every key stays, nobody loses access. -/
theorem LossAnnounced.of_subset (h : ∀ k ∈ db.vaultKeys, k ∈ db'.vaultKeys) : LossAnnounced db db' := by
  intro user vaultId ⟨hholds, hlost⟩
  obtain ⟨k, hk, hv, hu⟩ := Db.holdsKey_iff.mp hholds
  rw [Db.holdsKey_iff.mpr ⟨k, h k hk, hv, hu⟩] at hlost
  cases hlost

theorem moveToPersonalTeam_events {tx tx' : Versions Db} {target : User} {personalTeamId : String}
    (h : moveToPersonalTeam tx target personalTeamId = some tx') : tx'.current.events = tx.current.events := by
  simp only [moveToPersonalTeam, Option.bind_eq_bind, Option.bind_eq_some_iff, TableOf.delete_eq_some,
    TableOf.insert_eq_some, TableOf.update_eq_some] at h
  obtain ⟨_, ⟨-, rfl⟩, _, ⟨s, c, -, -, rfl⟩, -, rfl⟩ := h
  rfl

/-! ## Every change of members -/

/-- **Loss of access is announced** exactly when a deletion has listed whoever holds a key:
the other changes of members always announce it. -/
theorem lossAnnounced_iff_listsHolders (d : Deployment) (h : History) (t : Transaction) (ht : t.changesMembers = true)
    (db' : Db) (hrun : t.run d h = some db') : LossAnnounced h.now db' ↔ t.ListsHolders h := by
  cases t with
  | deleteVault userId clientId vaultId seen listed =>
    obtain ⟨_, -, listedDb, hlisted, hrun⟩ := History.ran₂ hrun
    rw [deleteVault_announced hrun]
    constructor
    · intro hholders db hdb
      obtain rfl := Option.some.inj (hlisted.symm.trans hdb)
      exact hholders
    · exact fun hholders => hholders listedDb hlisted
  | addVaultMember userId keyId input seen =>
    obtain ⟨-, -, -, hins⟩ := Transaction.access hrun
    exact iff_of_true (.of_subset (AddsKeys.insert hins).kept) trivial
  | finalizeRemoval begun now actorId vaultId targetId planId rotationId snap =>
    refine iff_of_true ?_ trivial
    obtain ⟨snapshot, -, hsame | ⟨plan, es, tx', -, -, -, hturn, rfl⟩⟩ := Transaction.access hrun
    · exact .of_subset fun k hk => hsame.keys ▸ hk
    · exact hturn.lossAnnounced rfl rfl
  | finalizeDeparture begun now teamId actorId targetId intent plans personalTeamId snap =>
    refine iff_of_true ?_ trivial
    obtain ⟨snapshot, -, hsame | ⟨target, ps, es, tx₁, tx', -, -, -, hturn, hmove, rfl⟩⟩ := Transaction.access hrun
    · exact .of_subset fun k hk => hsame.keys ▸ hk
    · exact hturn.lossAnnounced (moveToPersonalTeam_sameRows hmove).keys (moveToPersonalTeam_events hmove)
  | _ => cases ht

/-! ## One deletion that is announced, and one that is not -/

/-- Ann deletes the vault she shares with Bob, with the members as they were some transactions ago. -/
def annDeletes (listed : Nat) : Transaction := .deleteVault "ann" none "v" listed listed

def afterSharedVault (t : Transaction) : Option (History × Db) := do
  let h ← (server selfHosted).run ⟨Db.empty, []⟩ sharedVault
  return (h, ← t.run selfHosted h)

theorem afterSharedVault_some {t : Transaction} {h : History} {db : Db} (ha : afterSharedVault t = some (h, db)) :
    (server selfHosted).run ⟨Db.empty, []⟩ sharedVault = some h ∧ t.run selfHosted h = some db := by
  simp only [afterSharedVault, Option.bind_eq_bind, Option.bind_eq_some_iff] at ha
  obtain ⟨h', hh, db', hdb, he⟩ := ha
  cases he
  exact ⟨hh, hdb⟩

theorem deletion_announced : ∃ h db, afterSharedVault (annDeletes 0) = some (h, db) ∧
    LosesAccess h.now db "bob" "v" ∧ LossAnnounced h.now db := by
  have hlost : (afterSharedVault (annDeletes 0)).any (fun s =>
      s.1.now.holdsKey "bob" "v" && !s.2.holdsKey "bob" "v") = true := by decide +kernel
  rw [Option.any_eq_true] at hlost
  obtain ⟨⟨h, db⟩, ha, hlost⟩ := hlost
  rw [Bool.and_eq_true, Bool.not_eq_true'] at hlost
  refine ⟨h, db, ha, hlost, ?_⟩
  refine (lossAnnounced_iff_listsHolders selfHosted h (annDeletes 0) rfl db (afterSharedVault_some ha).2).mpr ?_
  -- The members were listed as they are.
  intro listedDb hlisted holder hholds
  cases hlisted
  exact .inr hholds

/-- Bob was added after the members were listed: he loses the vault, and sees no event. -/
theorem deletion_not_announced : ¬ ∀ (d : Deployment) (h : History) (t : Transaction) (db' : Db),
    (server d).Reachable h → t.changesMembers = true → t.run d h = some db' → LossAnnounced h.now db' := by
  intro hall
  have hmiss : (afterSharedVault (annDeletes 1)).any (fun s =>
      (s.1.now.holdsKey "bob" "v" && !s.2.holdsKey "bob" "v") &&
        (newEvents s.1.now s.2).all fun e => !visibleTo s.2 "bob" e) = true := by decide +kernel
  rw [Option.any_eq_true] at hmiss
  obtain ⟨⟨h, db⟩, ha, hmiss⟩ := hmiss
  obtain ⟨hh, hrun⟩ := afterSharedVault_some ha
  rw [Bool.and_eq_true, Bool.and_eq_true, Bool.not_eq_true', List.all_eq_true] at hmiss
  have hann := hall selfHosted h (annDeletes 1) db (System.Reachable.run (.init rfl) hh) rfl hrun
  obtain ⟨e, he, hsees, -⟩ := hann "bob" "v" hmiss.1
  have hhidden := hmiss.2 e he
  rw [hsees] at hhidden
  cases hhidden

end Bittery
