/-
Who the members of a vault are: one owner, nobody else where the vault is personal, and
people of the vault's team where it is shared.

Whether a user belongs to a team is a column of the user, and who is in a vault are rows of
`vault_key`; no statement compares the two. The checks of a request read both before its
transaction, so what keeps membership well formed is that they still hold when it commits.
-/
import Bittery.Server.Access
import Bittery.Server.Rotation.PlanSafety

namespace Bittery

open Lib

/-! ## Well-formed membership -/

/-- **Vault membership is well formed.** -/
structure MembershipWellFormed (db : Db) : Prop where
  owner : ∀ v ∈ db.vaults, ∃! k, k ∈ db.vaultKeys ∧ k.vaultId = v.id ∧ k.role = .owner
  personal : ∀ v ∈ db.vaults, v.type = .personal → ∀ k ∈ db.vaultKeys, ∀ o ∈ db.vaultKeys,
    k.vaultId = v.id → o.vaultId = v.id → o.role = .owner → k.userId = o.userId
  team : ∀ v ∈ db.vaults, v.type = .team → ∀ k ∈ db.vaultKeys, k.vaultId = v.id →
    ∃ teamId, v.teamId = some teamId ∧ db.teamOf k.userId = some teamId

/-- The user may be a member of the vault: its creator, or of its team. -/
def Db.Fits (db : Db) (v : Vault) (userId : String) : Prop :=
  (v.type = .personal → userId = v.createdById) ∧
    (v.type = .team → v.teamId.isSome = true ∧ db.teamOf userId = v.teamId)

/-- What a run keeps: a vault is owned by its creator, once, and every member fits. -/
structure MembersFit (db : Db) : Prop where
  owned : ∀ v ∈ db.vaults, ∃ k ∈ db.vaultKeys, k.vaultId = v.id ∧ k.role = .owner
  once : ∀ k ∈ db.vaultKeys, ∀ k' ∈ db.vaultKeys, k.vaultId = k'.vaultId → k.role = .owner → k'.role = .owner → k = k'
  creator : ∀ v ∈ db.vaults, ∀ k ∈ db.vaultKeys, k.vaultId = v.id → k.role = .owner → k.userId = v.createdById
  fits : ∀ v ∈ db.vaults, ∀ k ∈ db.vaultKeys, k.vaultId = v.id → db.Fits v k.userId

theorem MembersFit.wellFormed {db : Db} (h : MembersFit db) : MembershipWellFormed db := by
  refine ⟨fun v hv => ?_, fun v hv htype k hk o ho hkv hov howner => ?_, fun v hv htype k hk hkv => ?_⟩
  · obtain ⟨k, hk, hkv, howner⟩ := h.owned v hv
    exact ⟨k, ⟨hk, hkv, howner⟩, fun k' ⟨hk', hkv', howner'⟩ => h.once k' hk' k hk (hkv'.trans hkv.symm) howner' howner⟩
  · rw [(h.fits v hv k hk hkv).1 htype, h.creator v hv o ho hov howner]
  · obtain ⟨hsome, hteam⟩ := (h.fits v hv k hk hkv).2 htype
    obtain ⟨teamId, hid⟩ := Option.isSome_iff_exists.mp hsome
    exact ⟨teamId, hid, hteam.trans hid⟩

/-! ## What has to hold when a transaction commits -/

/-- The checks of a request still hold when its transaction commits, finalizations exclude no
owner and see the target's keys, and the other services leave the members of team vaults in
their team. -/
def Transaction.FitsMembers (h : History) : Transaction → Prop
  | createVault userId _ _ input seen => input.vaultType = .team →
      ∀ db, h.ago seen = some db → h.now.teamOf userId = db.teamOf userId
  | convertVaultType userId input seen => input.targetType = .team → ∀ db, h.ago seen = some db →
      ∀ k ∈ h.now.vaultKeys, k.vaultId = input.vaultId → h.now.teamOf k.userId = db.teamOf userId
  | updateVaultMemberRole _ input _ => ∀ k ∈ h.now.vaultKeys, k.vaultId = input.vaultId →
      k.userId = input.userId → k.role ≠ .owner
  | addVaultMember _ _ input _ => ∀ v ∈ h.now.vaults, v.id = input.vaultId → h.now.Fits v input.userId
  | acceptInvitation userId invitation _ => ∀ v ∈ h.now.vaults,
      (v.type = .team → h.now.holdsKey userId v.id = true → v.teamId = some invitation.teamId) ∧
      ∀ a ∈ invitation.pendingVaultKeys, a.vaultId = v.id → h.now.holdsKey userId v.id = false →
        v.type = .team ∧ v.teamId = some invitation.teamId
  | registerUser user _ _ _ invitation _ => ∀ i, invitation = some i → ∀ a ∈ i.pendingVaultKeys,
      ∀ v ∈ h.now.vaults, v.id = a.vaultId → v.type = .team ∧ v.teamId.isSome = true ∧ user.teamId = v.teamId
  | accounts users _ _ => ∀ v ∈ h.now.vaults, v.type = .team → ∀ k ∈ h.now.vaultKeys, k.vaultId = v.id →
      (users.get? k.userId).bind (·.teamId) = v.teamId
  | finalizeRemoval _ _ _ vaultId targetId _ _ _ => ∀ k ∈ h.now.vaultKeys, k.vaultId = vaultId →
      k.role = .owner → k.userId ≠ targetId
  | finalizeDeparture _ _ teamId _ targetId _ _ _ snap => ∀ snapshot, h.ago snap = some snapshot →
      (∀ k ∈ h.now.vaultKeys, k.vaultId ∈ affectedVaults snapshot teamId targetId → k.role = .owner → k.userId ≠ targetId) ∧
      ∀ v ∈ h.now.vaults, v.type = .team → ∀ k ∈ h.now.vaultKeys, k.vaultId = v.id → k.userId = targetId →
        v.id ∈ affectedVaults snapshot teamId targetId ∧ k ∈ snapshot.vaultKeys
  | _ => True

/-! ## One step -/

section Step

variable {h : History} {db db' seen : Db}

/-- The same key before and after a step: its wrapping may change, and its role if it is
not the owner's. -/
structure VaultKey.Alike (k k' : VaultKey) : Prop where
  id : k'.id = k.id
  vaultId : k'.vaultId = k.vaultId
  userId : k'.userId = k.userId
  owner : k'.role = .owner ↔ k.role = .owner

theorem VaultKey.Alike.refl (k : VaultKey) : k.Alike k := ⟨rfl, rfl, rfl, Iff.rfl⟩

theorem VaultKey.Stays.alike {k k' : VaultKey} (h : k.Stays k') : k.Alike k' :=
  ⟨h.id, h.vaultId, h.userId, by rw [h.role]⟩

/-- The same vault, as far as its members go. -/
structure Vault.Agrees (v v' : Vault) : Prop where
  id : v'.id = v.id
  type : v'.type = v.type
  createdById : v'.createdById = v.createdById
  teamId : v'.teamId = v.teamId

theorem Vault.Agrees.refl (v : Vault) : v.Agrees v := ⟨rfl, rfl, rfl, rfl⟩

theorem Db.Fits.congr {v v' : Vault} {userId : String} (h : db.Fits v userId) (ha : v.Agrees v')
    (hteam : v.type = .team → db'.teamOf userId = v.teamId) : db'.Fits v' userId := by
  refine ⟨fun htype => ?_, fun htype => ?_⟩
  · rw [ha.createdById]
    exact h.1 (ha.type ▸ htype)
  · rw [ha.teamId]
    exact ⟨(h.2 (ha.type ▸ htype)).1, hteam (ha.type ▸ htype)⟩

theorem Db.teamOf_congr (husers : db'.users = db.users) (userId : String) : db'.teamOf userId = db.teamOf userId := by
  rw [Db.teamOf, Db.teamOf, husers]

theorem Db.teamOf_of_mem {userId : String} (h : ∀ u, u.id = userId → (u ∈ db'.users ↔ u ∈ db.users)) :
    db'.teamOf userId = db.teamOf userId := by
  have hget : db'.users.get? userId = db.users.get? userId := by
    ext u
    rw [Table.get?_eq_some, Table.get?_eq_some, and_comm, and_comm (a := u ∈ db.users)]
    exact and_congr_right (h u)
  rw [Db.teamOf, Db.teamOf, hget]

/-- **What one step has to respect.** Vaults are those there were; a key is one there was, or
is not an owner's; no owner's key goes without its vault; and every member fits. -/
theorem MembersFit.step (hI : MembersFit db)
    (hvaults : ∀ v' ∈ db'.vaults, ∃ v ∈ db.vaults, v'.id = v.id ∧ v'.createdById = v.createdById)
    (hfrom : ∀ k' ∈ db'.vaultKeys, (∃ k ∈ db.vaultKeys, k.Alike k') ∨ k'.role ≠ .owner)
    (howners : ∀ k ∈ db.vaultKeys, k.role = .owner → (∃ v' ∈ db'.vaults, v'.id = k.vaultId) →
      ∃ k' ∈ db'.vaultKeys, k.Alike k')
    (hfits : ∀ v' ∈ db'.vaults, ∀ k' ∈ db'.vaultKeys, k'.vaultId = v'.id → db'.Fits v' k'.userId) : MembersFit db' := by
  have hold : ∀ k' ∈ db'.vaultKeys, k'.role = .owner → ∃ k ∈ db.vaultKeys, k.Alike k' ∧ k.role = .owner := by
    intro k' hk' howner
    obtain ⟨k, hk, ha⟩ := (hfrom k' hk').resolve_right (not_not.mpr howner)
    exact ⟨k, hk, ha, ha.owner.mp howner⟩
  refine ⟨fun v' hv' => ?_, fun a ha b hb hv hao hbo => ?_, fun v' hv' k' hk' hkv howner => ?_, hfits⟩
  · obtain ⟨v, hv, hid, -⟩ := hvaults v' hv'
    obtain ⟨k, hk, hkv, howner⟩ := hI.owned v hv
    obtain ⟨k', hk', ha⟩ := howners k hk howner ⟨v', hv', hid.trans hkv.symm⟩
    exact ⟨k', hk', ha.vaultId.trans (hkv.trans hid.symm), ha.owner.mpr howner⟩
  · obtain ⟨a₀, ha₀, halike, hao₀⟩ := hold a ha hao
    obtain ⟨b₀, hb₀, hblike, hbo₀⟩ := hold b hb hbo
    have hsame : a₀ = b₀ := hI.once a₀ ha₀ b₀ hb₀ (by rw [← halike.vaultId, ← hblike.vaultId, hv]) hao₀ hbo₀
    exact Table.eq_of_key_eq ha hb (by rw [halike.id, hblike.id, hsame])
  · obtain ⟨k, hk, ha, howner₀⟩ := hold k' hk' howner
    obtain ⟨v, hv, hid, hcreated⟩ := hvaults v' hv'
    rw [ha.userId, hcreated]
    exact hI.creator v hv k hk (by rw [← ha.vaultId, hkv, hid]) howner₀

/-- A step that founds no vault, and gives keys to none but those who fit. -/
theorem MembersFit.keeps (hI : MembersFit db) (hvaults : ∀ v' ∈ db'.vaults, ∃ v ∈ db.vaults, v.Agrees v')
    (hfrom : ∀ k' ∈ db'.vaultKeys, (∃ k ∈ db.vaultKeys, k.Alike k') ∨
      k'.role ≠ .owner ∧ ∀ v' ∈ db'.vaults, k'.vaultId = v'.id → db'.Fits v' k'.userId)
    (howners : ∀ k ∈ db.vaultKeys, k.role = .owner → (∃ v' ∈ db'.vaults, v'.id = k.vaultId) →
      ∃ k' ∈ db'.vaultKeys, k.Alike k')
    (hteam : ∀ v ∈ db.vaults, v.type = .team → ∀ k ∈ db.vaultKeys, k.vaultId = v.id →
      (∃ k' ∈ db'.vaultKeys, k.Alike k') → db'.teamOf k.userId = v.teamId) : MembersFit db' := by
  refine hI.step (fun v' hv' => ?_) (fun k' hk' => (hfrom k' hk').imp_right And.left) howners fun v' hv' k' hk' hkv => ?_
  · obtain ⟨v, hv, ha⟩ := hvaults v' hv'
    exact ⟨v, hv, ha.id, ha.createdById⟩
  · rcases hfrom k' hk' with ⟨k, hk, ha⟩ | ⟨-, hfits⟩
    · obtain ⟨v, hv, hva⟩ := hvaults v' hv'
      have hkv₀ : k.vaultId = v.id := by rw [← ha.vaultId, hkv, hva.id]
      rw [ha.userId]
      exact (hI.fits v hv k hk hkv₀).congr hva fun htype => hteam v hv htype k hk hkv₀ ⟨k', hk', ha⟩
    · exact hfits v' hv' hkv

/-- Where no user changes, everybody stays in their team. -/
theorem MembersFit.sameTeams (hI : MembersFit db) (husers : db'.users = db.users) :
    ∀ v ∈ db.vaults, v.type = .team → ∀ k ∈ db.vaultKeys, k.vaultId = v.id →
      (∃ k' ∈ db'.vaultKeys, k.Alike k') → db'.teamOf k.userId = v.teamId := by
  intro v hv htype k hk hkv _
  rw [Db.teamOf_congr husers]
  exact ((hI.fits v hv k hk hkv).2 htype).2

/-- A vault is founded with the key of its creator. -/
theorem MembersFit.founds {v : Vault} {k : VaultKey} (hI : MembersFit db) (hr : db.Referential)
    (hvault : db.vaults.insert v = some db'.vaults) (hkey : db.vaultKeys.insert k = some db'.vaultKeys)
    (hkv : k.vaultId = v.id) (hku : k.userId = v.createdById) (hrole : k.role = .owner) (hnew : db'.Fits v k.userId)
    (hteam : ∀ w ∈ db.vaults, w.type = .team → ∀ x ∈ db.vaultKeys, x.vaultId = w.id → db'.teamOf x.userId = w.teamId) :
    MembersFit db' := by
  have hmemv := Table.mem_insert hvault
  have hmemk := Table.mem_insert hkey
  -- A key there was is of a vault there was, and so of no new one.
  have hne : ∀ x ∈ db.vaultKeys, x.vaultId ≠ v.id := by
    intro x hx
    obtain ⟨w, hw, hid⟩ := Db.hasVault_iff.mp (hr.keys x hx)
    exact hid ▸ Table.insert_fresh hvault w hw
  have hfresh : ∀ w ∈ db.vaults, w.id ≠ v.id := Table.insert_fresh hvault
  refine ⟨fun w hw => ?_, fun a ha b hb hv hao hbo => ?_, fun w hw x hx hxw howner => ?_, fun w hw x hx hxw => ?_⟩
  · rcases (hmemv w).mp hw with hw | rfl
    · obtain ⟨x, hx, hxw⟩ := hI.owned w hw
      exact ⟨x, (hmemk x).mpr (.inl hx), hxw⟩
    · exact ⟨k, (hmemk k).mpr (.inr rfl), hkv, hrole⟩
  · rcases (hmemk a).mp ha with ha | rfl <;> rcases (hmemk b).mp hb with hb | rfl
    · exact hI.once a ha b hb hv hao hbo
    · exact absurd (hv.trans hkv) (hne a ha)
    · exact absurd (hv.symm.trans hkv) (hne b hb)
    · rfl
  · rcases (hmemv w).mp hw with hw | rfl <;> rcases (hmemk x).mp hx with hx | rfl
    · exact hI.creator w hw x hx hxw howner
    · exact absurd (hxw.symm.trans hkv) (hfresh w hw)
    · exact absurd hxw (hne x hx)
    · exact hku
  · rcases (hmemv w).mp hw with hw | rfl <;> rcases (hmemk x).mp hx with hx | rfl
    · exact (hI.fits w hw x hx hxw).congr (.refl w) fun htype => hteam w hw htype x hx hxw
    · exact absurd (hxw.symm.trans hkv) (hfresh w hw)
    · exact absurd hxw (hne x hx)
    · exact hnew

theorem SameAccess.membersFit (hs : SameAccess db db') (hI : MembersFit db) : MembersFit db' :=
  hI.keeps (fun v' hv' => (hs.vaults v' hv').imp fun _ ⟨hv, ha⟩ => ⟨hv, ha.id, ha.type, ha.createdById, ha.teamId⟩) (fun k' hk' => .inl ⟨k', hs.keys ▸ hk', .refl k'⟩) (fun k hk _ _ => ⟨k, hs.keys ▸ hk, .refl k⟩)
    (hI.sameTeams hs.users)

theorem DeletesAccess.membersFit {user : User → Prop} {vault : Vault → Prop} {key : VaultKey → Prop}
    (hd : DeletesAccess user vault key db db') (hI : MembersFit db)
    (howners : ∀ k ∈ db.vaultKeys, k.role = .owner → ∀ v ∈ db.vaults, ¬ vault v → v.id = k.vaultId → ¬ key k)
    (husers : ∀ k ∈ db.vaultKeys, ¬ key k → ∀ u, u.id = k.userId → ¬ user u) : MembersFit db' := by
  refine hI.keeps (fun v hv => ⟨v, ((hd.vaults v).mp hv).1, .refl v⟩) (fun k hk => .inl ⟨k, ((hd.keys k).mp hk).1, .refl k⟩)
    (fun k hk howner ⟨v, hv, hid⟩ => ?_) fun v hv htype k hk hkv ⟨k', hk', ha⟩ => ?_
  · obtain ⟨hv, hstays⟩ := (hd.vaults v).mp hv
    exact ⟨k, (hd.keys k).mpr ⟨hk, howners k hk howner v hv hstays hid⟩, .refl k⟩
  · obtain ⟨hk'₀, hkept⟩ := (hd.keys k').mp hk'
    have hteam : db'.teamOf k.userId = db.teamOf k.userId := Db.teamOf_of_mem fun u hu => by
      rw [hd.users]
      exact and_iff_left (husers k' hk'₀ hkept u (hu.trans ha.userId.symm))
    rw [hteam]
    exact ((hI.fits v hv k hk hkv).2 htype).2

/-- Keys rewritten in place, no owner's role among them. -/
theorem maps_membersFit {f : VaultKey → VaultKey} (hkeys : Table.Maps f db.vaultKeys db'.vaultKeys)
    (hf : ∀ k ∈ db.vaultKeys, k.Alike (f k)) (husers : db'.users = db.users)
    (hvaults : ∀ v' ∈ db'.vaults, ∃ v ∈ db.vaults, v.Agrees v') (hI : MembersFit db) : MembersFit db' := by
  refine hI.keeps hvaults (fun k' hk' => .inl ?_) (fun k hk _ _ => ⟨f k, (hkeys (f k)).mpr ⟨k, hk, rfl⟩, hf k hk⟩)
    (hI.sameTeams husers)
  obtain ⟨k, hk, rfl⟩ := (hkeys k').mp hk'
  exact ⟨k, hk, hf k hk⟩

theorem VaultKey.Alike.submitted (userId : String) (keys : List (String × String)) (k : VaultKey) :
    k.Alike (VaultKey.submitted userId keys k) := by
  obtain ⟨hid, hvault, huser, hrole⟩ := submitted_ids userId keys k
  exact ⟨hid, hvault, huser, by rw [hrole]⟩

/-- Keys are added for users who fit. -/
theorem AddsKeys.membersFit {given : VaultKey → Prop} (ha : AddsKeys given db.vaultKeys db'.vaultKeys)
    (hvaults : db'.vaults = db.vaults)
    (hgiven : ∀ k ∈ db'.vaultKeys, given k → k.role ≠ .owner ∧ ∀ v ∈ db.vaults, k.vaultId = v.id → db'.Fits v k.userId)
    (hteam : ∀ v ∈ db.vaults, v.type = .team → ∀ k ∈ db.vaultKeys, k.vaultId = v.id → db'.teamOf k.userId = v.teamId)
    (hI : MembersFit db) : MembersFit db' := by
  refine hI.keeps (fun v hv => ⟨v, hvaults ▸ hv, .refl v⟩) (fun k' hk' => ?_) (fun k hk _ _ => ⟨k, ha.kept k hk, .refl k⟩)
    fun v hv htype k hk hkv _ => hteam v hv htype k hk hkv
  rcases ha.only k' hk' with hold | hnew
  · exact .inl ⟨k', hold, .refl k'⟩
  · obtain ⟨hrole, hfits⟩ := hgiven k' hk' hnew
    exact .inr ⟨hrole, fun v hv => hfits v (hvaults ▸ hv)⟩

/-- A converted vault has members who fit. -/
theorem Converts.membersFit {userId : String} {input : ConvertVaultTypeInput}
    (hc : Converts seen userId input db db') (hI : MembersFit db)
    (hteam : input.targetType = .team → ∀ k ∈ db.vaultKeys, k.vaultId = input.vaultId →
      db.teamOf k.userId = seen.teamOf userId) : MembersFit db' := by
  have hids : ∀ {type teamId} (v : Vault), (Vault.converted input.vaultId type teamId v).id = v.id ∧
      (Vault.converted input.vaultId type teamId v).createdById = v.createdById := by
    intro type teamId v
    unfold Vault.converted
    split <;> exact ⟨rfl, rfl⟩
  cases hc with
  | toTeam htype teamId hteamId husers hkeys hvaults =>
    refine hI.step (fun v' hv' => ?_) (fun k hk => .inl ⟨k, hkeys ▸ hk, .refl k⟩)
      (fun k hk _ _ => ⟨k, hkeys ▸ hk, .refl k⟩) fun v' hv' k hk hkv => ?_
    · obtain ⟨v, hv, rfl⟩ := (hvaults v').mp hv'
      exact ⟨v, hv, hids v⟩
    · obtain ⟨v, hv, rfl⟩ := (hvaults v').mp hv'
      have hk : k ∈ db.vaultKeys := hkeys ▸ hk
      rw [(hids v).1] at hkv
      have hteamOf := Db.teamOf_congr husers k.userId
      by_cases hid : v.id = input.vaultId
      · rw [Vault.converted, if_pos hid]
        refine ⟨nofun, fun _ => ⟨rfl, ?_⟩⟩
        rw [hteamOf, hteam htype k hk (hkv.trans hid), hteamId]
      · rw [Vault.converted, if_neg hid]
        exact (hI.fits v hv k hk hkv).congr (.refl v) fun ht => by
          rw [hteamOf]
          exact ((hI.fits v hv k hk hkv).2 ht).2
  | toPersonal htype o honly howner husers hkeys hvaults =>
    refine hI.step (fun v' hv' => ?_) (fun k' hk' => .inl ?_) (fun k hk _ _ => ?_) fun v' hv' k' hk' hkv => ?_
    · obtain ⟨v, hv, rfl⟩ := (hvaults v').mp hv'
      exact ⟨v, hv, hids v⟩
    · obtain ⟨k, hk, rfl⟩ := (hkeys k').mp hk'
      exact ⟨k, hk, .submitted ..⟩
    · exact ⟨_, (hkeys _).mpr ⟨k, hk, rfl⟩, .submitted ..⟩
    · obtain ⟨v, hv, rfl⟩ := (hvaults v').mp hv'
      obtain ⟨k, hk, rfl⟩ := (hkeys k').mp hk'
      obtain ⟨-, hvault, huser, -⟩ := submitted_ids userId
        (input.personalEncryptedVaultKey.toList.map fun key => (input.vaultId, key)) k
      rw [(hids v).1, hvault] at hkv
      rw [huser]
      have hteamOf := Db.teamOf_congr husers k.userId
      by_cases hid : v.id = input.vaultId
      · -- The only key of the vault is its owner's.
        have hko : k = o := (honly k).mp ⟨hk, hkv.trans hid⟩
        rw [Vault.converted, if_pos hid]
        exact ⟨fun _ => hI.creator v hv k hk hkv (hko ▸ howner), nofun⟩
      · rw [Vault.converted, if_neg hid]
        exact (hI.fits v hv k hk hkv).congr (.refl v) fun ht => by
          rw [hteamOf]
          exact ((hI.fits v hv k hk hkv).2 ht).2

/-- Finalizations that exclude no owner, and leave nobody but those they exclude without
their team. -/
theorem FinalizedInTurn.membersFit {actorId : String} {ps : List RotationPlan} {es : List SyncEvent}
    {tx tx' : Versions Db} (hturn : FinalizedInTurn actorId ps es tx tx') (hkeys : db'.vaultKeys = tx'.current.vaultKeys)
    (hvaults : db'.vaults = tx'.current.vaults) (hI : MembersFit tx.current)
    (howner : ∀ p ∈ ps, ∀ k ∈ tx.current.vaultKeys, k.vaultId = p.vaultId → k.role = .owner →
      some k.userId ≠ p.excludedUserId)
    (hteam : ∀ v ∈ tx.current.vaults, v.type = .team → ∀ k ∈ tx.current.vaultKeys, k.vaultId = v.id →
      (∀ p ∈ ps, p.vaultId = k.vaultId → ¬ (p.excludes k = true ∧ k ∈ tx.snapshot.vaultKeys)) →
        db'.teamOf k.userId = v.teamId) : MembersFit db' := by
  refine hI.keeps (fun v' hv' => ?_) (fun k' hk' => .inl ?_) (fun k hk hrole _ => ?_) fun v hv htype k hk hkv ⟨k', hk', ha⟩ => ?_
  · obtain ⟨v, hv, he⟩ := hturn.vaults v' (hvaults ▸ hv')
    refine ⟨v, hv, ?_⟩
    rw [he]
    exact ⟨rfl, rfl, rfl, rfl⟩
  · obtain ⟨k, hk, hstays, -⟩ := hturn.mem_keys (hkeys ▸ hk')
    exact ⟨k, hk, hstays.alike⟩
  · obtain ⟨k', hk', hstays⟩ := hturn.stays hk fun p hp hpv => howner p hp k hk hpv.symm hrole
    exact ⟨k', hkeys ▸ hk', hstays.alike⟩
  · obtain ⟨k₀, hk₀, hstays, hnot⟩ := hturn.mem_keys (hkeys ▸ hk')
    have hsame : k₀ = k := Table.eq_of_key_eq hk₀ hk (by rw [← hstays.id, ha.id])
    exact hteam v hv htype k hk hkv (hsame ▸ hnot)

theorem teamOf_joined {userId teamId : String} {role : TeamRole}
    (husers : Table.Maps (User.joined userId teamId role) db.users db'.users) (other : String) :
    db'.teamOf other =
      if other = userId then (db.users.get? userId).map (fun _ => teamId) else db.teamOf other := by
  have hid : ∀ u, (User.joined userId teamId role u).id = u.id := by
    intro u
    unfold User.joined
    split <;> rfl
  rw [Db.teamOf, husers.get? hid]
  split
  · next hself =>
    rw [hself]
    cases hu : db.users.get? userId with
    | none => rfl
    | some u => simp [User.joined, Table.key_of_get? hu]
  · next hother =>
    rw [Db.teamOf]
    cases hu : db.users.get? other with
    | none => rfl
    | some u => simp [User.joined, Table.key_of_get? hu, hother]

/-- A user who has joined a team fits the vaults of that team, and the others fit where they did. -/
theorem acceptInvitation_membersFit {userId teamId : String} {role : TeamRole} {keys : List PendingVaultKey}
    (husers : Table.Maps (User.joined userId teamId role) db.users db'.users) (hvaults : db'.vaults = db.vaults)
    (hadds : AddsKeys (fun k => db.holdsKey userId k.vaultId = false ∧ ∃ a ∈ keys, k = a.row userId role.vaultRole)
      db.vaultKeys db'.vaultKeys)
    (hr : db'.Referential) (hI : MembersFit db)
    (hteam : ∀ v ∈ db.vaults, (v.type = .team → db.holdsKey userId v.id = true → v.teamId = some teamId) ∧
      ∀ a ∈ keys, a.vaultId = v.id → db.holdsKey userId v.id = false → v.type = .team ∧ v.teamId = some teamId) :
    MembersFit db' := by
  -- Whoever holds a key after the step is a user, and is in the team.
  have hself : ∀ k ∈ db'.vaultKeys, k.userId = userId → db'.teamOf userId = some teamId := by
    intro k hk hu
    obtain ⟨u', hu'⟩ := Option.isSome_iff_exists.mp (hr.users k hk)
    obtain ⟨u, hmem, rfl⟩ := (husers u').mp (Table.mem_of_get? hu')
    have hid : u.id = userId := by
      rw [← hu, ← Table.key_of_get? hu']
      unfold User.joined
      split <;> rfl
    have hget : db.users.get? userId = some u := by rw [← hid, Table.get?_key hmem]
    rw [teamOf_joined husers, if_pos rfl, hget]
    rfl
  refine hadds.membersFit hvaults ?_ (fun v hv htype k hk hkv => ?_) hI
  · rintro k hk ⟨hnot, a, ha, rfl⟩
    refine ⟨by cases role <;> exact nofun, fun v hv hav => ?_⟩
    obtain ⟨htype, hteamId⟩ := (hteam v hv).2 a ha hav (hav ▸ hnot)
    refine ⟨fun hpersonal => absurd (htype.symm.trans hpersonal) nofun, fun _ => ⟨by rw [hteamId]; rfl, ?_⟩⟩
    rw [hteamId]
    exact hself _ hk rfl
  · by_cases hu : k.userId = userId
    · rw [hu, hself k (hadds.kept k hk) hu]
      exact ((hteam v hv).1 htype (Db.holdsKey_iff.mpr ⟨k, hk, hkv, hu⟩)).symm
    · rw [teamOf_joined husers, if_neg hu]
      exact ((hI.fits v hv k hk hkv).2 htype).2

/-- **One transaction keeps membership well formed.** -/
theorem Transaction.Access.membersFit {t : Transaction} (ha : t.Access h db') (ht : t.FitsMembers h)
    (hr : h.now.Referential) (hr' : db'.Referential) (hI : MembersFit h.now) : MembersFit db' := by
  cases t with
  | createVault userId generatedId keyId input seen =>
    obtain ⟨seen, v, hseen, -, htype, hfounded, hc⟩ := ha
    have hteamOf := fun u => Db.teamOf_congr hc.users u
    refine hI.founds hr hc.vault hc.key rfl hfounded.createdById.symm rfl ?_ fun w hw hteam k hk hkw => ?_
    · refine ⟨fun _ => hfounded.createdById.symm, fun hteam => ?_⟩
      obtain ⟨hsome, hid⟩ := hfounded.team hteam
      refine ⟨hsome, ?_⟩
      rw [hid, hteamOf]
      exact ht (htype ▸ hteam) _ hseen
    · rw [hteamOf]
      exact ((hI.fits w hw k hk hkw).2 hteam).2
  | convertVaultType userId input seen =>
    obtain ⟨seen, hseen, hc⟩ := ha
    exact hc.membersFit hI fun htype => ht htype _ hseen
  | deleteVault userId clientId vaultId seen listed =>
    exact DeletesAccess.membersFit ha hI (fun k _ _ v _ hstays hid hkey => hstays (hid.trans hkey)) fun k _ _ u _ => id
  | updateVaultMemberRole userId input seen =>
    obtain ⟨hrole, husers, hvaults, hkeys⟩ := ha
    refine maps_membersFit hkeys (fun k hk => ?_) husers (fun v hv => ⟨v, hvaults ▸ hv, .refl v⟩) hI
    unfold VaultKey.withRole
    split
    · next hself => exact ⟨rfl, rfl, rfl, iff_of_false hrole (ht k hk hself.1 hself.2)⟩
    · exact .refl k
  | addVaultMember userId keyId input seen =>
    obtain ⟨hrole, husers, hvaults, hins⟩ := ha
    have hteamOf := fun u => Db.teamOf_congr husers u
    refine (AddsKeys.insert hins).membersFit hvaults ?_ (fun v hv htype k hk hkv => ?_) hI
    · rintro k - rfl
      exact ⟨hrole, fun v hv hkv => (ht v hv hkv.symm).congr (.refl v) fun htype => by
        rw [hteamOf]
        exact ((ht v hv hkv.symm).2 htype).2⟩
    · rw [hteamOf]
      exact ((hI.fits v hv k hk hkv).2 htype).2
  | acceptInvitation userId invitation seen =>
    obtain ⟨husers, hvaults, hadds⟩ := ha
    exact acceptInvitation_membersFit husers hvaults hadds hr' hI ht
  | registerUser user vaultId keyId encryptedVaultKey invitation seen =>
    obtain ⟨v, keys, hid, htype, hcreated, -, huser, hvault, hkey, hadds⟩ := ha
    have hget : ∀ u, db'.users.get? u = if u = user.id then some user else h.now.users.get? u := Table.get?_insert huser
    have hself : db'.teamOf user.id = user.teamId := by
      rw [Db.teamOf, hget, if_pos rfl]
      rfl
    have hothers : ∀ w ∈ h.now.vaults, w.type = .team → ∀ k ∈ h.now.vaultKeys, k.vaultId = w.id →
        db'.teamOf k.userId = w.teamId := by
      intro w hw hteam k hk hkw
      obtain ⟨u, hu⟩ := Option.isSome_iff_exists.mp (hr.users k hk)
      have hne : k.userId ≠ user.id := by
        rw [← Table.key_of_get? hu]
        exact Table.insert_fresh huser u (Table.mem_of_get? hu)
      rw [← ((hI.fits w hw k hk hkw).2 hteam).2, Db.teamOf, hget, if_neg hne, Db.teamOf]
    -- The new user with the personal vault, before the keys of the invitation.
    let registered : Db := { h.now with users := db'.users, vaults := db'.vaults, vaultKeys := keys }
    have hfirst : MembersFit registered := hI.founds hr hvault hkey hid.symm hcreated.symm rfl
      ⟨fun _ => hcreated.symm, fun hteam => absurd (htype.symm.trans hteam) (by simp)⟩ hothers
    have hadds : AddsKeys _ registered.vaultKeys db'.vaultKeys := hadds
    refine hadds.membersFit rfl ?_ (fun w hw hteam k hk hkw => ?_) hfirst
    · rintro k - ⟨i, hi, a, hmem, rfl⟩
      refine ⟨by cases i.role <;> simp [TeamRole.vaultRole, PendingVaultKey.row], fun w hw haw => ?_⟩
      rcases (Table.mem_insert hvault w).mp hw with hold | rfl
      · obtain ⟨hteam, hsome, huserTeam⟩ := ht i hi a hmem w hold haw.symm
        exact ⟨fun hpersonal => absurd (hteam.symm.trans hpersonal) (by simp), fun _ => ⟨hsome, hself.trans huserTeam⟩⟩
      · exact ⟨fun _ => hcreated.symm, fun hteam => absurd (htype.symm.trans hteam) (by simp)⟩
    · exact ((hfirst.fits w hw k hk hkw).2 hteam).2
  | updateVaultKeys userId keys =>
    obtain ⟨husers, hvaults, hkeys⟩ := ha
    exact maps_membersFit hkeys (fun k _ => .submitted userId keys k) husers (fun v hv => ⟨v, hvaults ▸ hv, .refl v⟩) hI
  | deleteAccount userId =>
    refine DeletesAccess.membersFit ha hI (fun k hk howner v hv hstays hid hkey => ?_) fun k _ hkept u hu hself => ?_
    · rcases hkey with hself | ⟨w, hw, hcreated, hwid⟩
      · exact hstays ((hI.creator v hv k hk hid.symm howner).symm.trans hself)
      · rw [Table.eq_of_key_eq hw hv (hwid.trans hid.symm)] at hcreated
        exact hstays hcreated
    · exact hkept (.inl (hu.symm.trans hself))
  | accounts users sessions teams =>
    obtain ⟨husers, hkeys, hvaults⟩ := ha
    refine hI.keeps (fun v hv => ⟨v, hvaults ▸ hv, .refl v⟩) (fun k hk => .inl ⟨k, hkeys ▸ hk, .refl k⟩)
      (fun k hk _ _ => ⟨k, hkeys ▸ hk, .refl k⟩) fun v hv htype k hk hkv _ => ?_
    rw [Db.teamOf, husers]
    exact ht v hv htype k hk hkv
  | finalizeRemoval begun now actorId vaultId targetId planId rotationId snap =>
    obtain ⟨snapshot, hsnap, hsame | ⟨plan, es, tx', hplan, hv, hx, hturn, rfl⟩⟩ := ha
    · exact hsame.membersFit hI
    · refine hturn.membersFit rfl rfl hI (fun p hp k hk hkv howner => ?_) fun v hv htype k hk hkv _ => ?_
      · obtain rfl : p = plan := List.mem_singleton.mp hp
        rw [hx]
        exact fun he => ht k hk (hkv.trans hv) howner (Option.some.inj he)
      · rw [Db.teamOf_congr hturn.all.users.2]
        exact ((hI.fits v hv k hk hkv).2 htype).2
  | finalizeDeparture begun now teamId actorId targetId intent plans personalTeamId snap =>
    obtain ⟨snapshot, hsnap, hsame | ⟨target, ps, es, tx₁, tx', htarget, hteam, hps, hturn, hmove, rfl⟩⟩ := ha
    · exact hsame.membersFit hI
    · obtain ⟨howner, hsees⟩ := ht snapshot hsnap
      have hrows := moveToPersonalTeam_sameRows hmove
      refine hturn.membersFit hrows.keys hrows.vaults hI (fun p hp k hk hkv hrole => ?_) fun v hv htype k hk hkv hnot => ?_
      · rw [hps.excluded p hp]
        exact fun he => howner k hk ((hps.exact _).mp (List.mem_map.mpr ⟨p, hp, hkv.symm⟩)) hrole (Option.some.inj he)
      · -- The target has lost every key of a team vault, and nobody else moves.
        have hother : k.userId ≠ target.id := by
          intro hself
          have hid : target.id = targetId := Table.key_of_get? htarget
          obtain ⟨haffected, hseen⟩ := hsees v hv htype k hk hkv (hself.trans hid)
          obtain ⟨p, hp, hpv⟩ := List.mem_map.mp ((hps.exact _).mpr haffected)
          refine hnot p hp (hpv.trans hkv.symm) ⟨?_, hseen⟩
          simp only [RotationPlan.excludes, Bool.and_eq_true, decide_eq_true_eq]
          exact ⟨hkv.trans hpv.symm, by rw [hps.excluded p hp, hself, hid]⟩
        have hget := (moveToPersonalTeam_some hmove).2.2 k.userId
        have hstay : tx'.current.teamOf k.userId = h.now.teamOf k.userId := by
          rw [Db.teamOf, hget, hturn.all.users.2, Db.teamOf]
          cases hu : h.now.users.get? k.userId with
          | none => rfl
          | some u =>
            have hne : u.id ≠ target.id := by rwa [Table.key_of_get? hu]
            simp [hne]
        rw [hstay]
        exact ((hI.fits v hv k hk hkv).2 htype).2
  | _ => exact SameAccess.membersFit ha hI

end Step

/-! ## Whole runs -/

/-- **Vault membership is well formed** in every state of a run in which the checks of each
request still hold when its transaction commits, no finalization excludes the owner of a
vault or misses a key of a departing user, and the other services leave the members of team
vaults in their team. -/
theorem membership_wellFormed (d : Deployment) (h : History)
    (hh : (server d).ReachableUnder (fun h t => t.FitsMembers h) h) : ∀ db ∈ h.states, MembershipWellFormed db := by
  have hI := System.ReachableUnder.invariant (fun h => ∀ db ∈ h.states, MembersFit db) ?_ ?_ hh
  · exact fun db hdb => (hI db hdb).wellFormed
  · rintro _ rfl db hdb
    obtain rfl : db = Db.empty := by simpa [History.states] using hdb
    exact ⟨fun v hv => absurd hv (Table.not_mem_empty v), fun k hk => absurd hk (Table.not_mem_empty k),
      fun v hv => absurd hv (Table.not_mem_empty v), fun v hv => absurd hv (Table.not_mem_empty v)⟩
  · intro h t h' hreach hI hfits hstep db hdb
    have hafter := referential_of_reachable (.step t hreach.reachable trivial hstep)
    obtain ⟨db', hrun, rfl⟩ := Option.map_eq_some_iff.mp hstep
    have hnow : h.now ∈ h.states := by simp [History.states]
    have hr := referential_of_reachable hreach.reachable _ hnow
    rcases List.mem_cons.mp hdb with rfl | hdb
    · exact (Transaction.access hrun).membersFit hfits hr (hafter _ List.mem_cons_self) (hI _ hnow)
    · exact hI db hdb

/-! ## A vault that is shared, and one that is shared too late -/

/-- What is asked of the requests of `rotatedVault`. -/
def Transaction.fitsCheck (h : History) : Transaction → Bool
  | accounts .. => h.now.vaults.rows.isEmpty
  | createVault _ _ _ _ seen => seen = 0
  | addVaultMember _ _ input _ => h.now.vaults.rows.all fun v => v.id ≠ input.vaultId ||
      v.type = .team && v.teamId.isSome && h.now.teamOf input.userId = v.teamId
  | createRemovalPlan .. | stageOutputs .. => true
  | finalizeRemoval _ _ _ vaultId targetId _ _ _ => h.now.vaultKeys.rows.all fun k =>
      k.vaultId ≠ vaultId || k.role ≠ .owner || k.userId ≠ targetId
  | _ => false

theorem fitsMembers_of_check {h : History} {t : Transaction} (hcheck : t.fitsCheck h = true) : t.FitsMembers h := by
  cases t with
  | accounts users sessions teams =>
    intro v hv
    have hnone : h.now.vaults.rows = [] := List.isEmpty_iff.mp hcheck
    exact absurd (hnone ▸ hv : v ∈ ([] : List Vault)) List.not_mem_nil
  | createVault userId generatedId keyId input seen =>
    intro _ db hdb
    obtain rfl : seen = 0 := of_decide_eq_true hcheck
    cases hdb
    rfl
  | addVaultMember userId keyId input seen =>
    intro v hv hid
    have hfits := List.all_eq_true.mp hcheck v hv
    simp only [hid, ne_eq, not_true, decide_false, Bool.false_or, Bool.and_eq_true, decide_eq_true_eq] at hfits
    exact ⟨fun hpersonal => absurd (hfits.1.1.symm.trans hpersonal) nofun, fun _ => ⟨hfits.1.2, hfits.2⟩⟩
  | createRemovalPlan | stageOutputs => exact trivial
  | finalizeRemoval begun now actorId vaultId targetId planId rotationId snap =>
    intro k hk hkv howner hself
    have hfits := List.all_eq_true.mp hcheck k hk
    simp [hkv, howner, hself] at hfits
  | _ => cases hcheck

/-- Bob is added to a vault and removed from it. -/
theorem membership_wellFormed_removal : ∃ h, (server selfHosted).run ⟨Db.empty, []⟩
    (sharedVault ++ preparedRemoval ++ [.finalizeRemoval 0 0 "ann" "v" "bob" "plan" "rotation" 0]) = some h ∧
      h.now.holdsKey "bob" "v" = false ∧ ∀ db ∈ h.states, MembershipWellFormed db := by
  let C := fun h (t : Transaction) => t.fitsCheck h = true
  have hrun : ((server selfHosted).runUnder C ⟨Db.empty, []⟩
      (sharedVault ++ preparedRemoval ++ [.finalizeRemoval 0 0 "ann" "v" "bob" "plan" "rotation" 0])).any
        (fun h => !h.now.holdsKey "bob" "v") = true := by decide +kernel
  rw [Option.any_eq_true] at hrun
  obtain ⟨h, hrun, hholds⟩ := hrun
  have hreach : (server selfHosted).ReachableUnder C h := System.ReachableUnder.runUnder (.init rfl) hrun
  exact ⟨h, System.run_of_runUnder hrun, Bool.not_eq_true' _ |>.mp hholds,
    membership_wellFormed selfHosted h (hreach.mono fun _ _ => fitsMembers_of_check)⟩

/-- Ann makes the vault personal after the request that adds Bob to it has made its checks. -/
def addedAfterConversion : List Transaction :=
  sharedVault.take 2 ++
    [.convertVaultType "ann" ⟨"v", .personal, none, none⟩ 0,
     .addVaultMember "ann" "k-bob" ⟨"v", "bob", .member, "key-bob", none⟩ 1]

/-- Bob is a member of Ann's personal vault. -/
theorem personal_vault_is_shared : ¬ ∀ (d : Deployment) (h : History), (server d).Reachable h →
    MembershipWellFormed h.now := by
  intro hall
  have hrun : ((server selfHosted).run ⟨Db.empty, []⟩ addedAfterConversion).any (fun h =>
      (h.now.vaults.any fun v => v.id = "v" && v.type = .personal) &&
        (h.now.vaultKeys.any fun k => k.vaultId = "v" && k.userId = "bob") &&
        h.now.vaultKeys.any fun k => k.vaultId = "v" && k.userId = "ann" && k.role = .owner) = true := by
    decide +kernel
  rw [Option.any_eq_true] at hrun
  obtain ⟨h, hrun, hcheck⟩ := hrun
  simp only [Bool.and_eq_true, decide_eq_true_eq, Table.any_eq_true] at hcheck
  obtain ⟨⟨⟨v, hv, hvid, htype⟩, k, hk, hkv, hbob⟩, o, ho, ⟨hov, hann⟩, howner⟩ := hcheck
  have hwell := hall selfHosted h (System.Reachable.run (.init rfl) hrun)
  have hself := hwell.personal v hv htype k hk o ho (hkv.trans hvid.symm) (hov.trans hvid.symm) howner
  rw [hbob, hann] at hself
  revert hself
  decide

end Bittery
