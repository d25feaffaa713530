/-
Which item mutations are announced to everyone they affect.

A mutation records one event in one vault, and the users who see the event are the holders
of a key of that vault. The users it affects are the holders of a key of the vault the row
was in, and of the vault it goes to. So a mutation is announced to everyone when whoever
could read the row can read the vault of its event. A move records its event in the target
vault alone; the other requests record theirs in the vault the row was read in, which is
the vault of the row unless a move has come in between.
-/
import Bittery.Client.DeltaSyncFacts
import Bittery.Server.Rotation.PlanSafety

namespace Bittery

open Lib

/-! ## Announced -/

/-- The events a transaction has recorded. -/
def newEvents (db db' : Db) : List SyncEvent := db'.events.drop db.events.length

/-- Processing the event removes or refreshes a user's copy of the item: it is then what the
server has, whatever it was, unless it was newer. -/
def SyncEvent.Reconciles (db : Db) (userId itemId : String) (e : SyncEvent) : Prop :=
  ∀ r : Replica, (∀ item, (serverView db userId).items itemId = some item → r.NotNewer item) →
    ∃ r', performDeltaSync db userId r e = .ok r' ∧ r'.items itemId = (serverView db userId).items itemId

/-- **Announced to everyone it affects**: each user to whom an item is not what it was sees
an event of the transaction that reconciles it. -/
def Announced (db db' : Db) : Prop :=
  ∀ userId itemId, (serverView db userId).items itemId ≠ (serverView db' userId).items itemId →
    ∃ e ∈ newEvents db db', visibleTo db' userId e = true ∧ e.Reconciles db' userId itemId

/-- The transactions that change items. -/
def Transaction.mutatesItems : Transaction → Bool
  | item .. | cleanupTombstones .. => true
  | _ => false

/-- Whoever can read a row that the transaction changes can read the vault of its event. -/
def Transaction.ReachesReaders (h : History) : Transaction → Prop
  | item userId request seen _ => ∀ m, request.mutation userId = some m → ∀ db existing row, h.ago seen = some db →
      db.items.get? m.itemId = some existing → h.now.items.get? m.itemId = some row →
        ∀ reader, h.now.holdsKey reader row.vaultId = true → h.now.holdsKey reader (m.eventVault existing) = true
  | cleanupTombstones cutoff seen => ∀ db, h.ago seen = some db → ∀ i ∈ tombstoneCandidates db cutoff,
      ∀ row, h.now.items.get? i.id = some row →
        ∀ reader, h.now.holdsKey reader row.vaultId = true → h.now.holdsKey reader i.vaultId = true
  | _ => True

variable {db db' seen acl : Db} {userId itemId : String}

theorem holdsKey_congr (h : db'.vaultKeys = db.vaultKeys) (u v : String) : db'.holdsKey u v = db.holdsKey u v := by
  unfold Db.holdsKey; rw [h]

theorem newEvents_appendEvent {e : SyncEvent} (h : db'.events = db.events ∧ db'.nextSeq = db.nextSeq) :
    newEvents db (db'.appendEvent e) = [{ e with seq := db.nextSeq }] := by
  show (db'.events ++ [{ e with seq := db'.nextSeq }]).drop db.events.length = _
  rw [h.1, h.2, List.drop_left]

/-! ## Requests on an existing item -/

/-- A row that a request leaves is in the vault it was in, or in the vault of the event; the
type of the event says whether it was deleted. -/
theorem ItemRequest.mutation_vault {r : ItemRequest} {m : ItemMutation} (hm : r.mutation userId = some m)
    (existing row : Item) :
    (∀ row', m.write row = some row' → (row'.vaultId = row.vaultId ∨ row'.vaultId = m.eventVault existing) ∧
      m.eventType.refetchesItem = true) ∧ (m.write row = none → m.eventType = .itemPermanentlyDeleted) := by
  cases r <;> cases hm
  case permanentDelete => exact ⟨fun _ h => (by cases h), fun _ => rfl⟩
  case move => exact ⟨fun row' h => by cases h; exact ⟨.inr rfl, rfl⟩, fun h => by cases h⟩
  all_goals exact ⟨fun row' h => by cases h; exact ⟨.inl rfl, rfl⟩, fun h => by cases h⟩

theorem isUserScoped_of_refetches {t : SyncEventType} (h : t.refetchesItem = true) : t.isUserScoped = false := by
  cases t <;> first | rfl | cases h

/-- The item of a request, before and after. -/
theorem serverView_writeRow {r : ItemRequest} {m : ItemMutation} (hm : r.mutation userId = some m) {row : Item}
    {e : SyncEvent} (hrow : db.items.get? m.itemId = some row) (reader : String) :
    (serverView ((writeRow db row (m.write row)).appendEvent e) reader).items itemId =
      if itemId = m.itemId then (m.write row).filter (fun i => db.holdsKey reader i.vaultId)
      else (serverView db reader).items itemId := by
  have hid : row.id = m.itemId := Table.key_of_get? hrow
  have hkeys : ∀ u v, (writeRow db row (m.write row)).holdsKey u v = db.holdsKey u v :=
    holdsKey_congr (writeRow_vaultKeys (m.write row))
  show (((writeRow db row (m.write row)).items.get? itemId).filter fun i =>
    (writeRow db row (m.write row)).holdsKey reader i.vaultId) = _
  simp only [hkeys]
  cases hw : m.write row with
  | none =>
    rw [get?_writeRow_none, hid]
    split <;> rfl
  | some row' =>
    rw [get?_writeRow_some (hid ▸ hrow) (ItemRequest.mutation_write hm hw).1, hid]
    split <;> rfl

theorem mutation_announced {r : ItemRequest} {m : ItemMutation} {version : Nat} (hm : r.mutation userId = some m)
    (hrun : m.run seen acl db userId = .ok (db', version)) :
    Announced db db' ↔ ∀ existing row, seen.items.get? m.itemId = some existing → db.items.get? m.itemId = some row →
      ∀ reader, db.holdsKey reader row.vaultId = true → db.holdsKey reader (m.eventVault existing) = true := by
  obtain ⟨existing, row, hacc, -, rfl⟩ := ItemMutation.run_ok hrun
  have hview : ∀ id reader, (serverView ((writeRow db row (m.write row)).appendEvent (m.event userId existing row))
      reader).items id = if id = m.itemId then (m.write row).filter (fun i => db.holdsKey reader i.vaultId)
        else (serverView db reader).items id :=
    fun _ reader => serverView_writeRow hm hacc.found reader
  have hkeys : ∀ u v, (writeRow db row (m.write row)).holdsKey u v = db.holdsKey u v :=
    holdsKey_congr (writeRow_vaultKeys (m.write row))
  have hevents : newEvents db ((writeRow db row (m.write row)).appendEvent (m.event userId existing row)) =
      [{ m.event userId existing row with seq := db.nextSeq }] := newEvents_appendEvent (writeRow_events (m.write row))
  obtain ⟨hwrite, hdelete⟩ := ItemRequest.mutation_vault hm existing row
  have hscope : m.eventType.isUserScoped = false := by
    cases hw : m.write row with
    | none => rw [hdelete hw]; rfl
    | some row' => exact isUserScoped_of_refetches (hwrite row' hw).2
  have hvisible : ∀ reader, visibleTo ((writeRow db row (m.write row)).appendEvent (m.event userId existing row)) reader
      { m.event userId existing row with seq := db.nextSeq } = db.holdsKey reader (m.eventVault existing) := by
    intro reader
    rw [visibleTo_of_vault rfl hscope]
    exact hkeys reader _
  constructor
  · intro hann existing' row' hexisting' hrow' reader hreads
    obtain rfl : existing' = existing := Option.some.inj (hexisting'.symm.trans hacc.read)
    obtain rfl : row' = row := Option.some.inj (hrow'.symm.trans hacc.found)
    -- A reader of the row sees it change: its version goes up, or it is gone.
    have hbefore : (serverView db reader).items m.itemId = some row' := serverView_items.mpr ⟨hacc.found, hreads⟩
    have hchanged : (serverView db reader).items m.itemId ≠ (serverView
        ((writeRow db row' (m.write row')).appendEvent (m.event userId existing' row')) reader).items m.itemId := by
      rw [hbefore, hview, if_pos rfl]
      intro he
      obtain ⟨hw, -⟩ := Option.filter_eq_some_iff.mp he.symm
      have := (ItemRequest.mutation_write hm hw).2
      omega
    obtain ⟨e, he, hsees, -⟩ := hann reader m.itemId hchanged
    rw [hevents, List.mem_singleton] at he
    rw [he, hvisible] at hsees
    exact hsees
  · intro hreach reader id hchanged
    rw [hview] at hchanged
    by_cases hid : id = m.itemId
    · subst hid
      rw [if_pos rfl] at hchanged
      -- Whoever sees a change could read the row, or can read it now.
      have hsees : db.holdsKey reader (m.eventVault existing) = true := by
        by_cases hreads : db.holdsKey reader row.vaultId = true
        · exact hreach existing row hacc.read hacc.found reader hreads
        · cases hw : m.write row with
          | none =>
            rw [hw] at hchanged
            exact absurd (by simp [serverView, hacc.found, hreads]) hchanged
          | some row' =>
            by_cases hreads' : db.holdsKey reader row'.vaultId = true
            · rcases (hwrite row' hw).1 with hsame | hnew
              · exact absurd (hsame ▸ hreads') hreads
              · exact hnew ▸ hreads'
            · rw [hw] at hchanged
              exact absurd (by simp [serverView, hacc.found, Option.filter, hreads, hreads']) hchanged
      refine ⟨{ m.event userId existing row with seq := db.nextSeq }, by rw [hevents]; exact List.mem_singleton.mpr rfl,
        (hvisible reader).trans hsees, fun replica hnew => ?_⟩
      have hafter := hview m.itemId reader
      rw [if_pos rfl] at hafter
      cases hw : m.write row with
      | none =>
        refine ⟨_, performDeltaSync_permanentlyDeleted (hdelete hw), ?_⟩
        rw [hw] at hafter
        rw [hafter]
        simp [Replica.removeItem, ItemMutation.event]
      | some row' =>
        have hreads' : db.holdsKey reader row'.vaultId = true := by
          rcases (hwrite row' hw).1 with hsame | hnew'
          · by_contra hno
            rw [hw, Option.filter_some, if_neg hno] at hchanged
            rw [hsame] at hno
            exact hchanged (by simp [serverView, hacc.found, hno])
          · rw [hnew']; exact hsees
        rw [hw, Option.filter_some, if_pos hreads'] at hafter
        have hrow' : row'.id = m.itemId := (ItemRequest.mutation_write hm hw).1.trans (Table.key_of_get? hacc.found)
        refine ⟨_, (performDeltaSync_refetch (hwrite row' hw).2).trans (reconcileCurrentItem_view hafter), ?_⟩
        rw [hw] at hnew
        rw [hafter, ← hrow']
        exact upsertItem_self (hnew row' hafter)
    · rw [if_neg hid] at hchanged
      exact absurd rfl hchanged

/-! ## Requests that insert items -/

/-- An inserted item is seen by the holders of a key of its vault, and so is the event. -/
theorem inserted_announced {items : Table Item.id} {rows : List Item} {vaultId : String} {e : SyncEvent}
    (hrows : items.rows = db.items.rows ++ rows) (hvault : ∀ row ∈ rows, row.vaultId = vaultId)
    (he : e.vaultId = some vaultId) (hscope : e.eventType.isUserScoped = false)
    (hdb' : db' = { db with items := items }.appendEvent e)
    (hrec : ∀ reader, db'.holdsKey reader vaultId = true → ∀ row ∈ rows,
      SyncEvent.Reconciles db' reader row.id { e with seq := db.nextSeq }) : Announced db db' := by
  intro reader id hchanged
  have hkeys : ∀ vaultId, db'.holdsKey reader vaultId = db.holdsKey reader vaultId := holdsKey_congr (by rw [hdb']; rfl) reader
  have hevents : newEvents db db' = [{ e with seq := db.nextSeq }] := by
    rw [hdb']
    exact newEvents_appendEvent ⟨rfl, rfl⟩
  have hitems : db'.items = items := by rw [hdb']; rfl
  have hget : db'.items.get? id = (db.items.get? id).or (rows.find? fun row => row.id = id) := by
    rw [hitems, Table.get?, hrows, List.find?_append]
    rfl
  -- What the user sees changed is one of the inserted rows.
  have hnone : db.items.get? id = none := by
    cases hold : db.items.get? id with
    | none => rfl
    | some row =>
      refine absurd ?_ hchanged
      show (db.items.get? id).filter _ = (db'.items.get? id).filter _
      simp only [hget, hold, Option.some_or, hkeys]
  rw [hnone, Option.none_or] at hget
  have hafter : (serverView db' reader).items id =
      (rows.find? fun row => row.id = id).filter fun row => db'.holdsKey reader row.vaultId := by
    rw [← hget]
    rfl
  have hbefore : (serverView db reader).items id = none := by
    show (db.items.get? id).filter _ = none
    rw [hnone]; rfl
  cases hfind : rows.find? fun row => row.id = id with
  | none =>
    rw [hafter, hbefore, hfind] at hchanged
    exact absurd rfl hchanged
  | some row =>
    have hmem := List.mem_of_find?_eq_some hfind
    have hid : row.id = id := by simpa using List.find?_some hfind
    have hreads : db'.holdsKey reader vaultId = true := by
      by_contra hno
      rw [hafter, hbefore, hfind, Option.filter_some, hvault row hmem, if_neg hno] at hchanged
      exact hchanged rfl
    refine ⟨{ e with seq := db.nextSeq }, by rw [hevents]; exact List.mem_singleton.mpr rfl, ?_, hid ▸ hrec reader hreads row hmem⟩
    exact (visibleTo_of_vault (e := { e with seq := db.nextSeq }) he hscope).trans hreads

theorem serverView_inserted {items : Table Item.id} {rows : List Item} {e : SyncEvent} {reader : String} {row : Item}
    (hrows : items.rows = db.items.rows ++ rows) (hmem : row ∈ rows) (hreads : db.holdsKey reader row.vaultId = true) :
    (serverView ({ db with items := items }.appendEvent e) reader).items row.id = some row := by
  refine serverView_items.mpr ⟨Table.get?_key (show row ∈ items.rows from ?_), hreads⟩
  rw [hrows]
  exact List.mem_append_right _ hmem

theorem createVaultItem_announced {input : CreateItemInput} (h : createVaultItem acl db userId input = .ok db') :
    Announced db db' := by
  obtain ⟨-, -, items, hins, rfl⟩ := createVaultItem_ok h
  have hrows := Table.insert_rows hins
  refine inserted_announced hrows (by simp [newItem]) rfl rfl rfl fun reader hreads row hmem replica hnew => ?_
  obtain rfl := List.mem_singleton.mp hmem
  have hview := serverView_inserted (e := ⟨0, .itemCreated, input.itemId, .item, some input.vaultId, userId, 1,
    input.clientId, none⟩) hrows hmem hreads
  refine ⟨_, (performDeltaSync_refetch rfl).trans (reconcileCurrentItem_view hview), ?_⟩
  rw [hview]
  exact upsertItem_self (hnew _ hview)

/-- An import has one event, of the vault: processing it fetches the items of the vault. -/
theorem bulkImportVaultItems_announced {input : BulkImportItemsInput}
    (h : bulkImportVaultItems acl db userId input = .ok db') : Announced db db' := by
  obtain ⟨-, rfl | ⟨-, hvault, items, hrows, rfl⟩⟩ := bulkImportVaultItems_ok h
  · exact fun reader id hchanged => absurd rfl hchanged
  refine inserted_announced hrows ?_ rfl rfl rfl fun reader hreads row hmem replica hnew => ?_
  · intro row hmem
    obtain ⟨i, -, rfl⟩ := List.mem_map.mp hmem
    rfl
  obtain ⟨i, -, hrow⟩ := List.mem_map.mp hmem
  have hv : row.vaultId = input.vaultId := by rw [← hrow]; rfl
  have hlive : row.deletedAt = none := by rw [← hrow]; rfl
  have hview := serverView_inserted (e := ⟨0, .vaultUpdated, input.vaultId, .vault, some input.vaultId, userId, 1,
    input.clientId, some (.bulkImport input.items.length)⟩) hrows hmem (hv ▸ hreads)
  obtain ⟨v, hsync⟩ := performDeltaSync_bulkImport (r := replica) (e := ⟨db.nextSeq, .vaultUpdated, input.vaultId, .vault,
    some input.vaultId, userId, 1, input.clientId, some (.bulkImport input.items.length)⟩) rfl rfl rfl rfl hreads hvault
  refine ⟨_, hsync, ?_⟩
  rw [hview]
  refine upsertItems_of_mem ?_ (select_items_nodup _) (hnew _ hview)
  simp only [Table.mem_select, hv, hlive, Option.isNone_none, decide_true, Bool.and_self, and_true]
  exact Table.mem_of_get? (serverView_items.mp hview).1

/-! ## Cleaning up the trash -/

/-- The event that tells of the end of an item. -/
def SyncEvent.Buries (e : SyncEvent) (i : Item) : Prop :=
  e.eventType = .itemPermanentlyDeleted ∧ e.entityId = i.id ∧ e.vaultId = some i.vaultId

theorem cleanupTombstones_ok {cutoff : Time} (h : cleanupTombstones seen db cutoff = .ok db') :
    db'.vaultKeys = db.vaultKeys ∧
      (∀ id, db'.items.get? id =
        (db.items.get? id).filter fun _ => !(tombstoneCandidates seen cutoff).any fun i => i.id = id) ∧
      List.Forall₂ SyncEvent.Buries (newEvents db db') (tombstoneCandidates seen cutoff) := by
  simp only [cleanupTombstones, Except.bind_ok_iff, Except.pure_ok_iff] at h
  obtain ⟨db₁, hfold, rfl⟩ := h
  -- The loop records an event for each candidate, and nothing else.
  let I : List Item → Db → Prop := fun done d =>
    ∃ events next, List.Forall₂ SyncEvent.Buries events done ∧ d = { db with events := db.events ++ events, nextSeq := next }
  obtain ⟨events, next, hburied, rfl⟩ : I ([] ++ tombstoneCandidates seen cutoff) db₁ := by
    refine Except.foldlM_ok I ?_ ⟨[], db.nextSeq, .nil, by rw [List.append_nil]⟩ hfold
    rintro done i d d' ⟨events, next, hburied, rfl⟩ hstep
    obtain ⟨-, rfl⟩ := insertSyncEvent_ok hstep
    refine ⟨events ++ [⟨next, .itemPermanentlyDeleted, i.id, .item, some i.vaultId, i.lastModifiedBy, i.version, none,
      some .tombstoneCleanup⟩], next + 1, ?_, ?_⟩
    · exact List.rel_append hburied (.cons ⟨rfl, rfl, rfl⟩ .nil)
    · simp only [Db.appendEvent, List.append_assoc]
  refine ⟨rfl, fun id => ?_, ?_⟩
  · show (db.items.deleteWhere _).get? id = _
    rw [Table.get?_deleteWhere]
    cases hrow : db.items.get? id with
    | none => rfl
    | some row => simp only [Option.filter_some, Table.key_of_get? hrow]
  · show List.Forall₂ _ ((db.events ++ events).drop db.events.length) _
    rw [List.drop_left]
    exact hburied

theorem tombstoneCandidates_unique {cutoff : Time} {i j : Item} (hi : i ∈ tombstoneCandidates seen cutoff)
    (hj : j ∈ tombstoneCandidates seen cutoff) (hid : i.id = j.id) : i = j :=
  Table.eq_of_key_eq (Table.mem_select.mp (List.mem_of_mem_take hi)).1 (Table.mem_select.mp (List.mem_of_mem_take hj)).1 hid

theorem cleanupTombstones_announced {cutoff : Time} (h : cleanupTombstones seen db cutoff = .ok db') :
    Announced db db' ↔ ∀ i ∈ tombstoneCandidates seen cutoff, ∀ row, db.items.get? i.id = some row →
      ∀ reader, db.holdsKey reader row.vaultId = true → db.holdsKey reader i.vaultId = true := by
  obtain ⟨hkeys, hitems, hburied⟩ := cleanupTombstones_ok h
  have hview : ∀ reader id, (serverView db' reader).items id = ((serverView db reader).items id).filter fun _ =>
      !(tombstoneCandidates seen cutoff).any fun i => i.id = id := by
    intro reader id
    show (db'.items.get? id).filter _ = ((db.items.get? id).filter _).filter _
    simp only [hitems, holdsKey_congr hkeys, Option.filter_filter, Bool.and_comm]
  have hvisible : ∀ reader e i, e.Buries i → visibleTo db' reader e = db.holdsKey reader i.vaultId := by
    rintro reader e i ⟨ht, -, hv⟩
    rw [visibleTo_of_vault hv (by rw [ht]; rfl), holdsKey_congr hkeys]
  constructor
  · intro hann i hi row hrow reader hreads
    have hbefore : (serverView db reader).items i.id = some row := serverView_items.mpr ⟨hrow, hreads⟩
    have hdoomed : (tombstoneCandidates seen cutoff).any (fun j => j.id = i.id) = true :=
      List.any_eq_true.mpr ⟨i, hi, decide_eq_true rfl⟩
    have hafter : (serverView db' reader).items i.id = none := by
      rw [hview, hdoomed, Option.filter_eq_none_iff]
      exact fun _ _ => by simp
    obtain ⟨e, he, hsees, hrec⟩ := hann reader i.id (by rw [hbefore, hafter]; simp)
    obtain ⟨j, hj, hburies⟩ := forall₂_exists_of_mem_right hburied.flip he
    -- Only the event of this item removes it from a replica that has it.
    obtain ⟨r', hsync, hr'⟩ := hrec ⟨fun _ => none, fun _ => [], fun _ => some row⟩
      (fun item hitem => by rw [hafter] at hitem; cases hitem)
    rw [performDeltaSync_permanentlyDeleted hburies.1] at hsync
    obtain rfl := Except.ok.inj hsync
    have hid : i.id = j.id := by
      by_contra hne
      simp [Replica.removeItem, hburies.2.1, hne, hafter] at hr'
    obtain rfl := tombstoneCandidates_unique hi hj hid
    exact hvisible reader e i hburies ▸ hsees
  · intro hreach reader id hchanged
    have hdoomed : (tombstoneCandidates seen cutoff).any (fun i => i.id = id) = true := by
      by_contra hno
      rw [Bool.not_eq_true] at hno
      rw [hview, hno] at hchanged
      exact hchanged (by cases (serverView db reader).items id <;> rfl)
    have hafter : (serverView db' reader).items id = none := by
      rw [hview, hdoomed, Option.filter_eq_none_iff]
      exact fun _ _ => by simp
    obtain ⟨i, hi, hid⟩ := List.any_eq_true.mp hdoomed
    obtain rfl := of_decide_eq_true hid
    obtain ⟨row, hrow⟩ := Option.ne_none_iff_exists'.mp (hafter ▸ hchanged)
    obtain ⟨hrow, hreads⟩ := serverView_items.mp hrow
    obtain ⟨e, he, hburies⟩ := forall₂_exists_of_mem_right hburied hi
    refine ⟨e, he, (hvisible reader e i hburies).trans (hreach i hi row hrow reader hreads), fun r _ => ?_⟩
    refine ⟨_, performDeltaSync_permanentlyDeleted hburies.1, ?_⟩
    rw [hafter]
    simp [Replica.removeItem, hburies.2.1]

/-! ## Every mutation -/

/-- **A mutation is announced to everyone it affects** exactly when whoever can read a row
that it changes can read the vault its event is recorded in. -/
theorem announced_iff_reachesReaders (d : Deployment) (h : History) (t : Transaction) (ht : t.mutatesItems = true)
    (db' : Db) (hrun : t.run d h = some db') : Announced h.now db' ↔ t.ReachesReaders h := by
  cases t with
  | item userId request seen acl =>
    obtain ⟨seenDb, hseen, aclDb, -, hrun⟩ := History.ran₂ hrun
    cases hm : request.mutation userId with
    | none =>
      have hann : Announced h.now db' := by
        cases request with
        | create input => exact createVaultItem_announced hrun
        | bulkImport input => exact bulkImportVaultItems_announced hrun
        | _ => cases hm
      exact iff_of_true hann fun m hm' => absurd (hm.symm.trans hm') (by simp)
    | some m =>
      obtain ⟨version, hrun⟩ := ItemRequest.run_mutation hm hrun
      rw [mutation_announced hm hrun]
      constructor
      · intro hreach m' hm' db existing row hdb hread hfound
        obtain rfl := Option.some.inj (hm.symm.trans hm')
        obtain rfl := Option.some.inj (hseen.symm.trans hdb)
        exact hreach existing row hread hfound
      · intro hreach existing row hread hfound
        exact hreach m hm seenDb existing row hseen hread hfound
  | cleanupTombstones cutoff seen =>
    obtain ⟨seenDb, hseen, hrun⟩ := History.ran hrun
    rw [cleanupTombstones_announced hrun]
    constructor
    · intro hreach db hdb
      obtain rfl := Option.some.inj (hseen.symm.trans hdb)
      exact hreach
    · intro hreach
      exact hreach seenDb hseen
  | _ => cases ht

/-! ## One mutation that is announced, and one that is not -/

/-- The shared vault has an item, and Ann has a vault of her own. -/
def sharedItem : List Transaction :=
  sharedVault ++
    [.item "ann" (.create ⟨"item", "v", .login, "data", "iv", "alg", none⟩) 0 0,
     .createVault "ann" "w" "k-own" ⟨some "w", "Own", .personal, "key-own", none, none, none⟩ 0]

def annEdits : Transaction := .item "ann" (.update ⟨"item", some "data-2", some "iv-2", some "alg", some 1, none⟩) 0 0

/-- Ann takes the item out of the vault she shares with Bob. -/
def annMoves : Transaction := .item "ann" (.move ⟨"item", "v", "w", "data-2", "iv-2", "alg", some 1, none⟩) 0 0

def afterSharedItem (t : Transaction) : Option (History × Db) := do
  let h ← (server selfHosted).run ⟨Db.empty, []⟩ sharedItem
  return (h, ← t.run selfHosted h)

theorem afterSharedItem_some {t : Transaction} {h : History} {db : Db} (ha : afterSharedItem t = some (h, db)) :
    (server selfHosted).run ⟨Db.empty, []⟩ sharedItem = some h ∧ t.run selfHosted h = some db := by
  simp only [afterSharedItem, Option.bind_eq_bind, Option.bind_eq_some_iff] at ha
  obtain ⟨h', hh, db', hdb, he⟩ := ha
  cases he
  exact ⟨hh, hdb⟩

theorem edit_announced : ∃ h db, afterSharedItem annEdits = some (h, db) ∧ Announced h.now db := by
  cases ha : afterSharedItem annEdits with
  | none => exact absurd ha (Option.ne_none_iff_isSome.mpr (by decide +kernel))
  | some s =>
    obtain ⟨h, db⟩ := s
    obtain ⟨-, hrun⟩ := afterSharedItem_some ha
    refine ⟨h, db, rfl, (announced_iff_reachesReaders selfHosted h annEdits rfl db hrun).mpr ?_⟩
    -- The row was read as it is, so the event is in its vault.
    intro m hm seenDb existing row hseen hread hfound reader hreads
    cases hm
    cases hseen
    obtain rfl : existing = row := Option.some.inj (hread.symm.trans hfound)
    exact hreads

/-- Bob has lost the item, and sees no event of the move. -/
theorem move_not_announced : ¬ ∀ (d : Deployment) (h : History) (t : Transaction) (db' : Db), (server d).Reachable h →
    t.mutatesItems = true → t.run d h = some db' → Announced h.now db' := by
  intro hall
  have hmiss : (afterSharedItem annMoves).any (fun s =>
      (serverView s.1.now "bob").items "item" ≠ (serverView s.2 "bob").items "item" &&
        (newEvents s.1.now s.2).all fun e => !visibleTo s.2 "bob" e) = true := by decide +kernel
  rw [Option.any_eq_true] at hmiss
  obtain ⟨⟨h, db⟩, ha, hmiss⟩ := hmiss
  obtain ⟨hh, hrun⟩ := afterSharedItem_some ha
  rw [Bool.and_eq_true, decide_eq_true_eq, List.all_eq_true] at hmiss
  have hann := hall selfHosted h annMoves db (System.Reachable.run (.init rfl) hh) rfl hrun
  obtain ⟨e, he, hsees, -⟩ := hann "bob" "item" hmiss.1
  have hhidden := hmiss.2 e he
  rw [hsees] at hhidden
  cases hhidden

end Bittery
