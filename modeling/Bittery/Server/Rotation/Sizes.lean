/-
What a rotation reads and stages, in bytes: the page budget of `domains/vaults/rotation/plans.rs`,
the ciphertext check of `domains/vaults/http/mod.rs` and the body limit of
`domains/vaults/http/rotation.rs`.

A page of the manifest is a beginning of what is left, and ends where the budget does; a record
that does not fit into the budget by itself is an error wherever the paging comes to it. The
text of a manifest record is what `json_build_object(…)::text` makes of it, and the text of an
output what `JSON.stringify` makes of it.
-/
import Bittery.Lib.Json
import Bittery.Server.Items
import Bittery.Server.Rotation.PlanSteps

namespace Bittery

open Lib

/-! ## Limits -/

def ITEM_CIPHERTEXT_BYTES : Nat := 1048576

def ORDINARY_API_BODY_LIMIT_BYTES : Nat := 1048576

/-- `check_ciphertext`. -/
def checkCiphertext (value : String) : Except AppError Unit :=
  if ITEM_CIPHERTEXT_BYTES < value.utf8ByteSize then
    .error (.payloadTooLarge s!"Item ciphertext cannot exceed {ITEM_CIPHERTEXT_BYTES} bytes.")
  else .ok ()

/-! ## Texts -/

def VaultRole.text : VaultRole → String
  | .owner => "owner"
  | .admin => "admin"
  | .member => "member"
  | .readOnly => "read-only"

/-- The text of a manifest record, as PostgreSQL writes it. -/
def ManifestPayload.text : ManifestPayload → String
  | .member userId publicKey role =>
    Json.object ", " " : " [("userId", Json.quote userId), ("publicKey", Json.quote publicKey), ("role", Json.quote role.text)]
  | .item id vaultId encryptedData encryptionIv encryptionAlgorithm encryptionVersion encryptedByUserId =>
    Json.object ", " " : " [("id", Json.quote id), ("vaultId", Json.quote vaultId),
      ("encryptedData", Json.quote encryptedData), ("encryptionIv", Json.quote encryptionIv),
      ("encryptionAlgorithm", Json.quote encryptionAlgorithm), ("encryptionVersion", Json.number encryptionVersion),
      ("encryptedByUserId", Json.quote encryptedByUserId)]
  | .attachment encryptedAttachmentKey attachmentKeyIv attachmentKeyAlgorithm vaultId attachmentId uploadedBy envelopeVersion =>
    Json.object ", " " : " [("encryptedAttachmentKey", Json.quote encryptedAttachmentKey),
      ("attachmentKeyIv", Json.quote attachmentKeyIv), ("attachmentKeyAlgorithm", Json.quote attachmentKeyAlgorithm),
      ("vaultId", Json.quote vaultId), ("attachmentId", Json.quote attachmentId), ("uploadedBy", Json.quote uploadedBy),
      ("envelopeVersion", Json.number envelopeVersion)]

/-- What a record counts for in a page. -/
def ManifestRecord.bytes (m : ManifestRecord) : Nat := m.entityId.utf8ByteSize + m.payload.text.utf8ByteSize + 16

/-- What an output counts for. -/
def StagedOutput.bytes (o : StagedOutput) : Nat := o.id.utf8ByteSize + o.payload.text.utf8ByteSize + 16

/-- The output of an item (`encodeRotationStageOutput`). -/
def itemOutput (id itemId encryptedData encryptionIv encryptionAlgorithm : String) : StagedOutput where
  id := id
  payload :=
    { text := Json.object "," ":" [("itemId", Json.quote itemId), ("encryptedData", Json.quote encryptedData),
        ("encryptionIv", Json.quote encryptionIv), ("encryptionAlgorithm", Json.quote encryptionAlgorithm)]
      object := some [("itemId", itemId), ("encryptedData", encryptedData), ("encryptionIv", encryptionIv),
        ("encryptionAlgorithm", encryptionAlgorithm)] }

/-- The output of an attachment. Its `envelopeVersion` is a number. -/
def attachmentOutput (id attachmentId encryptedAttachmentKey attachmentKeyIv attachmentKeyAlgorithm vaultId uploadedBy : String)
    (envelopeVersion : Nat) : StagedOutput where
  id := id
  payload :=
    { text := Json.object "," ":" [("attachmentId", Json.quote attachmentId),
        ("encryptedAttachmentKey", Json.quote encryptedAttachmentKey), ("attachmentKeyIv", Json.quote attachmentKeyIv),
        ("attachmentKeyAlgorithm", Json.quote attachmentKeyAlgorithm), ("vaultId", Json.quote vaultId),
        ("uploadedBy", Json.quote uploadedBy), ("envelopeVersion", Json.number envelopeVersion)]
      object := some [("attachmentId", attachmentId), ("encryptedAttachmentKey", encryptedAttachmentKey),
        ("attachmentKeyIv", attachmentKeyIv), ("attachmentKeyAlgorithm", attachmentKeyAlgorithm), ("vaultId", vaultId),
        ("uploadedBy", uploadedBy)] }

/-- The request that stages one output by itself. -/
def stageRequest (o : StagedOutput) : String :=
  Json.object "," ":" [("outputs",
    "[" ++ Json.object "," ":" [("id", Json.quote o.id), ("payload", Json.quote o.payload.text)] ++ "]")]

/-- The output is the record encrypted anew: texts of the same lengths, in an alphabet that needs no escaping. -/
inductive Reencrypts : ManifestRecord → StagedOutput → Prop
  | item {entityId id vaultId data iv algorithm userId data' iv' : String} {expectedVersion version : Nat} :
    Json.Plain data' → Json.Plain iv' → data'.utf8ByteSize = data.utf8ByteSize → iv'.utf8ByteSize = iv.utf8ByteSize →
    data' ≠ "" → iv' ≠ "" → algorithm ≠ "" →
    Reencrypts ⟨entityId, expectedVersion, .item id vaultId data iv algorithm version userId⟩
      (itemOutput entityId id data' iv' algorithm)
  | attachment {entityId attachmentId vaultId key iv algorithm uploadedBy key' iv' : String} {expectedVersion version : Nat} :
    Json.Plain key' → Json.Plain iv' → key'.utf8ByteSize = key.utf8ByteSize → iv'.utf8ByteSize = iv.utf8ByteSize →
    key' ≠ "" → iv' ≠ "" → algorithm ≠ "" →
    Reencrypts ⟨entityId, expectedVersion, .attachment key iv algorithm vaultId attachmentId uploadedBy version⟩
      (attachmentOutput entityId attachmentId key' iv' algorithm vaultId uploadedBy (version + 1))

/-! ## Outputs are no larger than records -/

variable {m : ManifestRecord} {o : StagedOutput}

theorem Reencrypts.id (h : Reencrypts m o) : o.id = m.entityId := by
  cases h <;> rfl

/-- PostgreSQL puts four bytes around a member where `JSON.stringify` puts two. -/
theorem size_separators : (", " : String).utf8ByteSize = 2 ∧ (" : " : String).utf8ByteSize = 3 ∧
    ("," : String).utf8ByteSize = 1 ∧ (":" : String).utf8ByteSize = 1 := ⟨rfl, rfl, rfl, rfl⟩

/-- **The text of an output is shorter** than the one of the record that it takes the place of. -/
theorem Reencrypts.bytes_le (h : Reencrypts m o) : o.bytes ≤ m.bytes := by
  obtain ⟨hcomma, hcolon, hcomma', hcolon'⟩ := size_separators
  cases h with
  | @item _ _ _ data iv _ _ _ _ _ _ hdata hiv hdataSize hivSize =>
    have hdata' := Json.escape_of_plain hdata
    have hiv' := Json.escape_of_plain hiv
    have hold := Json.size_le_escape data
    have hold' := Json.size_le_escape iv
    have hname : (Json.escape "itemId").utf8ByteSize = 6 := Json.escape_of_plain (by decide)
    simp only [StagedOutput.bytes, ManifestRecord.bytes, itemOutput, ManifestPayload.text, Json.size_object,
      List.map_cons, List.map_nil, List.sum_cons, List.sum_nil, List.length_cons, List.length_nil, Json.size_quote]
    omega
  | @attachment _ _ _ key iv _ _ _ _ _ version hkey hiv hkeySize hivSize =>
    have hkey' := Json.escape_of_plain hkey
    have hiv' := Json.escape_of_plain hiv
    have hold := Json.size_le_escape key
    have hold' := Json.size_le_escape iv
    have hversion := Json.size_number_succ version
    simp only [StagedOutput.bytes, ManifestRecord.bytes, attachmentOutput, ManifestPayload.text, Json.size_object,
      List.map_cons, List.map_nil, List.sum_cons, List.sum_nil, List.length_cons, List.length_nil, Json.size_quote]
    omega

/-! ## Paging -/

/-- The records of a kind that a cursor leaves, in their order. -/
def RotationPlan.rowsAfter (plan : RotationPlan) (kind : ManifestKind) (cursor : Option String) : List ManifestRecord :=
  (plan.manifest.select fun m => m.kind = kind && (cursor.getD "" < m.entityId)).insertionSort
    fun a b => a.entityId ≤ b.entityId

/-- What a page has of a plan. It depends on the manifest alone, which never changes. -/
def preparationPage (plan : RotationPlan) (kind : ManifestKind) (cursor : Option String) (requestedLimit : Nat) :
    Except AppError PreparationPage := do
  let limit := max 1 (min requestedLimit MAX_PAGE_RECORDS)
  let rows := (plan.rowsAfter kind cursor).take (limit + 1)
  let records ← takePage ManifestPayload.text 0 (rows.take limit)
  return ⟨records, if records.length < rows.length then records.getLast?.map (·.entityId) else none⟩

theorem readPreparationPage_eq {db : Db} {now : Time} {planId userId : String} (kind : ManifestKind)
    (cursor : Option String) (requestedLimit : Nat) :
    readPreparationPage ManifestPayload.text db now planId userId kind cursor requestedLimit = (do
      let plan ← loadActivePlan db now planId userId
      let page ← preparationPage plan kind cursor requestedLimit
      return (updatePlanRow db planId (RotationPlan.refreshIdle now), page)) := by
  unfold readPreparationPage preparationPage
  cases loadActivePlan db now planId userId with
  | error e => rfl
  | ok plan =>
    simp only [RotationPlan.rowsAfter, bind, Except.bind, pure, Except.pure]
    split <;> rfl

/-- A cursor that the paging comes to, from the first page on. -/
inductive ReachedCursor (plan : RotationPlan) (kind : ManifestKind) (requestedLimit : Nat) : Option String → Prop
  | start : ReachedCursor plan kind requestedLimit none
  | next {cursor : Option String} {page : PreparationPage} {c : String} : ReachedCursor plan kind requestedLimit cursor →
    preparationPage plan kind cursor requestedLimit = .ok page → page.nextCursor = some c →
    ReachedCursor plan kind requestedLimit (some c)

/-- The paging comes to the record. -/
def RotationPlan.Returns (plan : RotationPlan) (requestedLimit : Nat) (m : ManifestRecord) : Prop :=
  ∃ cursor page, ReachedCursor plan m.kind requestedLimit cursor ∧
    preparationPage plan m.kind cursor requestedLimit = .ok page ∧ m ∈ page.records

/-- The output can be staged, unless another one has been. -/
def RotationPlan.Stageable (plan : RotationPlan) (kind : ManifestKind) (o : StagedOutput) : Prop :=
  (stageRequest o).utf8ByteSize ≤ ORDINARY_API_BODY_LIMIT_BYTES ∧
    ∀ db now userId, loadActivePlan db now plan.id userId = .ok plan →
      (∀ s, plan.staged.get? (kind, o.id) = some s → s.payload = o.payload) →
      ∃ db', stageOutputs db now plan.id userId kind [o] = .ok db'

/-! ### One page -/

theorem takePage_cons {bytes : Nat} {m : ManifestRecord} {rest : List ManifestRecord} :
    takePage ManifestPayload.text bytes (m :: rest) =
      if bytes ≠ 0 && MAX_PAGE_BYTES < bytes + m.bytes then .ok []
      else if MAX_PAGE_BYTES < m.bytes then .error (.payloadTooLarge "Rotation record exceeds page limit")
      else (takePage ManifestPayload.text (bytes + m.bytes) rest).map (m :: ·) := by
  rw [takePage]
  simp only
  by_cases hfull : (bytes ≠ 0 && decide (MAX_PAGE_BYTES < bytes + m.bytes)) = true
  · rw [if_pos hfull]
    exact if_pos hfull
  · rw [if_neg hfull]
    refine (if_neg hfull).trans ?_
    by_cases hlarge : MAX_PAGE_BYTES < m.bytes
    · rw [if_pos hlarge]
      exact if_pos hlarge
    · rw [if_neg hlarge]
      refine (if_neg hlarge).trans ?_
      change (takePage ManifestPayload.text (bytes + m.bytes) rest >>= fun records => pure (m :: records)) = _
      cases takePage ManifestPayload.text (bytes + m.bytes) rest <;> rfl

theorem takePage_ok {bytes : Nat} {rows records : List ManifestRecord}
    (h : takePage ManifestPayload.text bytes rows = .ok records) :
    records <+: rows ∧ ∀ m ∈ records, m.bytes ≤ MAX_PAGE_BYTES := by
  induction rows generalizing bytes records with
  | nil =>
    cases h
    exact ⟨List.prefix_rfl, fun m hm => by cases hm⟩
  | cons m rows ih =>
    rw [takePage_cons] at h
    split at h
    · cases h
      exact ⟨List.nil_prefix, fun m hm => by cases hm⟩
    · split at h
      · cases h
      · next hfits =>
        obtain ⟨rest, hrest, rfl⟩ := Except.map_ok_iff.mp h
        obtain ⟨hstarts, hsmall⟩ := ih hrest
        refine ⟨(List.prefix_cons_inj m).mpr hstarts, fun x hx => ?_⟩
        rcases List.mem_cons.mp hx with rfl | hx
        · exact Nat.le_of_not_lt hfits
        · exact hsmall x hx

/-- Records that fit make a page, and the first one is always on it. -/
theorem takePage_of_fits {bytes : Nat} {rows : List ManifestRecord} (h : ∀ m ∈ rows, m.bytes ≤ MAX_PAGE_BYTES) :
    ∃ records, takePage ManifestPayload.text bytes rows = .ok records ∧ (bytes = 0 → rows ≠ [] → records ≠ []) := by
  induction rows generalizing bytes with
  | nil => exact ⟨[], rfl, fun _ hne => absurd rfl hne⟩
  | cons m rows ih =>
    obtain ⟨records, hrecords, -⟩ := @ih (bytes + m.bytes) fun x hx => h x (List.mem_cons_of_mem m hx)
    rw [takePage_cons]
    by_cases hfull : (bytes ≠ 0 && decide (MAX_PAGE_BYTES < bytes + m.bytes)) = true
    · rw [if_pos hfull]
      refine ⟨[], rfl, fun hzero => ?_⟩
      rw [hzero] at hfull
      simp at hfull
    · have hfits : ¬ MAX_PAGE_BYTES < m.bytes := Nat.not_lt.mpr (h m List.mem_cons_self)
      rw [if_neg hfull, if_neg hfits, hrecords]
      exact ⟨m :: records, rfl, fun _ _ => List.cons_ne_nil m records⟩

/-! ### All pages -/

variable {plan : RotationPlan} {kind : ManifestKind} {cursor : Option String} {L : Nat}

theorem mem_rowsAfter : m ∈ plan.rowsAfter kind cursor ↔
    m ∈ plan.manifest ∧ m.kind = kind ∧ cursor.getD "" < m.entityId := by
  simp [RotationPlan.rowsAfter, List.mem_insertionSort, Table.mem_select]

theorem preparationPage_ok {page : PreparationPage} (h : preparationPage plan kind cursor L = .ok page) :
    page.records <+: plan.rowsAfter kind cursor ∧ ∀ m ∈ page.records, m.bytes ≤ MAX_PAGE_BYTES := by
  unfold preparationPage at h
  simp only [Except.bind_ok_iff, Except.pure_ok_iff] at h
  obtain ⟨records, hrecords, rfl⟩ := h
  obtain ⟨hstarts, hsmall⟩ := takePage_ok hrecords
  exact ⟨hstarts.trans ((List.take_prefix _ _).trans (List.take_prefix _ _)), hsmall⟩

/-- A page of small records: the beginning of what is left, and where to go on when that is not all. -/
theorem preparationPage_of_fits (hfits : ∀ m ∈ plan.manifest, m.kind = kind → m.bytes ≤ MAX_PAGE_BYTES)
    (hne : plan.rowsAfter kind cursor ≠ []) :
    ∃ page last, preparationPage plan kind cursor L = .ok page ∧ page.records <+: plan.rowsAfter kind cursor ∧
      page.records.getLast? = some last ∧
      (page.records = plan.rowsAfter kind cursor ∨ page.nextCursor = some last.entityId) := by
  let limit := max 1 (min L MAX_PAGE_RECORDS)
  let rows := (plan.rowsAfter kind cursor).take (limit + 1)
  have hlimit : 0 < limit := Nat.lt_of_lt_of_le Nat.one_pos (Nat.le_max_left _ _)
  have hsmall : ∀ m ∈ rows.take limit, m.bytes ≤ MAX_PAGE_BYTES := fun m hm => by
    obtain ⟨hmem, hkind, -⟩ := mem_rowsAfter.mp (List.mem_of_mem_take (List.mem_of_mem_take hm))
    exact hfits m hmem hkind
  obtain ⟨records, hrecords, hsome⟩ := @takePage_of_fits 0 _ hsmall
  have hrows : rows.take limit ≠ [] := by
    simp only [rows, ne_eq, List.take_eq_nil_iff, not_or]
    exact ⟨Nat.ne_of_gt hlimit, Nat.succ_ne_zero _, hne⟩
  have hstarts := (takePage_ok hrecords).1
  have hlast : records.getLast? = some (records.getLast (hsome rfl hrows)) := List.getLast?_eq_some_getLast _
  refine ⟨⟨records, if records.length < rows.length then records.getLast?.map (·.entityId) else none⟩, _, ?_, (hstarts.trans (List.take_prefix _ _)).trans (List.take_prefix _ _), hlast, ?_⟩
  · show (takePage ManifestPayload.text 0 (rows.take limit) >>= _) = _
    rw [hrecords]
    rfl
  · by_cases hall : records.length < rows.length
    · right
      simp only [if_pos hall, hlast, Option.map_some]
    · left
      have hle : records.length ≤ min limit rows.length := List.length_take ▸ hstarts.length_le
      have hlen : rows.length = min (limit + 1) (plan.rowsAfter kind cursor).length := List.length_take
      have hstarts' := (hstarts.trans (List.take_prefix _ _)).trans (List.take_prefix _ _)
      exact hstarts'.eq_of_length_le (by omega)

/-- What is not on a page comes after its last record. -/
theorem lt_of_notMem_prefix {records : List ManifestRecord} {last : ManifestRecord}
    (hstarts : records <+: plan.rowsAfter kind cursor) (hlast : records.getLast? = some last)
    (hm : m ∈ plan.rowsAfter kind cursor) (hout : m ∉ records) : last.entityId < m.entityId := by
  obtain ⟨rest, hrest⟩ := hstarts
  have hmemlast : last ∈ records := List.mem_of_getLast? hlast
  have hmrest : m ∈ rest := by
    rw [← hrest, List.mem_append] at hm
    exact hm.resolve_left hout
  have hsorted : (plan.rowsAfter kind cursor).Pairwise fun a b => a.entityId ≤ b.entityId :=
    List.pairwise_insertionSort _ _
  rw [← hrest] at hsorted
  have hle := (List.pairwise_append.mp hsorted).2.2 last hmemlast m hmrest
  refine lt_of_le_of_ne hle fun heq => ?_
  obtain ⟨hlastmem, hlastkind, -⟩ := mem_rowsAfter.mp (hrest ▸ List.mem_append_left rest hmemlast)
  obtain ⟨hmmem, hmkind, -⟩ := mem_rowsAfter.mp hm
  have hkey : last.key = m.key := Prod.ext (hlastkind.trans hmkind.symm) heq
  exact hout (Table.eq_of_key_eq hlastmem hmmem hkey ▸ hmemlast)

/-- Each cursor leaves fewer records than the one before it. -/
theorem rowsAfter_shrinks {last : ManifestRecord} (hlast : last ∈ plan.rowsAfter kind cursor) :
    (plan.rowsAfter kind (some last.entityId)).length < (plan.rowsAfter kind cursor).length := by
  obtain ⟨hmem, hkind, hafter⟩ := mem_rowsAfter.mp hlast
  have hfilter : (plan.rowsAfter kind (some last.entityId)).length =
      ((plan.rowsAfter kind cursor).filter fun m => last.entityId < m.entityId).length := by
    rw [RotationPlan.rowsAfter, List.length_insertionSort, RotationPlan.rowsAfter,
      ((List.perm_insertionSort _ _).filter _).length_eq]
    simp only [Table.select, List.filter_filter]
    refine congrArg List.length (List.filter_congr fun m _ => ?_)
    by_cases hlt : last.entityId < m.entityId
    · simp [hlt, hafter.trans hlt]
    · simp [hlt]
  rw [hfilter, List.length_filter_lt_length_iff_exists]
  exact ⟨last, hlast, by simp⟩

/-- **The paging comes to every record** of a kind when all of them fit into a page. -/
theorem returns_of_fits (hfits : ∀ m ∈ plan.manifest, m.kind = kind → m.bytes ≤ MAX_PAGE_BYTES)
    (hreached : ReachedCursor plan kind L cursor) (hm : m ∈ plan.rowsAfter kind cursor) : plan.Returns L m := by
  -- By what the cursor leaves.
  induction hn : (plan.rowsAfter kind cursor).length using Nat.strong_induction_on generalizing cursor with
  | _ n ih =>
    subst hn
    obtain ⟨page, last, hpage, hstarts, hlast, hnext⟩ :=
      @preparationPage_of_fits plan kind cursor L hfits (List.ne_nil_of_mem hm)
    obtain ⟨hmem, hkind, -⟩ := mem_rowsAfter.mp hm
    by_cases hin : m ∈ page.records
    · exact ⟨cursor, page, hkind ▸ hreached, hkind ▸ hpage, hin⟩
    · have hnext' : page.nextCursor = some last.entityId :=
        hnext.resolve_left fun hall => hin (hall ▸ hm)
      have hlater := lt_of_notMem_prefix hstarts hlast hm hin
      exact ih _ (rowsAfter_shrinks (hstarts.subset (List.mem_of_getLast? hlast))) (.next hreached hpage hnext')
        (mem_rowsAfter.mpr ⟨hmem, hkind, hlater⟩) rfl

/-! ### Staging -/

theorem Reencrypts.valid (h : Reencrypts m o) : o.payload.valid m.kind = true := by
  cases h with
  | item _ _ _ _ hdata hiv halgorithm =>
    simp [ManifestRecord.kind, StagedPayload.valid, ManifestKind.required, StagedPayload.field, itemOutput, List.lookup_cons,
      hdata, hiv, halgorithm]
  | attachment _ _ _ _ hkey hiv halgorithm =>
    simp [ManifestRecord.kind, StagedPayload.valid, ManifestKind.required, StagedPayload.field, attachmentOutput,
      List.lookup_cons, hkey, hiv, halgorithm]

theorem stageOutput_of_fits (hm : m ∈ plan.manifest) (h : Reencrypts m o) (hfits : m.bytes ≤ MAX_PAGE_BYTES)
    (hsame : ∀ s, plan.staged.get? (m.kind, o.id) = some s → s.payload = o.payload) :
    ∃ staged, stageOutput plan m.kind o = .ok staged := by
  have hbytes := Nat.le_trans h.bytes_le hfits
  have htext : ¬ MAX_PAGE_BYTES < o.payload.text.utf8ByteSize := by
    unfold StagedOutput.bytes at hbytes
    omega
  have hget : plan.manifest.get? (m.kind, o.id) = some m := by
    rw [h.id]
    exact Table.get?_key hm
  unfold stageOutput
  rw [if_neg htext, if_neg (by simp [hget]), dif_pos h.valid]
  split
  · exact ⟨_, rfl⟩
  · next hnone =>
    obtain ⟨s, hs, hkey⟩ := Table.insert_eq_none.mp hnone
    have hs' : plan.staged.get? (m.kind, o.id) = some s := Table.get?_eq_some.mpr ⟨hs, hkey⟩
    rw [if_pos (by simp [hs', hsame s hs'])]
    exact ⟨plan, rfl⟩

theorem stageOutputs_of_fits {db : Db} {now : Time} {userId : String} (hm : m ∈ plan.manifest) (h : Reencrypts m o)
    (hfits : m.bytes ≤ MAX_PAGE_BYTES) (hload : loadActivePlan db now plan.id userId = .ok plan)
    (hsame : ∀ s, plan.staged.get? (m.kind, o.id) = some s → s.payload = o.payload) :
    ∃ db', stageOutputs db now plan.id userId m.kind [o] = .ok db' := by
  obtain ⟨staged, hstaged⟩ := stageOutput_of_fits hm h hfits hsame
  have hpage : ¬ MAX_PAGE_BYTES < ([o].map fun o => o.id.utf8ByteSize + o.payload.text.utf8ByteSize + 16).sum := by
    have hbytes := Nat.le_trans h.bytes_le hfits
    unfold StagedOutput.bytes at hbytes
    simpa using hbytes
  unfold stageOutputs
  rw [if_neg (by simp [MAX_PAGE_RECORDS]), hload]
  simp only [bind, Except.bind]
  rw [if_neg hpage]
  simp only [List.foldlM_cons, List.foldlM_nil, hstaged]
  exact ⟨_, rfl⟩

/-! ## What can be rotated -/

theorem empty_le (s : String) : "" ≤ s :=
  not_lt.mp fun h => List.not_lt_nil _ (String.lt_iff_toList_lt.mp h)

/-- **Which records a rotation gets past.** The paging comes to every record of a plan, and whatever a record
becomes can be staged, exactly when each record has an id, fits into a page, and its output into a request. -/
theorem rotatable_iff (plan : RotationPlan) (requestedLimit : Nat) :
    (∀ m ∈ plan.manifest, plan.Returns requestedLimit m ∧ ∀ o, Reencrypts m o → plan.Stageable m.kind o) ↔
      ∀ m ∈ plan.manifest, m.entityId ≠ "" ∧ m.bytes ≤ MAX_PAGE_BYTES ∧
        ∀ o, Reencrypts m o → (stageRequest o).utf8ByteSize ≤ ORDINARY_API_BODY_LIMIT_BYTES := by
  constructor
  · intro h m hm
    obtain ⟨⟨cursor, page, -, hpage, hin⟩, hstage⟩ := h m hm
    obtain ⟨hstarts, hsmall⟩ := preparationPage_ok hpage
    have hafter := (mem_rowsAfter.mp (hstarts.subset hin)).2.2
    refine ⟨fun hempty => ?_, hsmall m hin, fun o ho => (hstage o ho).1⟩
    rw [hempty] at hafter
    exact lt_irrefl _ (lt_of_le_of_lt (empty_le _) hafter)
  · intro h m hm
    obtain ⟨hid, hfits, hrequest⟩ := h m hm
    have hrow : m ∈ plan.rowsAfter m.kind none := mem_rowsAfter.mpr ⟨hm, rfl, lt_of_le_of_ne (empty_le _) (Ne.symm hid)⟩
    exact ⟨returns_of_fits (fun x hx _ => (h x hx).2.1) .start hrow, fun o ho =>
      ⟨hrequest o ho, fun db now userId hload hsame => stageOutputs_of_fits hm ho hfits hload hsame⟩⟩

/-! ### A large item -/

def ciphertextOf (n : Nat) : String := String.ofList (List.replicate n 'A')

theorem size_ciphertextOf (n : Nat) : (ciphertextOf n).utf8ByteSize = n := by
  have hsize : ('A' : Char).utf8Size = 1 := rfl
  rw [ciphertextOf, Json.size_eq_sum, String.toList_ofList, List.map_replicate, List.sum_replicate, hsize]
  exact Nat.mul_one n

/-- A vault that Ann shares with Bob. -/
theorem members_ids : ["ann", "bob"].Nodup := by decide

theorem team_ids : ["team"].Nodup := List.nodup_singleton _

theorem vault_ids : ["v"].Nodup := List.nodup_singleton _

theorem keys_ids : ["k1", "k2"].Nodup := by decide

def vaultOfAnn : Db :=
  { Db.empty with
    users := ⟨[⟨"ann", "Ann", "pk-ann", some "team", .owner⟩, ⟨"bob", "Bob", "pk-bob", some "team", .member⟩], members_ids⟩
    teams := ⟨[⟨"team", "Team", "ann", .family, .family, .active⟩], team_ids⟩
    vaults := ⟨[{ id := "v", name := "Shared", type := .team, createdById := "ann", teamId := some "team" }], vault_ids⟩
    vaultKeys := ⟨[⟨"k1", "v", "ann", "key", .owner⟩, ⟨"k2", "v", "bob", "key", .member⟩], keys_ids⟩ }

def itemOfAnn (data : String) : CreateItemInput :=
  { itemId := "item", vaultId := "v", category := .login, encryptedData := data, encryptionIv := "iv",
    encryptionAlgorithm := "aes-256-gcm", clientId := none }

/-- Whatever Ann stores is in the manifest when she removes Bob. -/
theorem stored_in_manifest (data : String) : ∃ db db', createVaultItem vaultOfAnn vaultOfAnn "ann" (itemOfAnn data) = .ok db ∧
    createRemovalPlan .selfHosted db (.still db) 0 "plan" "ann" "v" "bob" = .ok db' ∧
    ∃ plan ∈ db'.plans, (⟨"item", 1, .item "item" "v" data "iv" "aes-256-gcm" 1 "ann"⟩ : ManifestRecord) ∈ plan.manifest := by
  refine ⟨_, _, rfl, rfl, _, List.mem_singleton_self _, ?_⟩
  show _ ∈ [_, _]
  exact List.mem_cons_of_mem _ (List.mem_singleton_self _)

/-- A record of an item whose ciphertext alone is larger than a page is on no page. -/
theorem not_returns_of_large {id vaultId data iv algorithm userId : String} {expectedVersion version : Nat}
    (hlarge : MAX_PAGE_BYTES < data.utf8ByteSize) :
    ¬ plan.Returns L ⟨id, expectedVersion, .item id vaultId data iv algorithm version userId⟩ := by
  rintro ⟨cursor, page, -, hpage, hin⟩
  have hsmall := (preparationPage_ok hpage).2 _ hin
  have hdata := Json.size_le_escape data
  simp only [ManifestRecord.bytes, ManifestPayload.text, Json.size_object, List.map_cons, List.sum_cons, Json.size_quote] at hsmall
  omega

theorem exists_ciphertext (n : Nat) : ∃ data : String, data.utf8ByteSize = n := ⟨_, size_ciphertextOf n⟩

/-- **A large item blocks the rotation.** It passes the check of its ciphertext, and no page ever returns it. -/
theorem large_item_not_returned : ∃ data db db', checkCiphertext data = .ok () ∧
    createVaultItem vaultOfAnn vaultOfAnn "ann" (itemOfAnn data) = .ok db ∧
    createRemovalPlan .selfHosted db (.still db) 0 "plan" "ann" "v" "bob" = .ok db' ∧
    ∃ plan ∈ db'.plans, ∃ m ∈ plan.manifest, ∀ requestedLimit, ¬ plan.Returns requestedLimit m := by
  obtain ⟨data, hsize⟩ := exists_ciphertext 600000
  obtain ⟨db, db', hcreate, hplan, plan, hmem, hm⟩ := stored_in_manifest data
  refine ⟨data, db, db', ?_, hcreate, hplan, plan, hmem, _, hm, fun requestedLimit => not_returns_of_large ?_⟩
  · unfold checkCiphertext
    rw [hsize, if_neg (by decide)]
  · rw [hsize]
    decide

end Bittery
