/-
Reading a whole manifest page by page (`read_preparation_page` of `rotation/plans.rs`).

A client reads a kind of record from the start and goes on with the cursor that each page returns.
Between two readings the database may change in any way, and every reading may ask for another
limit; the manifest of a plan stays as it is.
-/
import Bittery.Lib.Page
import Bittery.Server.Rotation.Sizes

namespace Bittery

open Lib Lib.Page

/-- What one reading finds and asks for. -/
structure Reading where
  db : Db
  now : Time
  requestedLimit : Nat

/-- The records of a kind, page after page by the returned cursor, and the error that the reading ends
with, if any; nothing when that many pages are not all. -/
def readPages (planId initiatorUserId : String) (kind : ManifestKind) (reading : Option String → Reading) (pages : Nat)
    (cursor : Option String) : Option (List ManifestRecord × Option AppError) :=
  follow (fun cursor =>
    (readPreparationPage ManifestPayload.text (reading cursor).db (reading cursor).now planId initiatorUserId kind cursor
      (reading cursor).requestedLimit).map fun r => (r.2.records, r.2.nextCursor)) pages cursor

/-- Whether a record fits into a page by itself. -/
def ManifestRecord.fits (m : ManifestRecord) : Bool := m.bytes ≤ MAX_PAGE_BYTES

variable {plan : RotationPlan} {kind : ManifestKind} {cursor : Option String} {limit bytes : Nat} {rows records : List ManifestRecord}
  {m : ManifestRecord}

/-! ## A page -/

/-- A page is refused only for its first record. -/
theorem takePage_error {e : AppError} (h : takePage ManifestPayload.text bytes rows = .error e) :
    bytes = 0 ∧ e = .payloadTooLarge "Rotation record exceeds page limit" ∧ ∃ m rest, rows = m :: rest ∧ m.fits = false := by
  induction rows generalizing bytes with
  | nil => cases h
  | cons m rows ih =>
    rw [takePage_cons] at h
    split at h
    · cases h
    · next hfull =>
      split at h
      · next hlarge =>
        obtain rfl := Except.error.inj h
        refine ⟨?_, rfl, m, rows, rfl, by simpa [ManifestRecord.fits] using hlarge⟩
        by_contra hzero
        exact hfull (by simp [hzero, Nat.lt_of_lt_of_le hlarge (Nat.le_add_left _ _)])
      · cases hrest : takePage ManifestPayload.text (bytes + m.bytes) rows with
        | ok rest => simp [hrest, Except.map] at h
        | error e' =>
          obtain rfl : e' = e := by simpa [hrest, Except.map] using h
          obtain ⟨hzero, -⟩ := ih hrest
          simp only [ManifestRecord.bytes] at hzero
          omega

/-- A page that is not refused has a record when there is one. -/
theorem takePage_ne_nil (h : takePage ManifestPayload.text 0 rows = .ok records) (hne : rows ≠ []) : records ≠ [] := by
  cases rows with
  | nil => exact absurd rfl hne
  | cons m rows =>
    rw [takePage_cons, if_neg (by simp)] at h
    split at h
    · cases h
    · obtain ⟨rest, -, rfl⟩ := Except.map_ok_iff.mp h
      exact List.cons_ne_nil m rest

/-- The records are in the order of their ids, which are all different. -/
theorem rowsAfter_pairwise (plan : RotationPlan) (kind : ManifestKind) (cursor : Option String) :
    (plan.rowsAfter kind cursor).Pairwise fun a b => a.entityId < b.entityId := by
  have hsorted : (plan.rowsAfter kind cursor).Pairwise fun a b => a.entityId ≤ b.entityId := List.pairwise_insertionSort _ _
  have hnodup : (plan.rowsAfter kind cursor).Nodup :=
    (List.perm_insertionSort _ _).nodup_iff.mpr ((List.Nodup.of_map _ plan.manifest.nodup).filter _)
  refine (hsorted.and hnodup).imp_of_mem fun {a b} ha hb hab => lt_of_le_of_ne hab.1 fun heq => ?_
  obtain ⟨hamem, hakind, -⟩ := mem_rowsAfter.mp ha
  obtain ⟨hbmem, hbkind, -⟩ := mem_rowsAfter.mp hb
  exact hab.2 (Table.eq_of_key_eq hamem hbmem (Prod.ext (hakind.trans hbkind.symm) heq))

/-- What the last record of a page leaves is the rest. -/
theorem rowsAfter_append {last : ManifestRecord} {rest : List ManifestRecord} (h : plan.rowsAfter kind cursor = records ++ rest)
    (hlast : records.getLast? = some last) : plan.rowsAfter kind (some last.entityId) = rest := by
  have hpairwise := rowsAfter_pairwise plan kind cursor
  have hlastmem : last ∈ records := List.mem_of_getLast? hlast
  obtain ⟨-, -, hlater⟩ := mem_rowsAfter.mp (h ▸ List.mem_append_left rest hlastmem : last ∈ plan.rowsAfter kind cursor)
  have hmem : ∀ m, m ∈ plan.rowsAfter kind (some last.entityId) ↔ m ∈ rest := by
    intro m
    constructor
    · intro hm
      obtain ⟨hin, hkind, hafter⟩ := mem_rowsAfter.mp hm
      have hm' : m ∈ plan.rowsAfter kind cursor := mem_rowsAfter.mpr ⟨hin, hkind, hlater.trans hafter⟩
      rw [h, List.mem_append] at hm'
      refine hm'.resolve_left fun hpage => ?_
      obtain ⟨init, rfl⟩ := List.getLast?_eq_some_iff.mp hlast
      rcases List.mem_append.mp hpage with hinit | hself
      · rw [h] at hpairwise
        have := (List.pairwise_append.mp (List.pairwise_append.mp hpairwise).1).2.2 m hinit last (List.mem_singleton_self last)
        exact lt_asymm this hafter
      · rw [List.mem_singleton.mp hself] at hafter
        exact lt_irrefl _ hafter
    · intro hm
      have hm' : m ∈ plan.rowsAfter kind cursor := h ▸ List.mem_append_right records hm
      obtain ⟨hin, hkind, -⟩ := mem_rowsAfter.mp hm'
      rw [h] at hpairwise
      exact mem_rowsAfter.mpr ⟨hin, hkind, (List.pairwise_append.mp hpairwise).2.2 last hlastmem m hm⟩
  have hrest : rest.Pairwise fun a b => a.entityId < b.entityId := by
    rw [h] at hpairwise
    exact (List.pairwise_append.mp hpairwise).2.1
  -- Two strictly ordered lists with the same elements are the same.
  have hnodup : ∀ {l : List ManifestRecord}, l.Pairwise (fun a b => a.entityId < b.entityId) → l.Nodup :=
    fun h => List.Pairwise.imp (fun {a b} (hab : a.entityId < b.entityId) (heq : a = b) => lt_irrefl _ (heq ▸ hab)) h
  refine List.Perm.eq_of_pairwise (fun a b _ _ hab hba => absurd hab (lt_asymm hba)) (rowsAfter_pairwise plan kind _) hrest
    ((List.perm_ext_iff_of_nodup (hnodup (rowsAfter_pairwise plan kind _)) (hnodup hrest)).mpr hmem)

/-- **A page and its cursor**, for any limit. -/
theorem preparationPage_continues (plan : RotationPlan) (kind : ManifestKind) (cursor : Option String) (requestedLimit : Nat) :
    (∃ page, preparationPage plan kind cursor requestedLimit = .ok page ∧ (∀ m ∈ page.records, m.fits = true) ∧
      (page.nextCursor = none ∧ page.records = plan.rowsAfter kind cursor ∨
        ∃ next, page.nextCursor = some next ∧ page.records ≠ [] ∧
          plan.rowsAfter kind cursor = page.records ++ plan.rowsAfter kind (some next))) ∨
    ∃ m rest, preparationPage plan kind cursor requestedLimit = .error (.payloadTooLarge "Rotation record exceeds page limit") ∧
      plan.rowsAfter kind cursor = m :: rest ∧ m.fits = false := by
  have hlimit : 0 < max 1 (min requestedLimit MAX_PAGE_RECORDS) := Nat.lt_of_lt_of_le Nat.one_pos (Nat.le_max_left _ _)
  unfold preparationPage
  simp only
  generalize max 1 (min requestedLimit MAX_PAGE_RECORDS) = limit at hlimit
  have htake : ((plan.rowsAfter kind cursor).take (limit + 1)).take limit = (plan.rowsAfter kind cursor).take limit := by
    rw [List.take_take, Nat.min_eq_left (Nat.le_succ limit)]
  rw [htake]
  cases hpage : takePage ManifestPayload.text 0 ((plan.rowsAfter kind cursor).take limit) with
  | error e =>
    right
    obtain ⟨-, rfl, m, rest, hrows, hlarge⟩ := takePage_error hpage
    obtain ⟨rest', hrest⟩ := List.take_prefix limit (plan.rowsAfter kind cursor)
    exact ⟨m, rest ++ rest', rfl, by rw [← hrest, hrows, List.cons_append], hlarge⟩
  | ok records =>
    left
    obtain ⟨hstarts, hsmall⟩ := takePage_ok hpage
    refine ⟨_, rfl, fun m hm => decide_eq_true (hsmall m hm), ?_⟩
    obtain ⟨rest, hrest⟩ := hstarts.trans (List.take_prefix _ _)
    by_cases hmore : records.length < ((plan.rowsAfter kind cursor).take (limit + 1)).length
    · right
      have hne : records ≠ [] := by
        refine takePage_ne_nil hpage fun hnil => ?_
        rw [List.take_eq_nil_iff] at hnil
        rcases hnil with hzero | hnil
        · omega
        · rw [hnil] at hmore
          exact Nat.not_lt_zero _ hmore
      have hlast : records.getLast? = some (records.getLast hne) := List.getLast?_eq_some_getLast _
      refine ⟨(records.getLast hne).entityId, by simp only [if_pos hmore, hlast, Option.map_some], hne, ?_⟩
      rw [rowsAfter_append hrest.symm hlast, hrest]
    · left
      have hle : records.length ≤ limit := Nat.le_trans hstarts.length_le (List.length_take_le _ _)
      rw [List.length_take] at hmore
      have hlength := congrArg List.length hrest
      rw [List.length_append] at hlength
      refine ⟨if_neg (by rw [List.length_take]; exact hmore), ?_⟩
      have hnil : rest = [] := List.length_eq_zero_iff.mp (by omega)
      rw [← hrest, hnil, List.append_nil]

/-! ## All pages -/

/-- What a reading returns depends on the manifest alone. -/
theorem rowsAfter_of_manifest {plan' : RotationPlan} (h : plan'.manifest = plan.manifest) :
    plan'.rowsAfter kind cursor = plan.rowsAfter kind cursor := by
  rw [RotationPlan.rowsAfter, RotationPlan.rowsAfter, h]

/-- **Reading a manifest page by page** returns the records of the kind in the order of their ids, each
once, up to the first that is larger than a page; it ends there with an error, and otherwise with the
last record. -/
theorem readPages_eq (plan : RotationPlan) (planId initiatorUserId : String) (kind : ManifestKind) (reading : Option String → Reading)
    (hactive : ∀ cursor, ∃ p, loadActivePlan (reading cursor).db (reading cursor).now planId initiatorUserId = .ok p ∧
      p.manifest = plan.manifest) :
    ((plan.rowsAfter kind none).Pairwise fun a b => a.entityId < b.entityId) ∧
      (∀ m, m ∈ plan.rowsAfter kind none ↔ m ∈ plan.manifest ∧ m.kind = kind ∧ m.entityId ≠ "") ∧
      ∀ pages, (plan.rowsAfter kind none).length < pages → readPages planId initiatorUserId kind reading pages none =
        some ((plan.rowsAfter kind none).takeWhile ManifestRecord.fits,
          if (plan.rowsAfter kind none).all ManifestRecord.fits then none
          else some (.payloadTooLarge "Rotation record exceeds page limit")) := by
  refine ⟨rowsAfter_pairwise plan kind none, fun m => ?_, fun pages hpages => ?_⟩
  · rw [mem_rowsAfter]
    exact and_congr_right fun _ => and_congr_right fun _ =>
      ⟨fun h => ne_of_gt h, fun h => lt_of_le_of_ne (empty_le _) (Ne.symm h)⟩
  · refine @follow_eq _ _ _ _ (fun _ => True) (plan.rowsAfter kind) ManifestRecord.fits _ (fun cursor _ => ?_) _ none trivial hpages
    obtain ⟨p, hload, hmanifest⟩ := hactive cursor
    have hrows := fun cursor => @rowsAfter_of_manifest plan kind cursor p hmanifest
    simp only [Page.Continues, readPreparationPage_eq, hload, bind, Except.bind]
    rcases preparationPage_continues p kind cursor (reading cursor).requestedLimit with
      ⟨page, hpage, hfits, ⟨hnext, hall⟩ | ⟨next, hnext, hne, happend⟩⟩ | ⟨m, rest, hpage, hcons, hlarge⟩
    · left
      rw [hrows] at hall
      rw [hpage]
      exact ⟨by simp only [pure, Except.pure, Except.map, hnext, hall], hall ▸ hfits⟩
    · right; left
      rw [hrows, hrows] at happend
      rw [hpage]
      exact ⟨page.records, next, by simp only [pure, Except.pure, Except.map, hnext], hne, hfits, trivial, happend⟩
    · right; right
      rw [hrows] at hcons
      rw [hpage]
      exact ⟨m, rest, rfl, hcons, hlarge⟩

/-- The manifest with an item of Ann's, who removes Bob. -/
theorem manifest_of_stored (data : String) : ∃ db db' plan, createVaultItem vaultOfAnn vaultOfAnn "ann" (itemOfAnn data) = .ok db ∧
    createRemovalPlan .selfHosted db (.still db) 0 "plan" "ann" "v" "bob" = .ok db' ∧
    loadActivePlan db' 0 "plan" "ann" = .ok plan ∧
    plan.rowsAfter .item none = [⟨"item", 1, .item "item" "v" data "iv" "aes-256-gcm" 1 "ann"⟩] := by
  refine ⟨_, _, _, rfl, rfl, rfl, ?_⟩
  have hafter : "" < "item" := by decide
  show List.insertionSort _ (List.filter (fun m : ManifestRecord => decide (m.kind = .item) && decide ("" < m.entityId))
    [⟨"ann", 1, .member "ann" "pk-ann" .owner⟩, ⟨"item", 1, .item "item" "v" data "iv" "aes-256-gcm" 1 "ann"⟩]) = _
  rw [List.filter_cons_of_neg (by simp [ManifestRecord.kind]), List.filter_cons_of_pos (by simp [ManifestRecord.kind, hafter])]
  rfl

/-- A small item is read in one page. -/
theorem readPages_eq_small : ∃ db plan, loadActivePlan db 0 "plan" "ann" = .ok plan ∧
    readPages "plan" "ann" .item (fun _ => ⟨db, 0, 100⟩) 2 none = some (plan.rowsAfter .item none, none) := by
  obtain ⟨-, db, plan, -, -, hload, hrows⟩ := manifest_of_stored "data"
  refine ⟨db, plan, hload, ?_⟩
  rw [(readPages_eq plan "plan" "ann" .item (fun _ => ⟨db, 0, 100⟩) fun _ => ⟨plan, hload, rfl⟩).2.2 2 (by rw [hrows]; decide), hrows]
  decide +kernel

/-- **A record that is larger than a page is never read**: the reading ends at it. -/
theorem large_record_not_read : ∃ data db db' plan, checkCiphertext data = .ok () ∧
    createVaultItem vaultOfAnn vaultOfAnn "ann" (itemOfAnn data) = .ok db ∧
    createRemovalPlan .selfHosted db (.still db) 0 "plan" "ann" "v" "bob" = .ok db' ∧
    loadActivePlan db' 0 "plan" "ann" = .ok plan ∧ (∃ m ∈ plan.manifest, m.kind = .item) ∧
    ∀ requestedLimit pages, readPages "plan" "ann" .item (fun _ => ⟨db', 0, requestedLimit⟩) (pages + 1) none =
      some ([], some (.payloadTooLarge "Rotation record exceeds page limit")) := by
  obtain ⟨data, hsize⟩ := exists_ciphertext 600000
  obtain ⟨db, db', plan, hcreate, hplan, hload, hrows⟩ := manifest_of_stored data
  have hlarge : (⟨"item", 1, .item "item" "v" data "iv" "aes-256-gcm" 1 "ann"⟩ : ManifestRecord).fits = false := by
    have hdata := Json.size_le_escape data
    rw [ManifestRecord.fits, decide_eq_false_iff_not]
    simp only [ManifestRecord.bytes, ManifestPayload.text, Json.size_object, List.map_cons, List.sum_cons, Json.size_quote]
    have hmax : MAX_PAGE_BYTES = 524288 := rfl
    omega
  refine ⟨data, db, db', plan, ?_, hcreate, hplan, hload, ⟨⟨"item", 1, .item "item" "v" data "iv" "aes-256-gcm" 1 "ann"⟩,
    (mem_rowsAfter.mp (hrows ▸ List.mem_singleton_self _)).1, rfl⟩, fun requestedLimit pages => ?_⟩
  · unfold checkCiphertext
    rw [hsize, if_neg (by decide)]
  · have hpage : preparationPage plan .item none requestedLimit = .error (.payloadTooLarge "Rotation record exceeds page limit") := by
      rcases preparationPage_continues plan .item none requestedLimit with
        ⟨page, -, hfits, ⟨-, hall⟩ | ⟨next, -, hne, happend⟩⟩ | ⟨m, rest, hpage, -, -⟩
      · have := hfits _ (by rw [hall, hrows]; exact List.mem_singleton_self _)
        rw [hlarge] at this
        cases this
      · obtain ⟨m, hm⟩ := List.exists_mem_of_ne_nil _ hne
        have hmem : m ∈ plan.rowsAfter .item none := happend ▸ List.mem_append_left _ hm
        rw [hrows, List.mem_singleton] at hmem
        have := hfits m hm
        rw [hmem, hlarge] at this
        cases this
      · exact hpage
    simp only [readPages, follow, readPreparationPage_eq, hload, hpage, bind, Except.bind, Except.map]

end Bittery
