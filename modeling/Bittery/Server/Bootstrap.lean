/-
The bootstrap of a client: the pages of `GET /sync/bootstrap` (`domains/sync/mod.rs`,
`domains/sync/records.rs`, `domains/sync/http.rs`), and the client that follows them.

The database stays as it is meanwhile. Of an item of the response, its attachments and the
summary of its vault only count through its size.

The cursor of a page is the id of its last item, and the next request refuses a cursor that
is no resource id. No id of an item is checked when the item is created.
-/
import Mathlib.Data.String.Basic
import Bittery.Lib.Except
import Bittery.Server.Items
import Bittery.Server.Sync

namespace Bittery

open Lib

def DEFAULT_BOOTSTRAP_LIMIT : Nat := 500

def MAX_PAGE_SIZE : Nat := 500

/-- `validate_resource_id`. A UUID, which the pattern has as a case of its own, is such a text. -/
def validResourceId (value : String) : Bool :=
  decide (10 ≤ value.length ∧ value.length ≤ 64) &&
    value.toList.all fun c => c.isAlphanum || c = '_' || c = '-'

structure BootstrapItemsInput where
  cursor : Option String
  syncCursor : Option Nat
  syncCursorCaptured : Bool
  limit : Option Nat
deriving DecidableEq, Repr

structure BootstrapItemsResponse where
  items : List Item
  nextCursor : Option String
  syncCursor : Option Nat
  hasMore : Bool
deriving DecidableEq, Repr

/-- The items of the vaults a user holds a key of, in the order of their ids. -/
def accessibleItems (db : Db) (userId : String) : List Item :=
  (db.items.select fun i => db.holdsKey userId i.vaultId).mergeSort fun a b => a.id ≤ b.id

/-- The rows of a page, and whether the bytes left some out: one row over the limit is asked for. -/
def fetchBootstrapItems (sizes : Sizes Item) (db : Db) (userId : String) (cursor : Option String) (limit : Nat) :
    Except AppError (List Item × Bool) :=
  let candidates := (Page.after Item.id cursor (accessibleItems db userId)).take (limit + 1)
  if candidates.head?.any fun first => BOOTSTRAP_QUERY_BYTES < sizes.estimated first then
    .error (.payloadTooLarge "A single bootstrap item exceeds the response page byte budget.")
  else
    let rows := Page.withinBudget sizes.estimated BOOTSTRAP_QUERY_BYTES candidates
    .ok (rows, rows.length < candidates.length)

/-- The cursor into the events that the pages are captured at: the one given, when it is
still there, or the latest when none was captured yet. -/
def bootstrapSyncCursor (db : Db) (userId : String) (input : BootstrapItemsInput) : Except AppError (Option Nat) :=
  match input.syncCursor with
  | some syncCursor =>
    match fetchVisibleCursorEvent db userId (fetchUserVaultIds db userId) syncCursor with
    | some e => .ok (some e.seq)
    | none => .error (.badRequest "Invalid params")
  | none =>
    if input.syncCursorCaptured then .ok none
    else .ok (fetchLatestVisibleEventId db userId (fetchUserVaultIds db userId))

/-- The items of a page and whether there are more, from the rows that were fetched. -/
def limitRows (limit : Nat) (fetched : List Item × Bool) : List Item × Bool :=
  let hasMore := fetched.2 || decide (limit < fetched.1.length)
  (if hasMore then fetched.1.take limit else fetched.1, hasMore)

def bootstrapItems (sizes : Sizes Item) (db : Db) (userId : String) (input : BootstrapItemsInput) :
    Except AppError BootstrapItemsResponse := do
  if input.cursor.any fun cursor => !validResourceId cursor then throw (.badRequest "Invalid resource ID")
  let limit := input.limit.getD DEFAULT_BOOTSTRAP_LIMIT
  if ¬ (1 ≤ limit ∧ limit ≤ 1000) then throw (.badRequest "Invalid params")
  let syncCursor ← bootstrapSyncCursor db userId input
  let fetched ← fetchBootstrapItems sizes db userId input.cursor limit
  let page := limitRows limit fetched
  return ⟨page.1, if page.2 then page.1.getLast?.map (·.id) else none, syncCursor, page.2⟩

/-- What the handler makes of a page: it is cut once more, to what fits the response. -/
def truncateItems (sizes : Sizes Item) (response : BootstrapItemsResponse) : Except ApiError BootstrapItemsResponse :=
  match Page.truncateSerialized sizes.serialized RESPONSE_PAGE_ITEMS_BYTES response.items with
  | none => .error (.payloadTooLarge "A single response item exceeds the page byte budget.")
  | some (items, truncated) =>
    if truncated then .ok { response with items := items, hasMore := true, nextCursor := items.getLast?.map (·.id) }
    else .ok response

/-- The handler; the limit of a request is checked first. -/
def bootstrap (sizes : Sizes Item) (db : Db) (userId : String) (input : BootstrapItemsInput) :
    Except ApiError BootstrapItemsResponse := do
  if input.limit = some 0 then throw (.badRequest .badRequest "Invalid params")
  if input.limit.any fun limit => MAX_PAGE_SIZE < limit then
    throw (.badRequest .invalidPageLimit "limit must be between 1 and 500")
  let response ← (bootstrapItems sizes db userId input).mapError .ofAppError
  truncateItems sizes response

/-! ## Following the pages -/

inductive BootstrapEnd
  | complete
  | refused (error : ApiError)
  | unfinished
deriving DecidableEq, Repr

/-- What a client has after following `nextCursor` over so many requests, and how it ended. -/
def followBootstrap (sizes : Sizes Item) (db : Db) (userId : String) : Nat → BootstrapItemsInput → List Item × BootstrapEnd
  | 0, _ => ([], .unfinished)
  | requests + 1, input =>
    match bootstrap sizes db userId input with
    | .error e => ([], .refused e)
    | .ok page =>
      match page.nextCursor with
      | none => (page.items, .complete)
      | some cursor =>
        let rest := followBootstrap sizes db userId requests
          { input with cursor := some cursor, syncCursor := page.syncCursor, syncCursorCaptured := true }
        (page.items ++ rest.1, rest.2)

/-- One record alone is over the budget of the query or of the response. -/
def oversize (sizes : Sizes Item) (item : Item) : Bool :=
  decide (BOOTSTRAP_QUERY_BYTES < sizes.estimated item ∨ RESPONSE_PAGE_ITEMS_BYTES < 2 + sizes.serialized item)

/-- **The paging is complete**: the pages are all accessible items in order, or all before
one that is oversize. -/
def PagesComplete (sizes : Sizes Item) (db : Db) (userId : String) (limit : Nat) : Prop :=
  let all := accessibleItems db userId
  let pages := followBootstrap sizes db userId (all.length + 1) ⟨none, none, false, some limit⟩
  pages = (all, .complete) ∨
    ∃ e item rest, pages.2 = .refused e ∧ e.code = .payloadTooLarge ∧ all = pages.1 ++ item :: rest ∧
      oversize sizes item = true

/-! ## One page -/

variable {sizes : Sizes Item} {db : Db} {userId : String} {limit : Nat}

theorem accessibleItems_sorted (db : Db) (userId : String) : (accessibleItems db userId).Pairwise fun a b => a.id < b.id := by
  have hle : (accessibleItems db userId).Pairwise fun a b => a.id ≤ b.id := by
    refine (List.pairwise_mergeSort (fun a b c h h' => ?_) (fun a b => ?_) _).imp fun h => of_decide_eq_true h
    · exact decide_eq_true (le_trans (of_decide_eq_true h) (of_decide_eq_true h'))
    · rw [Bool.or_eq_true, decide_eq_true_eq, decide_eq_true_eq]
      exact le_total a.id b.id
  have hnd : (accessibleItems db userId).Pairwise fun a b => a.id ≠ b.id := by
    have hperm := List.mergeSort_perm (db.items.select fun i => db.holdsKey userId i.vaultId) fun a b => a.id ≤ b.id
    exact List.pairwise_map.mp ((hperm.map Item.id).nodup_iff.mpr (db.items.nodup.sublist (List.filter_sublist.map _)))
  exact (hle.and hnd).imp fun h => lt_of_le_of_ne h.1 h.2

theorem mem_accessibleItems {item : Item} : item ∈ accessibleItems db userId ↔
    item ∈ db.items ∧ db.holdsKey userId item.vaultId = true := by
  rw [accessibleItems, List.mem_mergeSort, Table.mem_select]

/-- A sync cursor the bootstrap has handed out is accepted again. -/
theorem bootstrapSyncCursor_again {input : BootstrapItemsInput} {syncCursor : Option Nat}
    (h : bootstrapSyncCursor db userId input = .ok syncCursor) (cursor : Option String) :
    bootstrapSyncCursor db userId ⟨cursor, syncCursor, true, input.limit⟩ = .ok syncCursor := by
  cases syncCursor with
  | none => rfl
  | some s =>
    -- The event of the cursor is there, and the user sees it.
    have hevent : ∃ e ∈ db.events, e.seq = s ∧ e.visible userId (fetchUserVaultIds db userId) = true := by
      unfold bootstrapSyncCursor at h
      split at h
      · split at h
        · next e he =>
          cases h
          have hp := List.find?_some he
          rw [Bool.and_eq_true] at hp
          exact ⟨e, List.mem_of_find?_eq_some he, rfl, hp.2⟩
        · cases h
      · split at h
        · cases h
        · obtain ⟨e, he, hs⟩ := Option.map_eq_some_iff.mp (Except.ok.inj h)
          obtain ⟨hmem, hvisible, -⟩ := mem_visibleSince.mp (List.mem_of_getLast? he)
          exact ⟨e, hmem, hs, hvisible⟩
    obtain ⟨e, hmem, hseq, hvisible⟩ := hevent
    simp only [bootstrapSyncCursor]
    cases hfind : fetchVisibleCursorEvent db userId (fetchUserVaultIds db userId) s with
    | none => exact absurd (List.find?_eq_none.mp hfind e hmem) (by simp [hseq, hvisible])
    | some e' =>
      have hp := List.find?_some hfind
      rw [Bool.and_eq_true, decide_eq_true_eq] at hp
      simp only [hp.1]

/-- The rows fetched and limited are a cut of what is left, unless its first record is too large. -/
theorem fetchBootstrapItems_cut (sizes : Sizes Item) (db : Db) (userId : String) (cursor : Option String) (hpos : 1 ≤ limit) :
    (∃ item rest, Page.after Item.id cursor (accessibleItems db userId) = item :: rest ∧
      BOOTSTRAP_QUERY_BYTES < sizes.estimated item ∧ fetchBootstrapItems sizes db userId cursor limit =
        .error (.payloadTooLarge "A single bootstrap item exceeds the response page byte budget.")) ∨
    ∃ fetched, fetchBootstrapItems sizes db userId cursor limit = .ok fetched ∧ (limitRows limit fetched).1.length ≤ limit ∧
      Page.Cut (Page.after Item.id cursor (accessibleItems db userId)) (limitRows limit fetched).1 (limitRows limit fetched).2 := by
  unfold fetchBootstrapItems
  generalize Page.after Item.id cursor (accessibleItems db userId) = left
  by_cases hlarge : (left.take (limit + 1)).head?.any fun first => BOOTSTRAP_QUERY_BYTES < sizes.estimated first
  · left
    obtain ⟨item, hitem, hlarge'⟩ := (Option.any_eq_true ..).mp hlarge
    cases left with
    | nil => cases hitem
    | cons _ rest =>
      cases hitem
      exact ⟨item, rest, rfl, of_decide_eq_true hlarge', if_pos hlarge⟩
  · right
    refine ⟨_, if_neg hlarge, ?_⟩
    have hprobe := Page.Cut.of_take left (Nat.succ_pos limit)
    have hbytes := Page.Cut.of_withinBudget sizes.estimated BOOTSTRAP_QUERY_BYTES (left.take (limit + 1))
    generalize Page.withinBudget sizes.estimated BOOTSTRAP_QUERY_BYTES (left.take (limit + 1)) = rows at *
    have hlen : (left.take (limit + 1)).length = min (limit + 1) left.length := List.length_take
    have hle := hbytes.start.length_le
    unfold limitRows
    by_cases hmore : (decide (rows.length < (left.take (limit + 1)).length) || decide (limit < rows.length)) = true
    · -- What the limit cuts off, or the bytes have, is there.
      simp only [hmore, if_true]
      have hcut := (hprobe.trans hbytes).trans (Page.Cut.of_take rows hpos)
      refine ⟨List.length_take_le .., hcut.start, iff_of_true rfl ?_, hcut.nonempty⟩
      rw [Bool.or_eq_true, decide_eq_true_eq, decide_eq_true_eq] at hmore
      rw [List.length_take]
      omega
    · simp only [hmore, Bool.false_eq_true, if_false]
      have hcut := hprobe.trans hbytes
      rw [Bool.or_eq_true, decide_eq_true_eq, decide_eq_true_eq] at hmore
      exact ⟨by omega, hcut.start, iff_of_false (by simp) (by omega), hcut.nonempty⟩

/-- The page as it is served: a cut as well, unless its first record is too large. -/
theorem truncateItems_cut {left items : List Item} {more : Bool} {syncCursor : Option Nat} (hcut : Page.Cut left items more) :
    (∃ e item rest, truncateItems sizes ⟨items, if more then items.getLast?.map (·.id) else none, syncCursor, more⟩ = .error e ∧
      e.code = .payloadTooLarge ∧ left = item :: rest ∧ oversize sizes item = true) ∨
    ∃ items' more', Page.Cut left items' more' ∧ items'.length ≤ items.length ∧
      truncateItems sizes ⟨items, if more then items.getLast?.map (·.id) else none, syncCursor, more⟩ =
        .ok ⟨items', if more' then items'.getLast?.map (·.id) else none, syncCursor, more'⟩ := by
  unfold truncateItems
  cases htrunc : Page.truncateSerialized sizes.serialized RESPONSE_PAGE_ITEMS_BYTES items with
  | none =>
    left
    obtain ⟨-, item, hitem, hlarge⟩ := Page.keepCount_eq_none (Option.map_eq_none_iff.mp htrunc)
    cases items with
    | nil => cases hitem
    | cons first items =>
      cases hitem
      exact ⟨_, item, items ++ left.drop (items.length + 1), rfl, rfl, hcut.eq_append, decide_eq_true (.inr hlarge)⟩
  | some cut =>
    right
    obtain ⟨items', truncated⟩ := cut
    have hcut' := Page.Cut.of_truncateSerialized htrunc
    refine ⟨items', more || truncated, hcut.trans hcut', hcut'.start.length_le, ?_⟩
    cases truncated with
    | true => simp
    | false => simp [hcut'.done]

/-- One page of what is left: a cut of it, or the refusal of its first record. -/
theorem bootstrap_page (sizes : Sizes Item) {input : BootstrapItemsInput} {syncCursor : Option Nat} (hlimit : input.limit = some limit)
    (hpos : 1 ≤ limit) (hmax : limit ≤ MAX_PAGE_SIZE) (hcursor : ∀ c, input.cursor = some c → validResourceId c = true)
    (hsync : bootstrapSyncCursor db userId input = .ok syncCursor) :
    (∃ e item rest, bootstrap sizes db userId input = .error e ∧ e.code = .payloadTooLarge ∧
      Page.after Item.id input.cursor (accessibleItems db userId) = item :: rest ∧ oversize sizes item = true) ∨
    ∃ items more, Page.Cut (Page.after Item.id input.cursor (accessibleItems db userId)) items more ∧ items.length ≤ limit ∧
      bootstrap sizes db userId input =
        .ok ⟨items, if more then items.getLast?.map (·.id) else none, syncCursor, more⟩ := by
  have hvalid : ¬ input.cursor.any (fun cursor => !validResourceId cursor) = true := by
    rw [Option.any_eq_true]
    rintro ⟨c, hc, hno⟩
    rw [hcursor c hc] at hno
    cases hno
  have hzero : ¬ input.limit = some 0 := by rw [hlimit, Option.some.injEq]; omega
  have hsize : ¬ input.limit.any (fun limit => MAX_PAGE_SIZE < limit) = true := by
    rw [hlimit, Option.any_some, decide_eq_true_eq]
    omega
  have hthousand : ¬ ¬ (1 ≤ input.limit.getD DEFAULT_BOOTSTRAP_LIMIT ∧ input.limit.getD DEFAULT_BOOTSTRAP_LIMIT ≤ 1000) := by
    rw [hlimit, Option.getD_some]
    unfold MAX_PAGE_SIZE at hmax
    omega
  have hgetD : input.limit.getD DEFAULT_BOOTSTRAP_LIMIT = limit := by rw [hlimit, Option.getD_some]
  have hbootstrap : bootstrap sizes db userId input =
      ((fetchBootstrapItems sizes db userId input.cursor limit).mapError .ofAppError).bind fun fetched =>
        truncateItems sizes ⟨(limitRows limit fetched).1, if (limitRows limit fetched).2 then
          (limitRows limit fetched).1.getLast?.map (·.id) else none, syncCursor, (limitRows limit fetched).2⟩ := by
    unfold bootstrap bootstrapItems
    rw [if_neg hzero, if_neg hsize, if_neg hvalid, if_neg hthousand, hsync, hgetD]
    cases fetchBootstrapItems sizes db userId input.cursor limit <;> rfl
  rw [hbootstrap]
  rcases fetchBootstrapItems_cut sizes db userId input.cursor hpos with ⟨item, rest, hleft, hlarge, hfetch⟩ | ⟨fetched, hfetch, hlen, hcut⟩
  · left
    rw [hfetch]
    exact ⟨_, item, rest, rfl, rfl, hleft, decide_eq_true (.inl hlarge)⟩
  · rw [hfetch]
    rcases truncateItems_cut hcut with hlarge | ⟨items, more, hcut', hle, hok⟩
    · exact .inl hlarge
    · exact .inr ⟨items, more, hcut', hle.trans hlen, hok⟩

/-! ## All pages -/

/-- Following the pages from a cursor that is accepted, where every cursor handed out will be. -/
theorem followBootstrap_complete (sizes : Sizes Item) (hpos : 1 ≤ limit) (hmax : limit ≤ MAX_PAGE_SIZE)
    (hvalid : ∀ item ∈ (accessibleItems db userId).dropLast, validResourceId item.id = true) :
    ∀ (requests : Nat) (input : BootstrapItemsInput) (syncCursor : Option Nat), input.limit = some limit →
      (∀ c, input.cursor = some c → validResourceId c = true) → bootstrapSyncCursor db userId input = .ok syncCursor →
      (Page.after Item.id input.cursor (accessibleItems db userId)).length < requests →
      let left := Page.after Item.id input.cursor (accessibleItems db userId)
      let pages := followBootstrap sizes db userId requests input
      pages = (left, .complete) ∨ ∃ e item rest, pages.2 = .refused e ∧ e.code = .payloadTooLarge ∧
        left = pages.1 ++ item :: rest ∧ oversize sizes item = true := by
  intro requests
  induction requests with
  | zero => intro input syncCursor _ _ _ hlen; omega
  | succ requests ih =>
    intro input syncCursor hlimit hcursor hsync hlen
    simp only
    generalize hleft : Page.after Item.id input.cursor (accessibleItems db userId) = left at hlen
    rcases bootstrap_page sizes hlimit hpos hmax hcursor hsync with
      ⟨e, item, rest, hrun, hcode, hrest, hlarge⟩ | ⟨items, more, hcut, -, hrun⟩
    · right
      rw [followBootstrap, hrun]
      exact ⟨e, item, rest, rfl, hcode, by rw [← hleft, hrest]; rfl, hlarge⟩
    · rw [hleft] at hcut
      rw [followBootstrap, hrun]
      cases more with
      | false =>
        left
        simp [hcut.done]
      | true =>
        -- There is more, so the page has a last item, and the next one starts after it.
        have hshort := hcut.more.mp rfl
        have hne : items ≠ [] := hcut.nonempty (by rintro rfl; simp at hshort)
        obtain ⟨x, hx⟩ := Option.ne_none_iff_exists'.mp (fun hno => hne (List.getLast?_eq_none_iff.mp hno))
        have hnext : Page.after Item.id (some x.id) (accessibleItems db userId) = left.drop items.length := by
          rw [← hleft]
          exact Page.after_getLast (accessibleItems_sorted db userId) (hleft ▸ hcut.start) hx
        have hsub : ∀ a ∈ left, a ∈ accessibleItems db userId := fun a ha => (List.mem_filter.mp (hleft ▸ ha)).1
        have hxmem : x ∈ left := hcut.start.subset (List.mem_of_getLast? hx)
        have hlen' : (left.drop items.length).length = left.length - items.length := List.length_drop
        have hpage : 0 < items.length := List.length_pos_iff.mpr hne
        obtain ⟨y, hy⟩ := List.exists_mem_of_length_pos (l := left.drop items.length) (by omega)
        have hyafter : y ∈ Page.after Item.id (some x.id) (accessibleItems db userId) := by rw [hnext]; exact hy
        have hlt : x.id < y.id := of_decide_eq_true (List.mem_filter.mp hyafter).2
        have hxvalid : validResourceId x.id = true :=
          hvalid x (Page.mem_dropLast_of_lt (accessibleItems_sorted db userId) (hsub x hxmem)
            (hsub y (List.mem_of_mem_drop hy)) hlt)
        have hrest := ih { input with cursor := some x.id, syncCursor := syncCursor, syncCursorCaptured := true } syncCursor
          hlimit (fun c hc => Option.some.inj hc ▸ hxvalid) (bootstrapSyncCursor_again hsync _) (by simp only [hnext]; omega)
        simp only [hnext] at hrest
        simp only [hx, if_true, Option.map_some]
        rcases hrest with hdone | ⟨e, item, rest, hend, hcode, hrest, hlarge⟩
        · left
          rw [hdone]
          exact Prod.ext hcut.eq_append.symm rfl
        · right
          refine ⟨e, item, rest, hend, hcode, ?_, hlarge⟩
          rw [List.append_assoc, ← hrest]
          exact hcut.eq_append

/-- Sizes that are over no budget. -/
def smallSizes : Sizes Item := ⟨fun _ => 0, fun _ => 0⟩

theorem bootstrap_invalid_cursor {input : BootstrapItemsInput} {cursor : String} (hlimit : input.limit = some 1)
    (hcursor : input.cursor = some cursor) (hinvalid : validResourceId cursor = false) :
    bootstrap sizes db userId input = .error (.badRequest .badRequest "Invalid resource ID") := by
  unfold bootstrap bootstrapItems
  rw [hlimit, hcursor, if_neg (by simp), if_neg (by decide), if_pos (by simp [hinvalid])]
  rfl

/-- One item at a time, every cursor but that of the last item is asked for. -/
theorem valid_of_followBootstrap : ∀ (requests : Nat) (input : BootstrapItemsInput) (syncCursor : Option Nat),
    input.limit = some 1 → (∀ c, input.cursor = some c → validResourceId c = true) →
    bootstrapSyncCursor db userId input = .ok syncCursor →
    ((followBootstrap smallSizes db userId requests input).2 = .complete ∨
      ∃ e, (followBootstrap smallSizes db userId requests input).2 = .refused e ∧ e.code = .payloadTooLarge) →
    ∀ item ∈ (Page.after Item.id input.cursor (accessibleItems db userId)).dropLast, validResourceId item.id = true := by
  intro requests
  induction requests with
  | zero =>
    intro input syncCursor _ _ _ hend
    rcases hend with hend | ⟨e, hend, -⟩ <;> cases hend
  | succ requests ih =>
    intro input syncCursor hlimit hcursor hsync hend
    rcases bootstrap_page smallSizes hlimit (Nat.le_refl 1) (by decide) hcursor hsync with
      ⟨e, item, rest, hrun, hcode, hrest, hlarge⟩ | ⟨items, more, hcut, hlen, hrun⟩
    · exact absurd hlarge (by simp [oversize, smallSizes, RESPONSE_PAGE_ITEMS_BYTES])
    generalize hleft : Page.after Item.id input.cursor (accessibleItems db userId) = left at hcut
    rw [followBootstrap, hrun] at hend
    cases more with
    | false =>
      obtain rfl := hcut.done
      intro item hitem
      have hshort := List.length_pos_of_mem hitem
      rw [List.length_dropLast] at hshort
      omega
    | true =>
      have hshort := hcut.more.mp rfl
      have hne : items ≠ [] := hcut.nonempty (by rintro rfl; simp at hshort)
      obtain ⟨x, rfl⟩ : ∃ x, items = [x] := List.length_eq_one_iff.mp (by have := List.length_pos_iff.mpr hne; omega)
      obtain ⟨rest, rfl⟩ := hcut.start
      have hnext : Page.after Item.id (some x.id) (accessibleItems db userId) = rest := by
        rw [Page.after_getLast (accessibleItems_sorted db userId) (hleft ▸ hcut.start) (by simp : [x].getLast? = some x), hleft]
        rfl
      simp only [List.getLast?_singleton, if_true, Option.map_some] at hend
      by_cases hvalid : validResourceId x.id = true
      · have hrest := ih { input with cursor := some x.id, syncCursor := syncCursor, syncCursorCaptured := true } syncCursor
          hlimit (fun c hc => Option.some.inj hc ▸ hvalid) (bootstrapSyncCursor_again hsync _) hend
        simp only [hnext] at hrest
        intro item hitem
        rw [List.singleton_append, List.dropLast_cons_of_ne_nil (by rintro rfl; simp at hshort)] at hitem
        rcases List.mem_cons.mp hitem with rfl | hitem
        · exact hvalid
        · exact hrest item hitem
      · -- The next request refuses the cursor.
        exfalso
        rw [Bool.not_eq_true] at hvalid
        cases requests with
        | zero => rcases hend with hend | ⟨e, hend, -⟩ <;> cases hend
        | succ requests =>
          have hrefused : bootstrap smallSizes db userId
              { input with cursor := some x.id, syncCursor := syncCursor, syncCursorCaptured := true } =
                .error (.badRequest .badRequest "Invalid resource ID") := bootstrap_invalid_cursor hlimit rfl hvalid
          rw [followBootstrap, hrefused] at hend
          rcases hend with hend | ⟨e, hend, hcode⟩
          · cases hend
          · cases hend
            cases hcode

/-- A bootstrap begins with every accessible item left. -/
theorem after_none (db : Db) (userId : String) : Page.after Item.id none (accessibleItems db userId) = accessibleItems db userId := by
  simp [Page.after]

theorem valid_of_pagesComplete (h : PagesComplete smallSizes db userId 1) :
    ∀ item ∈ (accessibleItems db userId).dropLast, validResourceId item.id = true := by
  have hend : (followBootstrap smallSizes db userId ((accessibleItems db userId).length + 1) ⟨none, none, false, some 1⟩).2 =
        .complete ∨ ∃ e, (followBootstrap smallSizes db userId ((accessibleItems db userId).length + 1)
          ⟨none, none, false, some 1⟩).2 = .refused e ∧ e.code = .payloadTooLarge := by
    rcases h with hdone | ⟨e, item, rest, hend, hcode, -⟩
    · exact .inl (congrArg Prod.snd hdone)
    · exact .inr ⟨e, hend, hcode⟩
  have hvalid := valid_of_followBootstrap _ ⟨none, none, false, some 1⟩ _ rfl (fun c hc => by cases hc) rfl hend
  rwa [after_none] at hvalid

/-- **The bootstrap of a user is complete**, for every page limit and all sizes, exactly when
every accessible item but the last has an id that is a resource id. -/
theorem bootstrap_complete_iff (db : Db) (userId : String) :
    (∀ (sizes : Sizes Item) (limit : Nat), 1 ≤ limit → limit ≤ MAX_PAGE_SIZE → PagesComplete sizes db userId limit) ↔
      ∀ item ∈ (accessibleItems db userId).dropLast, validResourceId item.id = true := by
  constructor
  · intro hcomplete
    exact valid_of_pagesComplete (hcomplete smallSizes 1 (Nat.le_refl 1) (by decide))
  · intro hvalid sizes limit hpos hmax
    have hpages := followBootstrap_complete sizes hpos hmax hvalid ((accessibleItems db userId).length + 1)
      ⟨none, none, false, some limit⟩ _ rfl (fun c hc => by cases hc) rfl (by simp only [after_none]; omega)
    simp only [after_none] at hpages
    exact hpages

/-! ## A cursor that is refused -/

def shortIds : Db :=
  { Db.empty with
    vaultKeys := ⟨[⟨"k-ann", "v", "ann", "key-ann", .owner⟩], by decide⟩
    items := ⟨[newItem "ann" "v" false ⟨"a", "v", .login, "data", "iv", "alg", none⟩,
      newItem "ann" "v" false ⟨"b", "v", .login, "data", "iv", "alg", none⟩], by decide⟩ }

/-- The first page ends at item `a`, and the request for the second is refused. -/
theorem short_id_stops_paging : ¬ ∀ (sizes : Sizes Item) (db : Db) (userId : String) (limit : Nat), 1 ≤ limit →
    limit ≤ MAX_PAGE_SIZE → PagesComplete sizes db userId limit := by
  intro hall
  have hvalid := valid_of_pagesComplete (hall smallSizes shortIds "ann" 1 (Nat.le_refl 1) (by decide))
  have hlength : (accessibleItems shortIds "ann").dropLast.length = 1 := by
    rw [List.length_dropLast, accessibleItems, List.length_mergeSort]
    rfl
  obtain ⟨item, hitem⟩ := List.exists_mem_of_length_pos (l := (accessibleItems shortIds "ann").dropLast) (by omega)
  obtain ⟨hmem, -⟩ := mem_accessibleItems.mp ((List.dropLast_sublist _).mem hitem)
  have hshort : validResourceId item.id = false := by
    rcases List.mem_pair.mp (show item ∈ shortIds.items.rows from hmem) with rfl | rfl <;> rfl
  rw [hvalid item hitem] at hshort
  cases hshort

end Bittery
