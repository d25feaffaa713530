/-
The event feed as `domains/sync/mod.rs`, `domains/sync/records.rs` and `domains/sync/http.rs`
serve it: which events a user sees, and the page of events after a cursor.

A cursor is an event id; here it is the sequence number the id stands for. A poll is four
statements, each on the database as it is then: the vaults of the user, the event of the
cursor, the page, and the rows of the page. The format checks of ids are left out.
-/
import Mathlib.Data.List.Sort
import Bittery.Lib.Page
import Bittery.Server.Db

namespace Bittery

open Lib

/-- The page budget of the feed and the bootstrap. -/
def BOOTSTRAP_QUERY_BYTES : Nat := 4 * 1024 * 1024 - 16 * 1024

def DEFAULT_EVENTS_LIMIT : Nat := 100

/-- The event types that belong to a user and not to the members of a vault. -/
def SyncEventType.isUserScoped : SyncEventType → Bool
  | .vaultDeleted | .vaultAccessRevoked | .travelModeUpdated => true
  | _ => false

/-- The `WHERE` clause of the visible-events queries, for the vaults in `targetVaultIds`. -/
def SyncEvent.visible (userId : String) (targetVaultIds : List String) (e : SyncEvent) : Bool :=
  (e.vaultId.any (· ∈ targetVaultIds) && !e.eventType.isUserScoped) || (e.userId = userId && e.eventType.isUserScoped)

/-- `fetch_user_vault_ids`. -/
def fetchUserVaultIds (db : Db) (userId : String) : List String :=
  (db.vaultKeys.select fun k => k.userId = userId).map (·.vaultId)

theorem mem_fetchUserVaultIds {db : Db} {userId vaultId : String} :
    vaultId ∈ fetchUserVaultIds db userId ↔ db.holdsKey userId vaultId = true := by
  simp only [fetchUserVaultIds, List.mem_map, Table.mem_select, decide_eq_true_eq, Db.holdsKey_iff]
  constructor
  · rintro ⟨k, ⟨hk, hu⟩, hv⟩; exact ⟨k, hk, hv, hu⟩
  · rintro ⟨k, hk, hv, hu⟩; exact ⟨k, ⟨hk, hu⟩, hv⟩

/-- Whether a user sees an event without narrowing the vaults. -/
def visibleTo (db : Db) (userId : String) (e : SyncEvent) : Bool := e.visible userId (fetchUserVaultIds db userId)

/-- An event of a vault, of a type that belongs to the vault, is seen by the holders of a key. -/
theorem visibleTo_of_vault {db : Db} {userId vaultId : String} {e : SyncEvent} (hv : e.vaultId = some vaultId)
    (ht : e.eventType.isUserScoped = false) : visibleTo db userId e = db.holdsKey userId vaultId := by
  rw [visibleTo, SyncEvent.visible, hv, ht, Bool.eq_iff_iff]
  simp [mem_fetchUserVaultIds]

/-! ## A poll -/

/-- How many bytes a row counts: by the estimate of the query, and in the response. -/
structure Sizes (α : Type) where
  estimated : α → Nat
  serialized : α → Nat

def RESPONSE_PAGE_ITEMS_BYTES : Nat := 4 * 1024 * 1024 - 16 * 1024

structure GetEventsSinceInput where
  sinceId : Option Nat
  vaultIds : Option (List String)
  limit : Option Nat
deriving DecidableEq, Repr

structure GetEventsSinceResponse where
  events : List SyncEvent
  cursor : Option Nat
  hasMore : Bool
  requiresFullRefresh : Bool
deriving DecidableEq, Repr

/-- The vaults a poll is about: those of the user, of the ones it asks for. -/
def targetVaults (keysDb : Db) (userId : String) (vaultIds : Option (List String)) : List String :=
  match vaultIds with
  | some vaultIds => vaultIds.filter fun v => v ∈ fetchUserVaultIds keysDb userId
  | none => fetchUserVaultIds keysDb userId

/-- The visible events after a cursor, in order. -/
def visibleSince (db : Db) (userId : String) (targetVaultIds : List String) (cursorSeq : Nat) : List SyncEvent :=
  (db.events.filter fun e => e.visible userId targetVaultIds && decide (cursorSeq < e.seq)).mergeSort
    fun a b => a.seq ≤ b.seq

theorem mem_visibleSince {db : Db} {userId : String} {targetVaultIds : List String} {since : Nat} {e : SyncEvent} :
    e ∈ visibleSince db userId targetVaultIds since ↔ e ∈ db.events ∧ e.visible userId targetVaultIds = true ∧ since < e.seq := by
  simp only [visibleSince, List.mem_mergeSort, List.mem_filter, Bool.and_eq_true, decide_eq_true_eq]

def fetchVisibleCursorEvent (db : Db) (userId : String) (targetVaultIds : List String) (sinceId : Nat) : Option SyncEvent :=
  db.events.find? fun e => e.seq = sinceId && e.visible userId targetVaultIds

def fetchLatestVisibleEventId (db : Db) (userId : String) (targetVaultIds : List String) : Option Nat :=
  (visibleSince db userId targetVaultIds 0).getLast?.map (·.seq)

/-- The rows of the page, and whether there is more: one row over the limit is asked for. -/
def fetchVisibleEventsSince (sizes : Sizes SyncEvent) (pageDb rowsDb : Db) (userId : String) (targetVaultIds : List String)
    (cursorSeq limit : Nat) : Except AppError (List SyncEvent × Bool) :=
  let candidates := (visibleSince pageDb userId targetVaultIds cursorSeq).take (limit + 1)
  if candidates.head?.any fun first => BOOTSTRAP_QUERY_BYTES < sizes.estimated first then
    .error (.payloadTooLarge "A single sync event exceeds the response page byte budget.")
  else
    let page := Page.withinBudget sizes.estimated BOOTSTRAP_QUERY_BYTES candidates
    .ok (page.filterMap fun e => rowsDb.events.find? fun row => row.seq = e.seq, page.length < candidates.length)

def getEventsSince (sizes : Sizes SyncEvent) (keysDb cursorDb pageDb rowsDb : Db) (userId : String)
    (input : GetEventsSinceInput) : Except AppError GetEventsSinceResponse := do
  if input.vaultIds.any fun vaultIds => 200 < vaultIds.length then throw (.badRequest "Invalid params")
  let limit := input.limit.getD DEFAULT_EVENTS_LIMIT
  if ¬ (1 ≤ limit ∧ limit ≤ 1000) then throw (.badRequest "Invalid params")
  let targetVaultIds := targetVaults keysDb userId input.vaultIds
  if input.sinceId.any fun sinceId => (fetchVisibleCursorEvent cursorDb userId targetVaultIds sinceId).isNone then
    return ⟨[], fetchLatestVisibleEventId pageDb userId targetVaultIds, false, true⟩
  let (rows, hasMore) ←
    fetchVisibleEventsSince sizes pageDb rowsDb userId targetVaultIds (input.sinceId.getD 0) limit
  let resultEvents := rows.take limit
  return ⟨resultEvents, resultEvents.getLast?.map (·.seq), hasMore || limit < rows.length, false⟩

/-- The handler of `GET /sync/changes`: the page is cut once more, to what fits the response. -/
def changes (sizes : Sizes SyncEvent) (keysDb cursorDb pageDb rowsDb : Db) (userId : String) (input : GetEventsSinceInput) :
    Except ApiError GetEventsSinceResponse := do
  let response ← (getEventsSince sizes keysDb cursorDb pageDb rowsDb userId input).mapError .ofAppError
  match Page.truncateSerialized sizes.serialized RESPONSE_PAGE_ITEMS_BYTES response.events with
  | none => throw (.payloadTooLarge "A single response item exceeds the page byte budget.")
  | some (events, truncated) =>
    if truncated then return { response with events := events, hasMore := true, cursor := events.getLast?.map (·.seq) }
    else return response

end Bittery
