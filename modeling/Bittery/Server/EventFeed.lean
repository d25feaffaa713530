/-
The feed of events under transactions that overlap.

An event gets its sequence number when it is inserted and is seen when its transaction
commits, so a transaction that is still open can hold an event whose number is below that of
a committed one. A poll that hands out the higher number as its cursor has passed the event
by. That is the only way to miss one: where no open transaction holds an event of the feed
below those of the page, nothing is added behind a cursor, and the pages a client follows
have every event once.
-/
import Bittery.Lib.Except
import Bittery.Lib.Runs
import Bittery.Server.Sync

namespace Bittery

open Lib

/-! ## The feed -/

/-- The committed database, the events of open transactions, and the next sequence number,
which is taken from the sequence at once and for good. -/
structure Moment where
  db : Db
  opened : List (Nat × SyncEvent)
  nextSeq : Nat

/-- What a poll has answered: for which feed, after which cursor, from which events. -/
structure Answer where
  userId : String
  targetVaultIds : List String
  since : Nat
  seen : List SyncEvent
  response : GetEventsSinceResponse

structure Feed where
  now : Moment
  past : List Moment
  answers : List Answer

inductive FeedStep
  | insert (tx : Nat) (e : SyncEvent)
  | commit (tx : Nat) (rows : Db) (deleted : List Nat) (vaultsDeleted : List String)
  | rollback (tx : Nat)
  | poll (userId : String) (input : GetEventsSinceInput) (keys cursor page : Nat)

/-- `ON DELETE SET NULL` of the vault of an event. -/
def SyncEvent.forgetVault (vaultsDeleted : List String) (e : SyncEvent) : SyncEvent :=
  { e with vaultId := e.vaultId.filter fun v => v ∉ vaultsDeleted }

namespace Moment

variable (m : Moment)

/-- An event of a transaction gets the next sequence number. -/
def insert (tx : Nat) (e : SyncEvent) : Moment :=
  { m with opened := m.opened ++ [(tx, { e with seq := m.nextSeq })], nextSeq := m.nextSeq + 1 }

def rollback (tx : Nat) : Moment := { m with opened := m.opened.filter fun o => o.1 ≠ tx }

/-- The events of the transaction are there. It may have deleted events and vaults, and left
the other tables as it liked. -/
def commit (tx : Nat) (rows : Db) (deleted : List Nat) (vaultsDeleted : List String) : Moment :=
  { m.rollback tx with
    db := { rows with
      events := ((m.db.events ++ (m.opened.filter fun o => o.1 = tx).map Prod.snd).filter fun e =>
        e.seq ∉ deleted).map (SyncEvent.forgetVault vaultsDeleted) } }

end Moment

namespace Feed

def moments (f : Feed) : List Moment := f.now :: f.past

def ago (f : Feed) (n : Nat) : Option Moment := f.moments[n]?

def advance (f : Feed) (m : Moment) : Feed := { f with now := m, past := f.moments }

variable (sizes : Sizes SyncEvent)

/-- The statements of a poll run one after the other, the rows of the page last. -/
def step (f : Feed) : FeedStep → Option Feed
  | .insert tx e => some (f.advance (f.now.insert tx e))
  | .commit tx rows deleted vaultsDeleted => some (f.advance (f.now.commit tx rows deleted vaultsDeleted))
  | .rollback tx => some (f.advance (f.now.rollback tx))
  | .poll userId input keys cursor page => do
    guard (page ≤ cursor ∧ cursor ≤ keys)
    let keysAt ← f.ago keys
    let cursorAt ← f.ago cursor
    let pageAt ← f.ago page
    let response ← (changes sizes keysAt.db cursorAt.db pageAt.db f.now.db userId input).toOption
    return { f with answers :=
      ⟨userId, targetVaults keysAt.db userId input.vaultIds, input.sinceId.getD 0, pageAt.db.events, response⟩ :: f.answers }

end Feed

def feed (sizes : Sizes SyncEvent) : System Feed FeedStep where
  init f := f = ⟨⟨Db.empty, [], 1⟩, [], []⟩
  step f a := f.step sizes a

/-! ## What a feed without gaps is -/

/-- A client that goes on from the cursor of the page before. -/
inductive Follows : Nat → List Answer → Nat → Prop
  | done (cursor : Nat) : Follows cursor [] cursor
  | page {a : Answer} {answers : List Answer} {cursor : Nat} : a.response.requiresFullRefresh = false →
      Follows (a.response.cursor.getD a.since) answers cursor → Follows a.since (a :: answers) cursor

def received (answers : List Answer) : List Nat := (answers.flatMap fun a => a.response.events).map (·.seq)

/-- **The feed is gap free.** -/
structure GapFree (f : Feed) : Prop where
  /-- No event of its feed has become visible behind a cursor that was handed out. -/
  settled : ∀ a ∈ f.answers, ∀ s, a.response.cursor = some s → ∀ e ∈ f.now.db.events,
    e.visible a.userId a.targetVaultIds = true → e.seq ≤ s → ∃ e' ∈ a.seen, e'.seq = e.seq
  /-- A client that follows cursors has every event of its feed up to the cursor once. -/
  once : ∀ answers start cursor, (∀ a ∈ answers, a ∈ f.answers) → Follows start answers cursor →
    ∀ e ∈ f.now.db.events, (∀ a ∈ answers, e.visible a.userId a.targetVaultIds = true) →
      start < e.seq → e.seq ≤ cursor → (received answers).count e.seq = 1

/-- The events a poll can hand out: those of the page, or all when the cursor is lost. -/
def pageEvents (sizes : Sizes SyncEvent) (cursorDb pageDb : Db) (userId : String) (targetVaultIds : List String)
    (input : GetEventsSinceInput) : List SyncEvent :=
  if input.sinceId.any fun sinceId => (fetchVisibleCursorEvent cursorDb userId targetVaultIds sinceId).isNone then
    visibleSince pageDb userId targetVaultIds 0
  else
    Page.withinBudget sizes.estimated BOOTSTRAP_QUERY_BYTES
      ((visibleSince pageDb userId targetVaultIds (input.sinceId.getD 0)).take (input.limit.getD DEFAULT_EVENTS_LIMIT + 1))

/-- When the page is read, no open transaction holds an event of the feed below one of the page. -/
def FeedStep.settled (sizes : Sizes SyncEvent) (f : Feed) : FeedStep → Bool
  | .poll userId input keys cursor page =>
    match f.ago keys, f.ago cursor, f.ago page with
    | some keysAt, some cursorAt, some pageAt =>
      let targetVaultIds := targetVaults keysAt.db userId input.vaultIds
      pageAt.opened.all fun o => !o.2.visible userId targetVaultIds ||
        (pageEvents sizes cursorAt.db pageAt.db userId targetVaultIds input).all fun e => e.seq < o.2.seq
    | _, _, _ => true
  | _ => true

/-! ## What a poll answers -/

section Poll

variable {sizes : Sizes SyncEvent} {keysDb cursorDb pageDb rowsDb : Db} {userId : String} {input : GetEventsSinceInput}
  {response : GetEventsSinceResponse} {targetVaultIds : List String}

/-- Where sequence numbers are unique the visible events are in strict order. -/
theorem visibleSince_sorted {db : Db} {since : Nat} (hnd : (db.events.map (·.seq)).Nodup) :
    ((visibleSince db userId targetVaultIds since).map (·.seq)).Pairwise (· < ·) := by
  have hle : ((visibleSince db userId targetVaultIds since).map (·.seq)).Pairwise (· ≤ ·) := by
    rw [List.pairwise_map]
    refine (List.pairwise_mergeSort (fun a b c h h' => ?_) (fun a b => ?_) _).imp fun h => of_decide_eq_true h
    · rw [decide_eq_true_eq] at *
      omega
    · rw [Bool.or_eq_true, decide_eq_true_eq, decide_eq_true_eq]
      omega
  have hne : ((visibleSince db userId targetVaultIds since).map (·.seq)).Nodup :=
    ((List.mergeSort_perm _ _).map _).nodup_iff.mpr (hnd.sublist (List.filter_sublist.map _))
  exact (hle.and hne).imp fun h => by omega

/-- What a poll has served of the page it read. -/
structure Served (pageDb rowsDb : Db) (userId : String) (targetVaultIds : List String) (since : Nat)
    (page : List SyncEvent) (response : GetEventsSinceResponse) : Prop where
  cursor : ∀ s, response.cursor = some s → ∃ e ∈ page, e.seq = s
  fromPage : ∀ e ∈ page, e ∈ pageDb.events
  ascending : (response.events.map (·.seq)).Pairwise (· < ·)
  above : ∀ n ∈ response.events.map (·.seq), since < n
  upTo : ∀ n ∈ response.events.map (·.seq), ∃ s, response.cursor = some s ∧ n ≤ s
  complete : response.requiresFullRefresh = false → ∀ s, response.cursor = some s → ∀ e ∈ pageDb.events,
    e.visible userId targetVaultIds = true → since < e.seq → e.seq ≤ s → (∃ row ∈ rowsDb.events, row.seq = e.seq) →
      e.seq ∈ response.events.map (·.seq)
  forward : response.requiresFullRefresh = false → ∀ s, response.cursor = some s → since < s

/-- The rows of a page as they are when they are fetched; some may be gone. -/
def pageRows (rowsDb : Db) (page : List SyncEvent) : List SyncEvent :=
  page.filterMap fun e => rowsDb.events.find? fun row => row.seq = e.seq

theorem pageRows_seqs (rowsDb : Db) (page : List SyncEvent) : (pageRows rowsDb page).map (·.seq) =
    (page.map (·.seq)).filter fun n => rowsDb.events.any fun row => row.seq = n := by
  induction page with
  | nil => rfl
  | cons e page ih =>
    rw [pageRows, List.filterMap_cons, List.map_cons]
    cases hfind : rowsDb.events.find? fun row => row.seq = e.seq with
    | none =>
      rw [List.filter_cons_of_neg]
      · exact ih
      · rw [List.find?_eq_none] at hfind
        simpa using hfind
    | some row =>
      have hseq : row.seq = e.seq := by simpa using List.find?_some hfind
      rw [List.filter_cons_of_pos]
      · simp only [List.map_cons, hseq, List.cons.injEq, true_and]
        exact ih
      · exact List.any_eq_true.mpr ⟨row, List.mem_of_find?_eq_some hfind, by simpa using hseq⟩

/-- An answered poll: its cursor was lost, or it has a beginning of the rows of its page. -/
theorem changes_ok (h : changes sizes keysDb cursorDb pageDb rowsDb userId input = .ok response) :
    (response = ⟨[], fetchLatestVisibleEventId pageDb userId (targetVaults keysDb userId input.vaultIds), false, true⟩ ∧
      pageEvents sizes cursorDb pageDb userId (targetVaults keysDb userId input.vaultIds) input =
        visibleSince pageDb userId (targetVaults keysDb userId input.vaultIds) 0) ∨
    (∃ events more, response = ⟨events, events.getLast?.map (·.seq), more, false⟩ ∧
      events <+: pageRows rowsDb
        (pageEvents sizes cursorDb pageDb userId (targetVaults keysDb userId input.vaultIds) input) ∧
      pageEvents sizes cursorDb pageDb userId (targetVaults keysDb userId input.vaultIds) input <+:
        visibleSince pageDb userId (targetVaults keysDb userId input.vaultIds) (input.sinceId.getD 0)) := by
  simp only [changes, Except.bind_ok_iff, Except.mapError_ok_iff] at h
  obtain ⟨served, hserved, hcut⟩ := h
  simp only [getEventsSince, Except.guard_ok_iff] at hserved
  obtain ⟨-, -, hserved⟩ := hserved
  split at hserved
  · -- The event of the cursor is not there for the user any more.
    next hlost =>
    obtain rfl := Except.pure_ok_iff.mp hserved
    left
    rw [pageEvents, if_pos hlost]
    exact ⟨(Except.ok.inj hcut).symm, rfl⟩
  · next hkept =>
    simp only [Except.bind_ok_iff, Except.pure_ok_iff] at hserved
    obtain ⟨⟨rows, hasMore⟩, hfetch, rfl⟩ := hserved
    simp only [fetchVisibleEventsSince] at hfetch
    split at hfetch
    · cases hfetch
    obtain ⟨hrows, -⟩ := Prod.mk.inj (Except.ok.inj hfetch)
    right
    rw [pageEvents, if_neg hkept]
    have hstart : rows.take (input.limit.getD DEFAULT_EVENTS_LIMIT) <+: rows := List.take_prefix ..
    have hpage := (Page.withinBudget_start sizes.estimated BOOTSTRAP_QUERY_BYTES _).trans (List.take_prefix
      (input.limit.getD DEFAULT_EVENTS_LIMIT + 1)
      (visibleSince pageDb userId (targetVaults keysDb userId input.vaultIds) (input.sinceId.getD 0)))
    split at hcut
    · cases hcut
    · next events truncated htrunc =>
      split at hcut
      · exact ⟨events, true, (Except.ok.inj hcut).symm,
          ((Page.Cut.of_truncateSerialized htrunc).start.trans hstart).trans (hrows ▸ List.prefix_rfl), hpage⟩
      · exact ⟨_, _, (Except.ok.inj hcut).symm, hstart.trans (hrows ▸ List.prefix_rfl), hpage⟩

theorem changes_served (hnd : (pageDb.events.map (·.seq)).Nodup)
    (h : changes sizes keysDb cursorDb pageDb rowsDb userId input = .ok response) :
    Served pageDb rowsDb userId (targetVaults keysDb userId input.vaultIds) (input.sinceId.getD 0)
      (pageEvents sizes cursorDb pageDb userId (targetVaults keysDb userId input.vaultIds) input) response := by
  rcases changes_ok h with ⟨rfl, hpage⟩ | ⟨events, more, rfl, hevents, hpage⟩
  · rw [hpage]
    refine ⟨fun s hs => ?_, fun e he => (mem_visibleSince.mp he).1, .nil, fun n hn => (by cases hn),
      fun n hn => (by cases hn), fun hno => (by cases hno), fun hno => (by cases hno)⟩
    obtain ⟨e, he, rfl⟩ := Option.map_eq_some_iff.mp hs
    exact ⟨e, List.mem_of_getLast? he, rfl⟩
  generalize hE : pageEvents sizes cursorDb pageDb userId (targetVaults keysDb userId input.vaultIds) input = page at *
  have hsorted : ((visibleSince pageDb userId (targetVaults keysDb userId input.vaultIds)
      (input.sinceId.getD 0)).map (·.seq)).Pairwise (· < ·) := visibleSince_sorted hnd
  have hpageSorted := hsorted.sublist (hpage.sublist.map (·.seq))
  have hrowsSorted : ((pageRows rowsDb page).map (·.seq)).Pairwise (· < ·) := by
    rw [pageRows_seqs]
    exact hpageSorted.sublist List.filter_sublist
  have hstart : events.map (·.seq) <+: (pageRows rowsDb page).map (·.seq) := hevents.map _
  -- The numbers served are numbers of the page.
  have hfrom : ∀ n ∈ events.map (·.seq), n ∈ page.map (·.seq) := fun n hn => by
    have := hstart.subset hn
    rw [pageRows_seqs] at this
    exact (List.mem_filter.mp this).1
  have hlast : ∀ s, events.getLast?.map (·.seq) = some s → s ∈ events.map (·.seq) := fun s hs => by
    obtain ⟨e, he, rfl⟩ := Option.map_eq_some_iff.mp hs
    exact List.mem_map_of_mem (List.mem_of_getLast? he)
  have habove : ∀ n ∈ events.map (·.seq), input.sinceId.getD 0 < n := fun n hn => by
    obtain ⟨e, he, rfl⟩ := List.mem_map.mp (hfrom n hn)
    exact (mem_visibleSince.mp (hpage.subset he)).2.2
  refine ⟨fun s hs => List.mem_map.mp (hfrom s (hlast s hs)), fun e he => (mem_visibleSince.mp (hpage.subset he)).1,
    hrowsSorted.sublist hstart.sublist, habove, fun n hn => ?_, fun _ s hs e he hvis hsince hle hrow => ?_,
    fun _ s hs => habove s (hlast s hs)⟩
  · -- The cursor is the last number.
    obtain ⟨s, hs, hle⟩ := Page.exists_getLast_of_mem (hrowsSorted.sublist hstart.sublist) hn
    rw [List.getLast?_map] at hs
    exact ⟨s, hs, hle⟩
  · have hs' := hlast s hs
    have hin : e.seq ∈ (visibleSince pageDb userId (targetVaults keysDb userId input.vaultIds) (input.sinceId.getD 0)).map (·.seq) :=
      List.mem_map_of_mem (mem_visibleSince.mpr ⟨he, hvis, hsince⟩)
    have hinPage := Page.mem_of_le hsorted (hpage.map _) (hfrom s hs') hin hle
    have hinRows : e.seq ∈ (pageRows rowsDb page).map (·.seq) := by
      rw [pageRows_seqs, List.mem_filter]
      obtain ⟨row, hrow, hseq⟩ := hrow
      exact ⟨hinPage, List.any_eq_true.mpr ⟨row, hrow, by simpa using hseq⟩⟩
    exact Page.mem_of_le hrowsSorted hstart hs' hinRows hle

end Poll

/-! ## How the events evolve -/

/-- An event as it was before: nothing that happens to an event makes it visible to more feeds. -/
def SyncEvent.Older (e' e : SyncEvent) : Prop :=
  e'.seq = e.seq ∧ ∀ userId targetVaultIds, e.visible userId targetVaultIds = true → e'.visible userId targetVaultIds = true

theorem SyncEvent.Older.refl (e : SyncEvent) : e.Older e := ⟨rfl, fun _ _ h => h⟩

theorem SyncEvent.Older.trans {e e' e'' : SyncEvent} (h : e''.Older e') (h' : e'.Older e) : e''.Older e :=
  ⟨h.1.trans h'.1, fun u t hv => h.2 u t (h'.2 u t hv)⟩

theorem SyncEvent.older_forgetVault (vaultsDeleted : List String) (e : SyncEvent) : e.Older (e.forgetVault vaultsDeleted) := by
  refine ⟨rfl, fun userId targetVaultIds h => ?_⟩
  simp only [SyncEvent.visible, SyncEvent.forgetVault, Bool.or_eq_true, Bool.and_eq_true] at h ⊢
  rcases h with ⟨hv, ht⟩ | h
  · obtain ⟨v, hv, hmem⟩ := (Option.any_eq_true ..).mp hv
    obtain ⟨hv, -⟩ := Option.filter_eq_some_iff.mp hv
    exact .inl ⟨(Option.any_eq_true ..).mpr ⟨v, hv, hmem⟩, ht⟩
  · exact .inr h

/-- What was committed or open at `m`, or came later. -/
structure Moment.Evolves (m n : Moment) : Prop where
  nextSeq : m.nextSeq ≤ n.nextSeq
  opened : ∀ o ∈ n.opened, o ∈ m.opened ∨ m.nextSeq ≤ o.2.seq
  events : ∀ e ∈ n.db.events, (∃ e' ∈ m.db.events, e'.Older e) ∨ (∃ o ∈ m.opened, o.2.Older e) ∨ m.nextSeq ≤ e.seq

theorem Moment.Evolves.refl (m : Moment) : m.Evolves m :=
  ⟨Nat.le_refl _, fun _ h => .inl h, fun e h => .inl ⟨e, h, .refl e⟩⟩

theorem Moment.Evolves.trans {l m n : Moment} (h : l.Evolves m) (h' : m.Evolves n) : l.Evolves n := by
  have hle := h.nextSeq
  refine ⟨hle.trans h'.nextSeq, fun o ho => ?_, fun e he => ?_⟩
  · rcases h'.opened o ho with ho | hnew
    · exact h.opened o ho
    · exact .inr (hle.trans hnew)
  · rcases h'.events e he with ⟨e', he', hold⟩ | ⟨o, ho, hold⟩ | hnew
    · rcases h.events e' he' with ⟨e'', he'', hold'⟩ | ⟨o, ho, hold'⟩ | hnew
      · exact .inl ⟨e'', he'', hold'.trans hold⟩
      · exact .inr (.inl ⟨o, ho, hold'.trans hold⟩)
      · exact .inr (.inr (hold.1 ▸ hnew))
    · rcases h.opened o ho with ho | hnew
      · exact .inr (.inl ⟨o, ho, hold⟩)
      · exact .inr (.inr (hold.1 ▸ hnew))
    · exact .inr (.inr (hle.trans hnew))

theorem Moment.evolves_insert (m : Moment) (tx : Nat) (e : SyncEvent) : m.Evolves (m.insert tx e) := by
  refine ⟨Nat.le_succ _, fun o ho => ?_, fun e h => .inl ⟨e, h, .refl e⟩⟩
  rcases List.mem_append.mp ho with ho | ho
  · exact .inl ho
  · rw [List.mem_singleton.mp ho]
    exact .inr (Nat.le_refl _)

theorem Moment.evolves_rollback (m : Moment) (tx : Nat) : m.Evolves (m.rollback tx) :=
  ⟨Nat.le_refl _, fun _ ho => .inl (List.mem_filter.mp ho).1, fun e h => .inl ⟨e, h, .refl e⟩⟩

theorem Moment.evolves_commit (m : Moment) (tx : Nat) (rows : Db) (deleted : List Nat) (vaultsDeleted : List String) :
    m.Evolves (m.commit tx rows deleted vaultsDeleted) := by
  refine ⟨Nat.le_refl _, fun _ ho => .inl (List.mem_filter.mp ho).1, fun e he => ?_⟩
  obtain ⟨e', he', rfl⟩ := List.mem_map.mp he
  have hold := e'.older_forgetVault vaultsDeleted
  rcases List.mem_append.mp (List.mem_filter.mp he').1 with h | h
  · exact .inl ⟨e', h, hold⟩
  · obtain ⟨o, ho, rfl⟩ := List.mem_map.mp h
    exact .inr (.inl ⟨o, (List.mem_filter.mp ho).1, hold⟩)

/-! ## Sequence numbers are unique -/

/-- Every number is given to one event, and is below the next one. -/
structure Moment.Numbered (m : Moment) : Prop where
  unique : ((m.db.events ++ m.opened.map Prod.snd).map (·.seq)).Nodup
  below : ∀ e ∈ m.db.events ++ m.opened.map Prod.snd, e.seq < m.nextSeq

theorem Moment.Numbered.events_nodup {m : Moment} (h : m.Numbered) : (m.db.events.map (·.seq)).Nodup :=
  h.unique.sublist ((List.sublist_append_left ..).map _)

theorem Moment.Numbered.insert {m : Moment} (h : m.Numbered) (tx : Nat) (e : SyncEvent) : (m.insert tx e).Numbered := by
  have hall : (m.insert tx e).db.events ++ (m.insert tx e).opened.map Prod.snd =
      (m.db.events ++ m.opened.map Prod.snd) ++ [{ e with seq := m.nextSeq }] := by
    simp [Moment.insert]
  refine ⟨?_, fun x hx => ?_⟩
  · rw [hall, List.map_append, List.nodup_append]
    refine ⟨h.unique, by simp, fun n hn k hk hne => ?_⟩
    obtain ⟨x, hx, rfl⟩ := List.mem_map.mp hn
    have hlt := h.below x hx
    simp only [List.map_cons, List.map_nil, List.mem_singleton] at hk
    omega
  · rw [hall] at hx
    show x.seq < m.nextSeq + 1
    rcases List.mem_append.mp hx with hx | hx
    · have := h.below x hx
      omega
    · rw [List.mem_singleton.mp hx]
      exact Nat.lt_succ_self _

theorem Moment.Numbered.rollback {m : Moment} (h : m.Numbered) (tx : Nat) : (m.rollback tx).Numbered := by
  have hsub : (m.db.events ++ (m.opened.filter fun o => o.1 ≠ tx).map Prod.snd).Sublist
      (m.db.events ++ m.opened.map Prod.snd) := List.Sublist.append_left (List.filter_sublist.map _) _
  exact ⟨h.unique.sublist (hsub.map _), fun e he => h.below e (hsub.subset he)⟩

theorem Moment.Numbered.commit {m : Moment} (h : m.Numbered) (tx : Nat) (rows : Db) (deleted : List Nat)
    (vaultsDeleted : List String) : (m.commit tx rows deleted vaultsDeleted).Numbered := by
  let own := (m.opened.filter fun o => o.1 = tx).map Prod.snd
  let others := (m.opened.filter fun o => o.1 ≠ tx).map Prod.snd
  -- The events of the transaction change sides, and some events go.
  have hperm : (m.db.events ++ own ++ others).Perm (m.db.events ++ m.opened.map Prod.snd) := by
    rw [List.append_assoc, ← List.map_append]
    have := List.filter_append_perm (fun o : Nat × SyncEvent => o.1 = tx) m.opened
    simp only [decide_not] at this ⊢
    exact (this.map Prod.snd).append_left _
  have hseqs : (((m.commit tx rows deleted vaultsDeleted).db.events ++ others).map (·.seq)).Sublist
      ((m.db.events ++ own ++ others).map (·.seq)) := by
    rw [List.map_append, List.map_append]
    refine List.Sublist.append ?_ (List.Sublist.refl _)
    show ((List.map _ (List.filter _ (m.db.events ++ own))).map _).Sublist _
    rw [List.map_map]
    exact List.filter_sublist.map _
  refine ⟨((hperm.map _).nodup_iff.mpr h.unique).sublist hseqs, fun e he => ?_⟩
  obtain ⟨e', he', hseq⟩ := List.mem_map.mp (hseqs.subset (List.mem_map_of_mem he))
  have hlt := h.below e' (hperm.mem_iff.mp he')
  show e.seq < m.nextSeq
  omega

/-! ## The invariant -/

/-- Nothing visible is, or will be, behind the cursor of an answer. -/
structure Answer.Honest (a : Answer) (now : Moment) : Prop where
  ascending : (a.response.events.map (·.seq)).Pairwise (· < ·)
  above : ∀ n ∈ a.response.events.map (·.seq), a.since < n
  upTo : ∀ n ∈ a.response.events.map (·.seq), ∃ s, a.response.cursor = some s ∧ n ≤ s
  forward : a.response.requiresFullRefresh = false → ∀ s, a.response.cursor = some s → a.since < s
  given : ∀ s, a.response.cursor = some s → s < now.nextSeq
  opened : ∀ s, a.response.cursor = some s → ∀ o ∈ now.opened, o.2.visible a.userId a.targetVaultIds = true → s < o.2.seq
  seen : ∀ s, a.response.cursor = some s → ∀ e ∈ now.db.events, e.visible a.userId a.targetVaultIds = true → e.seq ≤ s →
    (∃ e' ∈ a.seen, e'.seq = e.seq) ∧
      (a.response.requiresFullRefresh = false → a.since < e.seq → e.seq ∈ a.response.events.map (·.seq))

theorem Answer.Honest.evolves {a : Answer} {m n : Moment} (h : a.Honest m) (he : m.Evolves n) : a.Honest n := by
  have hlater : ∀ s, a.response.cursor = some s → ∀ k, m.nextSeq ≤ k → s < k := fun s hs k hk => by
    have := h.given s hs
    omega
  refine ⟨h.ascending, h.above, h.upTo, h.forward, fun s hs => hlater s hs _ he.nextSeq, fun s hs o ho hvis => ?_,
    fun s hs e hmem hvis hle => ?_⟩
  · rcases he.opened o ho with ho | hnew
    · exact h.opened s hs o ho hvis
    · exact hlater s hs _ hnew
  · rcases he.events e hmem with ⟨e', he', hseq, hold⟩ | ⟨o, ho, hseq, hold⟩ | hnew
    · rw [← hseq]
      exact h.seen s hs e' he' (hold _ _ hvis) (hseq ▸ hle)
    · have := h.opened s hs o ho (hold _ _ hvis)
      omega
    · have := hlater s hs _ hnew
      omega

structure Feed.Inv (f : Feed) : Prop where
  numbered : ∀ m ∈ f.moments, m.Numbered
  evolved : ∀ m ∈ f.moments, m.Evolves f.now
  honest : ∀ a ∈ f.answers, a.Honest f.now

theorem Feed.Inv.advance {f : Feed} (h : f.Inv) {m : Moment} (hn : m.Numbered) (he : f.now.Evolves m) :
    (f.advance m).Inv := by
  refine ⟨fun n hmem => ?_, fun n hmem => ?_, fun a ha => (h.honest a ha).evolves he⟩
  · rcases List.mem_cons.mp hmem with rfl | hmem
    · exact hn
    · exact h.numbered n hmem
  · rcases List.mem_cons.mp hmem with rfl | hmem
    · exact .refl _
    · exact (h.evolved n hmem).trans he

/-- A poll that reads a settled page. -/
theorem Feed.Inv.poll {sizes : Sizes SyncEvent} {f : Feed} (h : f.Inv) {userId : String} {input : GetEventsSinceInput}
    {keysDb cursorDb : Db} {pageAt : Moment} {response : GetEventsSinceResponse} (hpage : pageAt ∈ f.moments)
    (hchanges : changes sizes keysDb cursorDb pageAt.db f.now.db userId input = .ok response)
    (hsettled : ∀ o ∈ pageAt.opened, o.2.visible userId (targetVaults keysDb userId input.vaultIds) = true →
      ∀ e ∈ pageEvents sizes cursorDb pageAt.db userId (targetVaults keysDb userId input.vaultIds) input, e.seq < o.2.seq) :
    Answer.Honest ⟨userId, targetVaults keysDb userId input.vaultIds, input.sinceId.getD 0, pageAt.db.events, response⟩
      f.now := by
  have hserved := changes_served (h.numbered _ hpage).events_nodup hchanges
  have hevolved := h.evolved _ hpage
  have hbelow : ∀ s, response.cursor = some s → s < pageAt.nextSeq := fun s hs => by
    obtain ⟨e, he, rfl⟩ := hserved.cursor s hs
    exact (h.numbered _ hpage).below e (List.mem_append_left _ (hserved.fromPage e he))
  have hopen : ∀ s, response.cursor = some s → ∀ o ∈ pageAt.opened,
      o.2.visible userId (targetVaults keysDb userId input.vaultIds) = true → s < o.2.seq := fun s hs o ho hvis => by
    obtain ⟨e, he, rfl⟩ := hserved.cursor s hs
    exact hsettled o ho hvis e he
  refine ⟨hserved.ascending, hserved.above, hserved.upTo, hserved.forward, fun s hs => ?_, fun s hs o ho hvis => ?_,
    fun s hs e hmem hvis hle => ?_⟩
  · have := hbelow s hs
    have := hevolved.nextSeq
    show s < f.now.nextSeq
    omega
  · rcases hevolved.opened o ho with ho | hnew
    · exact hopen s hs o ho hvis
    · have := hbelow s hs
      omega
  · rcases hevolved.events e hmem with ⟨e', he', hseq, hold⟩ | ⟨o, ho, hseq, hold⟩ | hnew
    · refine ⟨⟨e', he', hseq⟩, fun hpaged hsince => ?_⟩
      rw [← hseq]
      exact hserved.complete hpaged s hs e' he' (hold _ _ hvis) (hseq ▸ hsince) (hseq ▸ hle) ⟨e, hmem, hseq.symm⟩
    · have := hopen s hs o ho (hold _ _ hvis)
      omega
    · have := hbelow s hs
      omega

theorem Feed.Inv.step {sizes : Sizes SyncEvent} {f f' : Feed} (h : f.Inv) {a : FeedStep} (ha : a.settled sizes f = true)
    (hstep : f.step sizes a = some f') : f'.Inv := by
  have hnow := h.numbered f.now (by simp [Feed.moments])
  cases a with
  | insert tx e =>
    cases hstep
    exact h.advance (hnow.insert tx e) (f.now.evolves_insert tx e)
  | commit tx rows deleted vaultsDeleted =>
    cases hstep
    exact h.advance (hnow.commit tx rows deleted vaultsDeleted) (f.now.evolves_commit tx rows deleted vaultsDeleted)
  | rollback tx =>
    cases hstep
    exact h.advance (hnow.rollback tx) (f.now.evolves_rollback tx)
  | poll userId input keys cursor page =>
    simp only [Feed.step, Option.bind_eq_bind, Option.bind_eq_some_iff, Option.guard_eq_some', exists_const,
      Except.toOption_eq_some_iff, Option.pure_def, Option.some.injEq] at hstep
    obtain ⟨-, keysAt, hkeys, cursorAt, hcursor, pageAt, hpage, response, hchanges, rfl⟩ := hstep
    simp only [FeedStep.settled, hkeys, hcursor, hpage, List.all_eq_true, Bool.or_eq_true, Bool.not_eq_true',
      decide_eq_true_eq] at ha
    refine ⟨h.numbered, h.evolved, fun answer hanswer => ?_⟩
    rcases List.mem_cons.mp hanswer with rfl | hanswer
    · refine h.poll (List.mem_of_getElem? hpage) hchanges fun o ho hvis => ?_
      rcases ha o ho with hhidden | hbelow
      · rw [hhidden] at hvis
        cases hvis
      · exact hbelow
    · exact h.honest answer hanswer

/-! ## Following the cursors -/

/-- The pages a client follows are one ascending list, with every event of the feed in it. -/
theorem Follows.exact {now : Moment} {answers : List Answer} {start cursor : Nat} (h : Follows start answers cursor)
    (hhonest : ∀ a ∈ answers, a.Honest now) : start ≤ cursor ∧ (received answers).Pairwise (· < ·) ∧
      (∀ n ∈ received answers, start < n) ∧
      ∀ e ∈ now.db.events, (∀ a ∈ answers, e.visible a.userId a.targetVaultIds = true) → start < e.seq → e.seq ≤ cursor →
        e.seq ∈ received answers := by
  induction h with
  | done cursor => exact ⟨Nat.le_refl _, .nil, fun n hn => (by cases hn), fun e _ _ hlt hle => by omega⟩
  | @page a answers cursor hpaged hrest ih =>
    have ha := hhonest a (by simp)
    obtain ⟨hle, hpw, habove, hall⟩ := ih fun b hb => hhonest b (by simp [hb])
    have hreceived : received (a :: answers) = a.response.events.map (·.seq) ++ received answers := by
      simp [received]
    have hupTo : ∀ n ∈ a.response.events.map (·.seq), n ≤ a.response.cursor.getD a.since := fun n hn => by
      obtain ⟨s, hs, hn⟩ := ha.upTo n hn
      rw [hs, Option.getD_some]
      exact hn
    have hsince : a.since ≤ a.response.cursor.getD a.since := by
      cases hs : a.response.cursor with
      | none => exact Nat.le_refl _
      | some s => exact Nat.le_of_lt (ha.forward hpaged s hs)
    rw [hreceived]
    refine ⟨hsince.trans hle, List.pairwise_append.mpr ⟨ha.ascending, hpw, fun n hn k hk => ?_⟩, fun n hn => ?_,
      fun e he hvis hlt hle' => ?_⟩
    · exact Nat.lt_of_le_of_lt (hupTo n hn) (habove k hk)
    · rcases List.mem_append.mp hn with hn | hn
      · exact ha.above n hn
      · exact Nat.lt_of_le_of_lt hsince (habove n hn)
    · by_cases hpage : e.seq ≤ a.response.cursor.getD a.since
      · cases hs : a.response.cursor with
        | none =>
          rw [hs, Option.getD_none] at hpage
          omega
        | some s =>
          rw [hs, Option.getD_some] at hpage
          exact List.mem_append_left _ ((ha.seen s hs e he (hvis a (by simp)) hpage).2 hpaged hlt)
      · exact List.mem_append_right _ (hall e he (fun b hb => hvis b (by simp [hb])) (by omega) hle')

/-- **The feed has no gaps** in every run whose polls read settled pages. -/
theorem feed_gapFree (sizes : Sizes SyncEvent) (f : Feed)
    (hf : (feed sizes).ReachableUnder (fun f a => a.settled sizes f = true) f) : GapFree f := by
  have hinv : f.Inv := by
    refine System.ReachableUnder.invariant Feed.Inv ?_ (fun f a f' _ h ha hstep => h.step ha hstep) hf
    rintro _ rfl
    refine ⟨fun m hm => ?_, fun m hm => ?_, fun a ha => (by cases ha)⟩
    · obtain rfl := List.mem_singleton.mp hm
      exact ⟨.nil, fun e he => (by cases he)⟩
    · obtain rfl := List.mem_singleton.mp hm
      exact .refl _
  refine ⟨fun a ha s hs e he hvis hle => ((hinv.honest a ha).seen s hs e he hvis hle).1,
    fun answers start cursor hall hfollows e he hvis hlt hle => ?_⟩
  obtain ⟨-, hpw, -, hexact⟩ := hfollows.exact fun a ha => hinv.honest a (hall a ha)
  exact List.count_eq_one_of_mem (hpw.imp fun h => Nat.ne_of_lt h) (hexact e he hvis hlt hle)

/-! ## Two commits in order, and two out of order -/

def flatSizes : Sizes SyncEvent := ⟨fun _ => 4096, fun _ => 256⟩

def bobReads : Db := { Db.empty with vaultKeys := ⟨[⟨"k-bob", "v", "bob", "key-bob", .member⟩], by decide⟩ }

def edited (itemId : String) : SyncEvent := ⟨0, .itemUpdated, itemId, .item, some "v", "ann", 2, none, none⟩

/-- Two transactions insert their events, then commit in the order given; Bob polls in between. -/
def overlapping (first second : Nat) : List FeedStep :=
  [.insert 1 (edited "item-1"), .insert 2 (edited "item-2"), .commit first bobReads [] [],
   .poll "bob" ⟨none, none, none⟩ 0 0 0, .commit second bobReads [] []]

def emptyFeed : Feed := ⟨⟨Db.empty, [], 1⟩, [], []⟩

theorem feed_gapFree_in_order : ∃ f, (feed flatSizes).run emptyFeed (overlapping 1 2) = some f ∧ f.answers.length = 1 ∧ GapFree f := by
  have hrun : ((feed flatSizes).runUnder (fun f a => a.settled flatSizes f = true) emptyFeed (overlapping 1 2)).any
      (fun f => f.answers.length = 1) = true := by decide +kernel
  rw [Option.any_eq_true] at hrun
  obtain ⟨f, hf, hlen⟩ := hrun
  have hreach := System.ReachableUnder.runUnder (M := feed flatSizes) (.init rfl) hf
  exact ⟨f, System.run_of_runUnder hf, of_decide_eq_true hlen, feed_gapFree flatSizes f hreach⟩

/-- An event of its feed is behind the cursor of an answer that has not seen it. -/
def passedBy (f : Feed) : Bool :=
  f.answers.any fun a => a.response.cursor.any fun s => f.now.db.events.any fun e =>
    e.visible a.userId a.targetVaultIds && decide (e.seq ≤ s) && a.seen.all fun e' => e'.seq ≠ e.seq

theorem GapFree.not_passedBy {f : Feed} (h : GapFree f) : passedBy f = false := by
  rw [Bool.eq_false_iff, passedBy]
  intro hany
  obtain ⟨a, ha, hany⟩ := List.any_eq_true.mp hany
  obtain ⟨s, hs, hany⟩ := (Option.any_eq_true ..).mp hany
  obtain ⟨e, he, hmiss⟩ := List.any_eq_true.mp hany
  simp only [Bool.and_eq_true, decide_eq_true_eq, List.all_eq_true] at hmiss
  obtain ⟨e', he', hseq⟩ := h.settled a ha s hs e he hmiss.1.1 hmiss.1.2
  exact hmiss.2 e' he' hseq

/-- The event of the slower transaction becomes visible behind Bob's cursor. -/
theorem slower_commit_is_passed_by : ¬ ∀ (sizes : Sizes SyncEvent) (f : Feed), (feed sizes).Reachable f → GapFree f := by
  intro hall
  have hmiss : ((feed flatSizes).run emptyFeed (overlapping 2 1)).any passedBy = true := by decide +kernel
  rw [Option.any_eq_true] at hmiss
  obtain ⟨f, hf, hmiss⟩ := hmiss
  rw [(hall flatSizes f (System.Reachable.run (.init rfl) hf)).not_passedBy] at hmiss
  cases hmiss

end Bittery
