/-
The cursors of the extension: each is of the feed of the account it is stored for, and passes
only events that the replica of that account has.

A catch-up reads the connection and the active account again after its awaits. So this holds
as long as each step of a catch-up finds the connection it began with, or none, and what it
applies goes to the account of that connection.
-/
import Bittery.Client.SyncLifecycle

namespace Bittery

open Lib

namespace ExtensionSync

/-- What a step of a catch-up is for, as far as it looks for that. -/
def ForAccount (q : ExtensionSync) (accountId : String) : CatchUpAwait → ConnectAnswer → Prop
  | .client connected _, .client available => available = true → connected.or q.activeAccount = some accountId
  | .travelMode _ _ _ _, .travelMode handled => handled = some accountId
  | .candidates _ _ _ _, .candidates accountIds => q.resolveCandidateAccountIds accountIds = [accountId]
  | .refresh _, .accounts accountIds => accountId ∈ accountIds
  | _, _ => True

instance (q : ExtensionSync) (accountId : String) (await : CatchUpAwait) (answer : ConnectAnswer) :
    Decidable (q.ForAccount accountId await answer) := by
  unfold ForAccount
  split <;> infer_instance

/-- A catch-up goes on with the connection it began with, or with none, and for its account. -/
def CatchUpScoped (q : ExtensionSync) (answer : ConnectAnswer) : ConnectAwait → Prop
  | .catchUp began await _ => (∀ c ∈ q.connection, c = began) ∧ q.ForAccount began.accountId await answer
  | _ => True

instance (q : ExtensionSync) (answer : ConnectAnswer) (await : ConnectAwait) : Decidable (q.CatchUpScoped answer await) := by
  unfold CatchUpScoped
  split <;> infer_instance

def Scoped (q : ExtensionSync) : ExtensionSyncLabel → Prop
  | .resume k answer => ∀ t ∈ q.attempts[k]?, q.CatchUpScoped answer t.await
  | _ => True

instance (q : ExtensionSync) : (label : ExtensionSyncLabel) → Decidable (q.Scoped label)
  | .resume k answer => inferInstanceAs (Decidable (∀ t ∈ q.attempts[k]?, q.CatchUpScoped answer t.await))
  | .connect | .initializeSync | .disconnect _ | .cleanupSync | .alarmGoesOff | .handleSyncReconnectAlarm
  | .setActiveAccount _ | .emit _ _ => .isTrue trivial

/-- A cursor that fits, of an event that the server has sent. -/
structure FitsNow (q : ExtensionSync) (scope : SyncConnection) (cursor : FeedCursor) : Prop
    extends q.Fits scope cursor where
  head : cursor.id ≤ q.head scope.accountId

/-- Within a page: what the feed has up to the page's cursor, the replica has, or it is to come. -/
structure OnPage (q : ExtensionSync) (began : SyncConnection) (l : ExtensionCatchUp) (page : CatchUpPage)
    (rest : List SyncEvent) : Prop where
  account : l.accountId = began.accountId
  cursor : q.FitsNow began l.cursor
  head : page.nextCursor l.cursor.id ≤ q.head began.accountId
  pending : ∀ seq ∈ q.feed began.accountId, seq ≤ page.nextCursor l.cursor.id →
    q.Covered began.accountId seq ∨ ∃ e ∈ rest, e.seq = seq

/-- What a catch-up holds for the connection it began with. -/
def Held (q : ExtensionSync) (began : SyncConnection) : CatchUpAwait → Prop
  | .getLastSyncCursor scope => scope = began
  | .initializeSyncBaseline accountId lastCursor => accountId = began.accountId ∧ ∀ cursor ∈ lastCursor, q.FitsNow began cursor
  | .storeBaseline scope cursor | .storeCursor scope cursor => scope = began ∧ q.FitsNow began cursor
  | .client _ cursor => q.FitsNow began cursor
  | .changes l => l.accountId = began.accountId ∧ q.FitsNow began l.cursor
  | .travelMode l page e rest | .candidates l page e rest => q.OnPage began l page (e :: rest)
  | .deltas l page e rest candidates left applied =>
    q.OnPage began l page (e :: rest) ∧ candidates = [began.accountId] ∧ left = candidates ∧ applied = false
  | .clearItemCaches l page e rest candidates =>
    q.OnPage began l page (e :: rest) ∧ candidates = [began.accountId]
  | .refresh l => (l.cursor.id ≠ 0 → l.cursor.feed = began) ∧ l.cursor.id ≤ q.head began.accountId

/-- An await of a connection, with what a catch-up holds. -/
def AwaitHeld (serverUrlOf : String → String) (q : ExtensionSync) : ConnectAwait → Prop
  | .catchUp began await _ => began.serverUrl = serverUrlOf began.accountId ∧ q.Held began await
  | _ => True

structure Cursors (serverUrlOf : String → String) (q : ExtensionSync) : Prop where
  feed : ∀ accountId, ∀ seq ∈ q.feed accountId, seq ≤ q.head accountId
  connection : ∀ c ∈ q.connection, c.serverUrl = serverUrlOf c.accountId
  stored : ∀ scope cursor, q.cursors scope = some cursor → q.FitsNow scope cursor
  applied : ∀ a ∈ q.applied, a.accountId = a.feed
  held : ∀ t ∈ q.attempts, q.AwaitHeld serverUrlOf t.await

/-! ## What grows -/

/-- More is applied and refreshed, and what is new in a feed is newer than its head was. -/
structure Grows (q q' : ExtensionSync) : Prop where
  applied : ∀ a ∈ q.applied, a ∈ q'.applied
  snapshots : ∀ s ∈ q.snapshots, s ∈ q'.snapshots
  head : ∀ accountId, q.head accountId ≤ q'.head accountId
  feed : ∀ accountId, ∀ seq ∈ q'.feed accountId, seq ≤ q.head accountId → seq ∈ q.feed accountId

variable {q q' : ExtensionSync} {serverUrlOf : String → String} {began scope : SyncConnection}
  {l : ExtensionCatchUp} {page : CatchUpPage} {e : SyncEvent} {rest : List SyncEvent}

theorem Grows.covered (hgrows : Grows q q') {accountId : String} {seq : Nat} (h : q.Covered accountId seq) :
    q'.Covered accountId seq := by
  rcases h with happlied | ⟨newest, hnewest, hle⟩
  · exact .inl (hgrows.applied _ happlied)
  · exact .inr ⟨newest, hgrows.snapshots _ hnewest, hle⟩

theorem Grows.fitsNow (hgrows : Grows q q') {cursor : FeedCursor} (h : q.FitsNow scope cursor) :
    q'.FitsNow scope cursor where
  feed := h.feed
  covered seq hseq hle :=
    hgrows.covered (h.covered seq (hgrows.feed _ seq hseq (Nat.le_trans hle h.head)) hle)
  head := Nat.le_trans h.head (hgrows.head _)

theorem Grows.onPage (hgrows : Grows q q') (h : q.OnPage began l page rest) : q'.OnPage began l page rest where
  account := h.account
  cursor := hgrows.fitsNow h.cursor
  head := Nat.le_trans h.head (hgrows.head _)
  pending seq hseq hle :=
    (h.pending seq (hgrows.feed _ seq hseq (Nat.le_trans hle h.head)) hle).imp hgrows.covered id

theorem Grows.held (hgrows : Grows q q') {await : CatchUpAwait} (h : q.Held began await) : q'.Held began await := by
  cases await with
  | getLastSyncCursor => exact h
  | initializeSyncBaseline => exact ⟨h.1, fun cursor hcursor => hgrows.fitsNow (h.2 cursor hcursor)⟩
  | storeBaseline | storeCursor | changes => exact ⟨h.1, hgrows.fitsNow h.2⟩
  | client => exact hgrows.fitsNow h
  | travelMode | candidates => exact hgrows.onPage h
  | deltas | clearItemCaches => exact ⟨hgrows.onPage h.1, h.2⟩
  | refresh => exact ⟨h.1, Nat.le_trans h.2 (hgrows.head _)⟩

theorem Grows.of_eq (happlied : ∀ a ∈ q.applied, a ∈ q'.applied) (hsnapshots : ∀ s ∈ q.snapshots, s ∈ q'.snapshots)
    (hhead : q'.head = q.head) (hfeed : q'.feed = q.feed) : Grows q q' where
  applied := happlied
  snapshots := hsnapshots
  head _ := by rw [hhead]
  feed _ _ hseq _ := by rwa [hfeed] at hseq

/-- **What keeps the cursors.** More is applied, each event to its account; a cursor that is newly
stored fits; and an attempt that goes on holds what fits its connection. -/
theorem Cursors.onward (h : q.Cursors serverUrlOf) (hgrows : Grows q q')
    (hfeed : ∀ accountId, ∀ seq ∈ q'.feed accountId, seq ≤ q'.head accountId)
    (hconnection : ∀ c ∈ q'.connection, c.serverUrl = serverUrlOf c.accountId)
    (hstored : ∀ scope cursor, q'.cursors scope = some cursor → q.cursors scope = some cursor ∨ q'.FitsNow scope cursor)
    (happlied : ∀ a ∈ q'.applied, a ∈ q.applied ∨ a.accountId = a.feed)
    (hheld : ∀ t ∈ q'.attempts, q'.AwaitHeld serverUrlOf t.await ∨ ∃ t' ∈ q.attempts, t'.await = t.await) :
    q'.Cursors serverUrlOf where
  feed := hfeed
  connection := hconnection
  stored scope cursor hcursor := (hstored scope cursor hcursor).elim (fun hold => hgrows.fitsNow (h.stored _ _ hold)) id
  applied a ha := (happlied a ha).elim (h.applied a) id
  held t ht := by
    rcases hheld t ht with hheld | ⟨t', ht', hawait⟩
    · exact hheld
    · have hbefore := h.held t' ht'
      rw [hawait] at hbefore
      cases hcase : t.await with
      | catchUp began await next =>
        rw [hcase] at hbefore
        exact ⟨hbefore.1, hgrows.held hbefore.2⟩
      | _ => trivial

/-! ## A catch-up -/

theorem OnPage.tail (h : q.OnPage began l page (e :: rest))
    (hcovered : e.seq ∈ q.feed began.accountId → q.Covered began.accountId e.seq) : q.OnPage began l page rest where
  account := h.account
  cursor := h.cursor
  head := h.head
  pending seq hseq hle := by
    rcases h.pending seq hseq hle with hdone | ⟨e', he', heq⟩
    · exact .inl hdone
    · rcases List.mem_cons.mp he' with rfl | he'
      · exact .inl (heq ▸ hcovered (heq ▸ hseq))
      · exact .inr ⟨e', he', heq⟩

theorem nextCursor_id (serverUrlOf : String → String) (l : ExtensionCatchUp) (page : CatchUpPage) :
    (nextCursor serverUrlOf l page).id = page.nextCursor l.cursor.id := by
  unfold nextCursor CatchUpPage.nextCursor
  cases page.cursor.or (page.events.getLast?.map (·.seq)) <;> rfl

theorem nextCursor_feed (hserver : began.serverUrl = serverUrlOf began.accountId) (haccount : l.accountId = began.accountId)
    (hfeed : l.cursor.id ≠ 0 → l.cursor.feed = began) (page : CatchUpPage)
    (hne : (nextCursor serverUrlOf l page).id ≠ 0) : (nextCursor serverUrlOf l page).feed = began := by
  unfold nextCursor at hne ⊢
  split
  · simp only [haccount, ← hserver]
  · next heq =>
    rw [heq] at hne
    exact hfeed hne

/-- The cursor after a page that was applied. -/
theorem OnPage.nextCursor (h : q.OnPage began l page []) (hserver : began.serverUrl = serverUrlOf began.accountId) :
    q.FitsNow began (nextCursor serverUrlOf l page) where
  feed := nextCursor_feed hserver h.account h.cursor.feed page
  covered seq hseq hle := by
    rw [nextCursor_id] at hle
    simpa using h.pending seq hseq hle
  head := by
    rw [nextCursor_id]
    exact h.head

theorem finish_held (hconnection : ∀ c ∈ q.connection, c = began) (hcursor : q.FitsNow began l.cursor) :
    ∀ await ∈ q.finish l, q.Held began await := by
  intro await hawait
  obtain ⟨c, hc, rfl⟩ := Option.map_eq_some_iff.mp hawait
  exact ⟨hconnection c hc, hcursor⟩

theorem OnPage.nextEvent (h : q.OnPage began l page rest) (hserver : began.serverUrl = serverUrlOf began.accountId)
    (hconnection : ∀ c ∈ q.connection, c = began) : ∀ await ∈ q.nextEvent serverUrlOf l page rest, q.Held began await := by
  intro await hawait
  cases rest with
  | nil =>
    simp only [ExtensionSync.nextEvent, ExtensionSync.pageDone] at hawait
    split at hawait
    · cases hawait
      exact ⟨h.account, h.nextCursor hserver⟩
    · exact finish_held hconnection (h.nextCursor hserver) await hawait
  | cons e rest =>
    simp only [ExtensionSync.nextEvent] at hawait
    split at hawait
    · cases hawait
      exact h
    · cases hawait
      exact h

/-- The cursor of a page that asks for a full refresh. -/
theorem refreshCursor_le {feed : List Nat} {head since : Nat} (hsince : since ≤ head)
    (hpage : page.isOf feed head since = true) : CatchUpPage.nextCursor { page with events := [] } since ≤ head := by
  have hle := of_decide_eq_true (Bool.and_eq_true_iff.mp hpage).1
  rw [Nat.max_eq_left hsince] at hle
  cases hcursor : page.cursor with
  | none => simpa [CatchUpPage.nextCursor, hcursor] using hsince
  | some id => simpa [CatchUpPage.nextCursor, hcursor] using hle

/-- A page of the feed of an account, before its first event is applied. -/
theorem onPage_of_isOf (haccount : l.accountId = began.accountId) (hcursor : q.FitsNow began l.cursor)
    (hpage : page.isOf (q.feed l.accountId) (q.head l.accountId) l.cursor.id = true)
    (hfull : page.requiresFullRefresh = false) : q.OnPage began l page page.events := by
  rw [haccount] at hpage
  simp only [CatchUpPage.isOf, hfull, Bool.false_or, Bool.and_eq_true, decide_eq_true_eq] at hpage
  obtain ⟨hhead, hevents⟩ := hpage
  refine ⟨haccount, hcursor, Nat.le_trans hhead (Nat.max_le.mpr ⟨Nat.le_refl _, hcursor.head⟩), fun seq hseq hle => ?_⟩
  rcases Nat.lt_or_ge l.cursor.id seq with hlt | hge
  · have hmem : seq ∈ page.events.map SyncEvent.seq := by
      rw [hevents]
      simp [hseq, hlt, hle]
    obtain ⟨e, he, heq⟩ := List.mem_map.mp hmem
    exact .inr ⟨e, he, heq⟩
  · exact .inl (hcursor.covered seq hseq hge)

theorem Cursors.record (h : q.Cursors serverUrlOf) (haccount : l.accountId = began.accountId) (e : SyncEvent) :
    (q.record l e began.accountId).Cursors serverUrlOf := by
  refine h.onward (.of_eq (fun a ha => List.mem_cons_of_mem _ ha) (fun _ hs => hs) rfl rfl) h.feed h.connection
    (fun _ _ hcursor => .inl hcursor) (fun a ha => ?_) fun t ht => .inr ⟨t, ht, rfl⟩
  rcases List.mem_cons.mp ha with rfl | ha
  · exact .inr haccount.symm
  · exact .inl ha

theorem record_grows (q : ExtensionSync) (l : ExtensionCatchUp) (e : SyncEvent) (accountId : String) :
    Grows q (q.record l e accountId) :=
  .of_eq (fun _ ha => List.mem_cons_of_mem _ ha) (fun _ hs => hs) rfl rfl

theorem record_covered (haccount : l.accountId = began.accountId) (e : SyncEvent) :
    (q.record l e began.accountId).Covered began.accountId e.seq := by
  refine .inl ?_
  simp [ExtensionSync.record, haccount]

theorem cover_grows (q : ExtensionSync) (accountIds : List String) : Grows q (q.cover accountIds) :=
  .of_eq (fun _ ha => ha) (fun _ hs => List.mem_append_right _ hs) rfl rfl

theorem Cursors.cover (h : q.Cursors serverUrlOf) (accountIds : List String) :
    (q.cover accountIds).Cursors serverUrlOf :=
  h.onward (cover_grows q accountIds) h.feed h.connection (fun _ _ hcursor => .inl hcursor) (fun _ ha => .inl ha)
    fun t ht => .inr ⟨t, ht, rfl⟩

/-- What an account's server has sent so far, its refreshed replica has. -/
theorem cover_covered (h : q.Cursors serverUrlOf) {accountId : String} {accountIds : List String}
    (hmem : accountId ∈ accountIds) {seq : Nat} (hseq : seq ∈ q.feed accountId) :
    (q.cover accountIds).Covered accountId seq := by
  refine .inr ⟨q.head accountId, List.mem_append_left _ ?_, h.feed accountId seq hseq⟩
  exact List.mem_map.mpr ⟨accountId, hmem, rfl⟩

theorem store_grows (q : ExtensionSync) (scope : SyncConnection) (cursor : FeedCursor) : Grows q (q.store scope cursor) :=
  .of_eq (fun _ ha => ha) (fun _ hs => hs) rfl rfl

theorem Cursors.store (h : q.Cursors serverUrlOf) {cursor : FeedCursor} (hcursor : q.FitsNow scope cursor) :
    (q.store scope cursor).Cursors serverUrlOf := by
  have hgrows := store_grows q scope cursor
  refine h.onward hgrows h.feed h.connection (fun other cursor' hstored => ?_) (fun _ ha => .inl ha)
    fun t ht => .inr ⟨t, ht, rfl⟩
  by_cases heq : other = scope
  · subst heq
    simp only [ExtensionSync.store, Function.update_self, Option.some.injEq] at hstored
    exact .inr (hgrows.fitsNow (hstored ▸ hcursor))
  · simp only [ExtensionSync.store, Function.update_of_ne heq] at hstored
    exact .inl hstored

/-- One step of a catch-up. -/
theorem Cursors.catchUpStep (h : q.Cursors serverUrlOf) (hserver : began.serverUrl = serverUrlOf began.accountId)
    {await : CatchUpAwait} {answer : ConnectAnswer} {await' : Option CatchUpAwait} (hheld : q.Held began await)
    (hconnection : ∀ c ∈ q.connection, c = began) (hfor : q.ForAccount began.accountId await answer)
    (hstep : q.catchUpStep serverUrlOf await answer = some (q', await')) :
    q'.Cursors serverUrlOf ∧ ∀ await ∈ await', q'.Held began await := by
  unfold ExtensionSync.catchUpStep at hstep
  split at hstep
  -- getLastSyncCursor
  case h_1 scope =>
    obtain rfl : scope = began := hheld
    split at hstep
    · next lastCursor hlast _ =>
      cases hstep
      refine ⟨h, fun await hawait => ?_⟩
      cases hawait
      exact h.stored _ _ hlast
    · cases hstep
      refine ⟨h, fun await hawait => ?_⟩
      obtain ⟨c, hc, rfl⟩ := Option.map_eq_some_iff.mp hawait
      exact ⟨congrArg _ (hconnection c hc), fun cursor hcursor => h.stored _ _ hcursor⟩
  -- initializeSyncBaseline
  case h_2 accountId lastCursor committed =>
    obtain ⟨rfl, hlast⟩ := hheld
    split at hstep
    · cases hstep
    · cases hstep
      refine ⟨h, fun await hawait => ?_⟩
      obtain ⟨c, hc, rfl⟩ := Option.map_eq_some_iff.mp hawait
      exact ⟨hconnection c hc, hlast _ rfl⟩
    · split at hstep
      · next committed hle =>
        cases hstep
        have hgrows : Grows q { q with snapshots := (began.accountId, committed.getD 0) :: q.snapshots } :=
          .of_eq (fun _ ha => ha) (fun _ hs => List.mem_cons_of_mem _ hs) rfl rfl
        refine ⟨h.onward hgrows h.feed h.connection (fun _ _ hcursor => .inl hcursor) (fun _ ha => .inl ha)
          fun t ht => .inr ⟨t, ht, rfl⟩, fun await hawait => ?_⟩
        obtain ⟨c, hc, rfl⟩ := Option.map_eq_some_iff.mp hawait
        refine ⟨hconnection c hc, ⟨fun _ => ?_, fun seq _ hseq => .inr ⟨_, List.mem_cons_self, hseq⟩⟩, hle⟩
        rw [← hserver]
      · cases hstep
  -- storeBaseline
  case h_3 scope cursor =>
    obtain ⟨rfl, hcursor⟩ := hheld
    cases hstep
    have hstored := h.store hcursor
    have hgrows : Grows (q.store scope cursor) { q.store scope cursor with syncBaselineValidated := true } :=
      .of_eq (fun _ ha => ha) (fun _ hs => hs) rfl rfl
    refine ⟨hstored.onward hgrows hstored.feed hstored.connection (fun _ _ hcursor => .inl hcursor)
      (fun _ ha => .inl ha) fun t ht => .inr ⟨t, ht, rfl⟩, fun await hawait => ?_⟩
    cases hawait
    exact hgrows.fitsNow ((store_grows q scope cursor).fitsNow hcursor)
  -- client
  case h_4 connected cursor available =>
    cases hstep
    refine ⟨h, fun await hawait => ?_⟩
    cases available with
    | false => cases hawait
    | true =>
      rw [if_pos rfl, show connected.or q.activeAccount = some began.accountId from hfor rfl] at hawait
      cases hawait
      exact ⟨rfl, hheld⟩
  -- changes
  case h_5 l page =>
    obtain ⟨haccount, hcursor⟩ := hheld
    split at hstep
    · next hpage =>
      cases hstep
      refine ⟨h, fun await hawait => ?_⟩
      split at hawait
      · cases hawait
        refine ⟨nextCursor_feed hserver haccount hcursor.feed _, ?_⟩
        rw [nextCursor_id]
        exact refreshCursor_le hcursor.head (haccount ▸ hpage)
      · next hfull =>
        exact (onPage_of_isOf haccount hcursor hpage (by simpa using hfull)).nextEvent hserver hconnection await hawait
    · cases hstep
  -- travelMode
  case h_6 l page e rest handled =>
    obtain rfl : handled = some began.accountId := hfor
    cases hstep
    have hon : q.OnPage began l page (e :: rest) := hheld
    refine ⟨h.record hon.account e, ?_⟩
    exact (((record_grows q l e began.accountId).onPage hon).tail fun _ => record_covered hon.account e).nextEvent hserver
      hconnection
  -- candidates
  case h_7 l page e rest accountIds =>
    rw [show q.resolveCandidateAccountIds accountIds = [began.accountId] from hfor] at hstep
    cases hstep
    refine ⟨h, fun await hawait => ?_⟩
    cases hawait
    exact ⟨hheld, rfl, rfl, rfl⟩
  -- deltas
  case h_8 l page e rest candidates accountId left applied outcome =>
    obtain ⟨hon, rfl, hleft, rfl⟩ := hheld
    cases hleft
    cases outcome with
    | applied =>
      cases hstep
      refine ⟨h.record hon.account e, ?_⟩
      exact (((record_grows q l e began.accountId).onPage hon).tail fun _ => record_covered hon.account e).nextEvent hserver
        hconnection
    | noToken =>
      cases hstep
      refine ⟨h, fun await hawait => ?_⟩
      cases hawait
      exact ⟨hon, rfl⟩
    | failed =>
      cases hstep
      exact ⟨h, fun _ hawait => by cases hawait⟩
  -- clearItemCaches
  case h_9 l page e rest candidates =>
    obtain ⟨hon, rfl⟩ := hheld
    cases hstep
    refine ⟨h.cover _, ?_⟩
    exact (((cover_grows q _).onPage hon).tail fun hseq => cover_covered h List.mem_cons_self hseq).nextEvent hserver
      hconnection
  -- refresh
  case h_10 l accountIds =>
    cases hstep
    refine ⟨h.cover _, finish_held (q := q.cover accountIds) hconnection ⟨⟨hheld.1, fun seq hseq _ => ?_⟩, hheld.2⟩⟩
    exact cover_covered h hfor hseq
  -- storeCursor
  case h_11 scope cursor =>
    obtain ⟨rfl, hcursor⟩ := hheld
    cases hstep
    exact ⟨h.store hcursor, fun _ hawait => by cases hawait⟩
  case h_12 =>
    cases hstep
    exact ⟨h, fun _ hawait => by cases hawait⟩
  case h_13 => cases hstep

/-! ## The manager -/

/-- Only the connection, and what else no cursor depends on, has changed. -/
theorem Cursors.of_same (h : q.Cursors serverUrlOf) (happlied : q'.applied = q.applied)
    (hsnapshots : q'.snapshots = q.snapshots) (hhead : q'.head = q.head) (hfeed : q'.feed = q.feed)
    (hcursors : q'.cursors = q.cursors) (hattempts : q'.attempts = q.attempts)
    (hconnection : ∀ c ∈ q'.connection, c.serverUrl = serverUrlOf c.accountId) : q'.Cursors serverUrlOf := by
  refine h.onward (.of_eq (by simp [happlied]) (by simp [hsnapshots]) hhead hfeed) ?_ hconnection
    (fun _ _ hcursor => .inl (hcursors ▸ hcursor)) (fun _ ha => .inl (happlied ▸ ha))
    fun t ht => .inr ⟨t, hattempts ▸ ht, rfl⟩
  rw [hfeed, hhead]
  exact h.feed

theorem Cursors.setStatus (h : q.Cursors serverUrlOf) (status : ConnectionStatus) :
    (q.setStatus status).Cursors serverUrlOf :=
  h.of_same rfl rfl rfl rfl rfl rfl h.connection

theorem Cursors.scheduleReconnect (h : q.Cursors serverUrlOf) : q.scheduleReconnect.Cursors serverUrlOf := by
  unfold ExtensionSync.scheduleReconnect
  split
  · exact h
  · exact h.of_same rfl rfl rfl rfl rfl rfl h.connection

theorem Cursors.processFrames (h : q.Cursors serverUrlOf) (frames : List SseFrame) :
    q.AwaitHeld serverUrlOf (q.processFrames frames) := by
  induction frames with
  | nil => trivial
  | cons frame rest ih =>
    cases frame with
    | other => exact ih
    | sessionRevoked => trivial
    | sync =>
      simp only [ExtensionSync.processFrames]
      split
      · exact ih
      · next scope hscope => exact ⟨h.connection scope hscope, rfl⟩

theorem Cursors.catchUpMissedEvents (h : q.Cursors serverUrlOf) : q.AwaitHeld serverUrlOf q.catchUpMissedEvents := by
  unfold ExtensionSync.catchUpMissedEvents
  cases hscope : q.connection with
  | none => trivial
  | some scope => exact ⟨h.connection scope hscope, rfl⟩

/-- An attempt goes on to an await of which it holds what it should. -/
theorem Cursors.goOn (h : q.Cursors serverUrlOf) {await : ConnectAwait} (hheld : q.AwaitHeld serverUrlOf await)
    (k : Nat) (t : ConnectAttempt) :
    ({ q with attempts := q.attempts.set k { t with await := await } } : ExtensionSync).Cursors serverUrlOf := by
  have hgrows : Grows q { q with attempts := q.attempts.set k { t with await := await } } :=
    .of_eq (fun _ ha => ha) (fun _ hs => hs) rfl rfl
  refine h.onward hgrows h.feed h.connection (fun _ _ hcursor => .inl hcursor) (fun _ ha => .inl ha) fun x hx => ?_
  rcases List.mem_or_eq_of_mem_set hx with hx | rfl
  · exact .inr ⟨x, hx, rfl⟩
  · refine .inl ?_
    cases await with
    | catchUp began await next => exact ⟨hheld.1, hgrows.held hheld.2⟩
    | _ => trivial

theorem Cursors.resume (h : q.Cursors serverUrlOf) {k : Nat} {before after : ConnectAwait} {answer : ConnectAnswer}
    (hheld : q.AwaitHeld serverUrlOf before)
    (hscoped : q.CatchUpScoped answer before)
    (hq' : q.resume serverUrlOf k before answer = some (q', after)) :
    q'.Cursors serverUrlOf ∧ q'.AwaitHeld serverUrlOf after := by
  have hfailed : q.connectionFailed.1.Cursors serverUrlOf := (h.setStatus _).scheduleReconnect
  unfold ExtensionSync.resume at hq'
  split at hq'
  -- the context
  case h_1 =>
    cases hq'
    exact ⟨h.setStatus _, trivial⟩
  case h_2 accountId =>
    cases hq'
    refine ⟨h.of_same rfl rfl rfl rfl rfl rfl fun c hc => ?_, trivial⟩
    cases hc
    rfl
  -- the stream opens
  case h_3 =>
    cases hq'
    exact ⟨h.of_same rfl rfl rfl rfl rfl rfl h.connection, trivial⟩
  case h_5 =>
    cases hq'
    exact ⟨h, h.catchUpMissedEvents⟩
  -- a catch-up
  case h_6 began await next =>
    obtain ⟨⟨q'', await'⟩, hstep, heq⟩ := Option.map_eq_some_iff.mp hq'
    cases heq
    obtain ⟨hconnection, hfor⟩ := hscoped
    obtain ⟨hcursors, hafter⟩ := h.catchUpStep hheld.1 hheld.2 hconnection hfor hstep
    refine ⟨hcursors, ?_⟩
    cases await' with
    | some await' => exact ⟨hheld.1, hafter await' rfl⟩
    | none =>
      cases next with
      | push => trivial
      | frames rest => exact hcursors.processFrames rest
  -- the stream
  case h_8 frames =>
    cases hq'
    exact ⟨h, h.processFrames frames⟩
  case h_9 =>
    cases hq'
    refine ⟨Cursors.scheduleReconnect ?_, trivial⟩
    split
    · exact h
    · exact h.setStatus _
  case h_10 rest =>
    cases hq'
    exact ⟨h, h.processFrames rest⟩
  case h_11 | h_12 =>
    cases hq'
    exact ⟨(h.setStatus _).scheduleReconnect, trivial⟩
  case h_7 | h_13 | h_14 =>
    cases hq'
    exact ⟨h, trivial⟩
  case h_4 | h_15 | h_16 | h_17 =>
    cases hq'
    exact ⟨hfailed, trivial⟩
  case h_18 => cases hq'

theorem Cursors.connect (h : q.Cursors serverUrlOf) : q.connect.Cursors serverUrlOf := by
  unfold ExtensionSync.connect
  split
  · exact h
  · refine h.onward (.of_eq (fun _ ha => ha) (fun _ hs => hs) rfl rfl) h.feed h.connection
      (fun _ _ hcursor => .inl hcursor) (fun _ ha => .inl ha) fun t ht => ?_
    rcases List.mem_append.mp ht with ht | ht
    · exact .inr ⟨t, ht, rfl⟩
    · obtain rfl := List.mem_singleton.mp ht
      exact .inl trivial

theorem Cursors.disconnect (h : q.Cursors serverUrlOf) (suppressReconnect : Bool) :
    (q.disconnect suppressReconnect).Cursors serverUrlOf := by
  refine h.onward (.of_eq (fun _ ha => ha) (fun _ hs => hs) rfl rfl) h.feed (fun c hc => ?_)
    (fun _ _ hcursor => .inl hcursor) (fun _ ha => .inl ha) fun t ht => .inr (disconnect_await ht)
  cases hc

/-- The cursor of the connection is removed. -/
theorem Cursors.cleanupSync (h : q.Cursors serverUrlOf) : q.cleanupSync.Cursors serverUrlOf := by
  have hdisconnected := h.disconnect false
  refine hdisconnected.onward (.of_eq (fun _ ha => ha) (fun _ hs => hs) rfl rfl) hdisconnected.feed
    hdisconnected.connection (fun scope cursor hcursor => .inl ?_) (fun _ ha => .inl ha) fun t ht => .inr ⟨t, ht, rfl⟩
  simp only [ExtensionSync.cleanupSync] at hcursor
  cases hconnection : q.connection with
  | none =>
    rw [hconnection] at hcursor
    exact hcursor
  | some gone =>
    rw [hconnection] at hcursor
    by_cases heq : scope = gone
    · simp [heq] at hcursor
    · have hold : q.cursors scope = some cursor := by
        simpa only [Option.elim_some, Function.update_of_ne heq] using hcursor
      exact hold

/-- The server of an account has a new event for it. -/
theorem Cursors.emit (h : q.Cursors serverUrlOf) {accountId : String} {seq : Nat} (hnew : q.head accountId < seq) :
    ({ q with
      feed := Function.update q.feed accountId (q.feed accountId ++ [seq])
      head := Function.update q.head accountId seq } : ExtensionSync).Cursors serverUrlOf := by
  have hfeed : ∀ other, ∀ seq' ∈ Function.update q.feed accountId (q.feed accountId ++ [seq]) other,
      seq' ∈ q.feed other ∨ (other = accountId ∧ seq' = seq) := by
    intro other seq' hseq'
    by_cases heq : other = accountId
    · subst heq
      simp only [Function.update_self, List.mem_append, List.mem_singleton] at hseq'
      exact hseq'.imp id fun hseq' => ⟨rfl, hseq'⟩
    · rw [Function.update_of_ne heq] at hseq'
      exact .inl hseq'
  have hhead : ∀ other, q.head other ≤ Function.update q.head accountId seq other := by
    intro other
    by_cases heq : other = accountId
    · subst heq
      rw [Function.update_self]
      exact Nat.le_of_lt hnew
    · rw [Function.update_of_ne heq]
  refine h.onward ⟨fun _ ha => ha, fun _ hs => hs, hhead, fun other seq' hseq' hle => ?_⟩ (fun other seq' hseq' => ?_)
    h.connection (fun _ _ hcursor => .inl hcursor) (fun _ ha => .inl ha) fun t ht => .inr ⟨t, ht, rfl⟩
  · rcases hfeed other seq' hseq' with hold | ⟨rfl, rfl⟩
    · exact hold
    · omega
  · rcases hfeed other seq' hseq' with hold | ⟨rfl, rfl⟩
    · exact Nat.le_trans (h.feed other seq' hold) (hhead other)
    · simp

theorem Cursors.step (h : q.Cursors serverUrlOf) {label : ExtensionSyncLabel} (hscoped : q.Scoped label)
    (hq' : q.step serverUrlOf label = some q') : q'.Cursors serverUrlOf := by
  have hsame : ∀ revoked stopped alarm alarmEvents activeAccount, ({ q with
      revoked := revoked
      stopped := stopped
      alarm := alarm
      alarmEvents := alarmEvents
      activeAccount := activeAccount } : ExtensionSync).Cursors serverUrlOf := fun _ _ _ _ _ =>
    h.of_same rfl rfl rfl rfl rfl rfl h.connection
  cases label with
  | connect =>
    cases hq'
    exact (hsame _ _ _ _ _).connect
  | initializeSync =>
    cases hq'
    exact (hsame _ _ _ _ _).connect
  | disconnect suppressReconnect =>
    cases hq'
    have hdisconnected := h.disconnect suppressReconnect
    exact hdisconnected.of_same rfl rfl rfl rfl rfl rfl hdisconnected.connection
  | cleanupSync =>
    cases hq'
    exact h.cleanupSync.of_same rfl rfl rfl rfl rfl rfl h.cleanupSync.connection
  | alarmGoesOff =>
    simp only [ExtensionSync.step] at hq'
    split at hq'
    · cases hq'
      exact hsame _ _ _ _ _
    · cases hq'
  | handleSyncReconnectAlarm =>
    simp only [ExtensionSync.step] at hq'
    split at hq'
    · cases hq'
    · cases hq'
      split
      · exact hsame _ _ _ _ _
      · exact (hsame _ _ _ _ _).connect
  | resume k answer =>
    simp only [ExtensionSync.step, Option.bind_eq_bind, Option.bind_eq_some_iff, Option.pure_def, Option.some.injEq,
      Prod.exists] at hq'
    obtain ⟨t, hk, q'', await, hresume, rfl⟩ := hq'
    obtain ⟨hcursors, hheld⟩ := h.resume (h.held t (List.mem_of_getElem? hk)) (hscoped t hk) hresume
    exact hcursors.goOn hheld k t
  | setActiveAccount accountId =>
    cases hq'
    exact hsame _ _ _ _ _
  | emit accountId seq =>
    simp only [ExtensionSync.step] at hq'
    split at hq'
    · next hnew =>
      cases hq'
      exact h.emit hnew
    · cases hq'

theorem Initial.cursorsHold (h : q.Initial) (serverUrlOf : String → String) : q.Cursors serverUrlOf where
  feed := h.feed
  connection c hc := by simp [h.connection] at hc
  stored scope cursor hcursor := ⟨(h.cursors scope cursor hcursor).1, (h.cursors scope cursor hcursor).2⟩
  applied := h.applied
  held t ht := by simp [h.attempts] at ht

/-- Each event is applied to its account, and a stored cursor is of the feed of its account and
passes only what the replica of that account has. -/
structure KeepsAccounts (q : ExtensionSync) : Prop where
  applied : ∀ a ∈ q.applied, a.accountId = a.feed
  stored : ∀ scope cursor, q.cursors scope = some cursor → q.Fits scope cursor

end ExtensionSync

theorem extensionSync_cursors {serverUrlOf : String → String} {q : ExtensionSync}
    (h : (extensionSync serverUrlOf).ReachableUnder ExtensionSync.Scoped q) : q.Cursors serverUrlOf :=
  h.invariant (ExtensionSync.Cursors serverUrlOf) (fun _ hq => ExtensionSync.Initial.cursorsHold hq serverUrlOf)
    fun _ _ _ _ hcursors hscoped hstep => hcursors.step hscoped hstep

def exampleServerOf (accountId : String) : String := "https://" ++ accountId ++ ".example"

/-- The worker has caught up with alice's feed and asks for the next page. -/
def askingForChanges : List ExtensionSyncLabel :=
  [.initializeSync, .resume 0 (.context (some "alice")), .resume 0 (.response true true), .resume 0 .resolved,
    .resume 0 .resolved, .resume 0 (.initialized (some none)), .resume 0 .resolved, .resume 0 (.client true),
    .emit "alice" 5]

def alicesPage : CatchUpPage := ⟨[⟨5, .itemUpdated, "item", .item, some "v", "alice", 2, none, none⟩], false, false, some 5⟩

end Bittery
