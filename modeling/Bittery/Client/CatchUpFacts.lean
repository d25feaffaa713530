/-
The catch-up never passes an event: what its steps keep, and how long its loop can run.

While a page is applied the stored cursor is before every event of it that is to come, and
at or after every one that is done. The loop itself can go on for as long as the server
answers with more to come and a cursor other than the one it was asked with, so a server
that alternates between two cursors keeps it for ever.
-/
import Mathlib.Data.Prod.Lex
import Mathlib.Order.WellFounded
import Bittery.Client.CatchUp
import Bittery.Server.EventFeed

namespace Bittery

open Lib

variable {s t : Orchestrator} {l : CatchUp} {page : CatchUpPage} {e : SyncEvent} {rest : List SyncEvent} {o : SyncOptions}

/-! ## Pages -/

/-- What a page that answers hands out is not before anything it has. -/
theorem CatchUpPage.Answers.le_nextCursor {served : List Nat} {since : Nat} (h : page.Answers served since) :
    since ≤ page.nextCursor since ∧ ∀ x ∈ page.events, x.seq ≤ page.nextCursor since := by
  unfold CatchUpPage.nextCursor
  cases hc : page.cursor with
  | some c => exact h.cursor c hc
  | none =>
    rw [Option.none_or]
    cases hl : page.events.getLast? with
    | none =>
      have hnil := List.getLast?_eq_none_iff.mp hl
      exact ⟨Nat.le_refl since, fun x hx => absurd hx (by simp [hnil])⟩
    | some last =>
      obtain ⟨before, hbefore⟩ := List.getLast?_eq_some_iff.mp hl
      have hsorted := h.sorted
      have hafter := h.after
      rw [hbefore] at hsorted hafter ⊢
      have hlast := hafter last (by simp)
      refine ⟨Nat.le_of_lt hlast, fun x hx => ?_⟩
      rcases List.mem_append.mp hx with hx | hx
      · exact Nat.le_of_lt ((List.pairwise_append.mp hsorted).2.2 x hx last (by simp))
      · rw [List.mem_singleton.mp hx]
        exact Nat.le_refl _

namespace Orchestrator

/-! ## What is covered stays so -/

theorem Covered.mono {seq : Nat} (h : s.Covered seq) (ha : ∀ x ∈ s.applied, x ∈ t.applied) (hs : ∀ c ∈ s.snapshots, c ∈ t.snapshots) :
    t.Covered seq := by
  rcases h with h | ⟨c, hc, hle⟩
  · exact .inl (ha seq h)
  · exact .inr ⟨c, hs c hc, hle⟩

theorem Safe.mono {cursor : Nat} (h : s.Safe cursor) (hserved : ∀ x ∈ t.served, x ∈ s.served)
    (ha : ∀ x ∈ s.applied, x ∈ t.applied) (hs : ∀ c ∈ s.snapshots, c ∈ t.snapshots) : t.Safe cursor :=
  fun x hx hle => (h x (hserved x hx) hle).mono ha hs

/-- A snapshot covers the events up to its cursor. -/
theorem Safe.of_snapshot {cursor : Nat} (h : cursor ∈ s.snapshots) : s.Safe cursor :=
  fun _ _ hle => .inr ⟨cursor, h, hle⟩

/-! ## The invariant -/

/-- A page of which `rest` is still to be applied. -/
structure Processing (s : Orchestrator) (l : CatchUp) (page : CatchUpPage) (rest : List SyncEvent) : Prop where
  split : ∃ done, page.events = done ++ rest ∧ ∀ x ∈ done, s.Covered x.seq ∧ x.seq ≤ s.durable
  sorted : page.events.Pairwise fun a b => a.seq < b.seq
  toCome : ∀ x ∈ rest, s.durable < x.seq
  within : s.durable ≤ page.nextCursor l.cursor ∧ ∀ x ∈ page.events, x.seq ≤ page.nextCursor l.cursor
  covered : ∀ seq ∈ s.served, seq ≤ page.nextCursor l.cursor → s.Covered seq ∨ ∃ x ∈ rest, x.seq = seq

def Inv (s : Orchestrator) : Prop :=
  match s.await with
  | .idle | .baseline => s.Safe s.durable
  | .initializing current => s.Safe s.durable ∧ current = s.durable
  | .storeBaseline cursor | .storeCursor cursor => s.Safe s.durable ∧ s.Safe cursor
  | .changes l => s.Safe s.durable ∧ s.Safe l.cursor ∧ s.durable ≤ l.cursor ∧ (l.first = true → l.cursor = s.durable)
  | .event l page e rest => s.Processing l page (e :: rest)
  | .acknowledge l page e rest => s.Processing l page (e :: rest) ∧ s.Covered e.seq
  | .refresh l _ => s.Safe s.durable ∧ s.Safe l.cursor

namespace Processing

theorem safe (h : s.Processing l page rest) : s.Safe s.durable := by
  intro seq hseq hle
  rcases h.covered seq hseq (Nat.le_trans hle h.within.1) with hcovered | ⟨x, hx, rfl⟩
  · exact hcovered
  · have hlt := h.toCome x hx
    omega

theorem unacknowledged (h : s.Processing l page rest) : s.unacknowledged page = rest := by
  obtain ⟨done, hpage, hdone⟩ := h.split
  have hnone : done.filter (fun x => s.durable < x.seq) = [] := by
    simp only [List.filter_eq_nil_iff, decide_eq_true_eq]
    intro x hx
    have hle := (hdone x hx).2
    omega
  have hall : rest.filter (fun x => s.durable < x.seq) = rest := by
    simp only [List.filter_eq_self, decide_eq_true_eq]
    exact h.toCome
  rw [Orchestrator.unacknowledged, hpage, List.filter_append, hnone, hall, List.nil_append]

theorem pageCovered (h : s.Processing l page rest) : ∀ x ∈ page.events, s.Covered x.seq ∨ x ∈ rest := by
  obtain ⟨done, hpage, hdone⟩ := h.split
  intro x hx
  rw [hpage] at hx
  rcases List.mem_append.mp hx with hx | hx
  · exact .inl (hdone x hx).1
  · exact .inr hx

/-- Nothing else of the state counts, and what is covered may grow. -/
theorem mono (h : s.Processing l page rest) (hb : t.syncBaseline = s.syncBaseline) (hserved : ∀ x ∈ t.served, x ∈ s.served)
    (ha : ∀ x ∈ s.applied, x ∈ t.applied) (hs : t.snapshots = s.snapshots) : t.Processing l page rest := by
  have hd : t.durable = s.durable := by rw [durable, durable, hb]
  have hcovered : ∀ seq, s.Covered seq → t.Covered seq := fun _ hc => hc.mono ha (by simp [hs])
  obtain ⟨done, hpage, hdone⟩ := h.split
  refine ⟨⟨done, hpage, fun x hx => ⟨hcovered x.seq (hdone x hx).1, ?_⟩⟩, h.sorted, ?_, ?_, fun x hx hle => ?_⟩
  · exact hd ▸ (hdone x hx).2
  · exact hd ▸ h.toCome
  · exact hd ▸ h.within
  · exact (h.covered x (hserved x hx) hle).imp_left (hcovered x)

/-- The next event is acknowledged: the cursor moves onto it. -/
theorem acknowledged (h : s.Processing l page (e :: rest)) (he : s.Covered e.seq) :
    ({ s with syncBaseline := some e.seq } : Orchestrator).Processing l page rest := by
  obtain ⟨done, hpage, hdone⟩ := h.split
  have hlt := h.toCome e (by simp)
  have hrest : ∀ x ∈ rest, e.seq < x.seq := by
    have hsorted := hpage ▸ h.sorted
    exact (List.pairwise_cons.mp (List.pairwise_append.mp hsorted).2.1).1
  refine ⟨⟨done ++ [e], by simp [hpage], fun x hx => ?_⟩, h.sorted, hrest, ⟨?_, h.within.2⟩, fun x hx hle => ?_⟩
  · rcases List.mem_append.mp hx with hx | hx
    · obtain ⟨hcovered, hle⟩ := hdone x hx
      exact ⟨hcovered, by simp only [durable, Option.getD_some] at hlt hle ⊢; omega⟩
    · obtain rfl := List.mem_singleton.mp hx
      exact ⟨he, Nat.le_refl _⟩
  · exact h.within.2 e (by simp [hpage])
  · rcases h.covered x hx hle with hcovered | ⟨y, hy, rfl⟩
    · exact .inl hcovered
    · rcases List.mem_cons.mp hy with rfl | hy
      · exact .inl he
      · exact .inr ⟨y, hy, rfl⟩

end Processing

/-- A page that answers is taken up. -/
theorem processing_of_answers (hsafe : s.Safe l.cursor) (hle : s.durable ≤ l.cursor) (h : page.Answers s.served l.cursor) :
    ({ s with served := s.served ++ page.events.map SyncEvent.seq } : Orchestrator).Processing l page page.events := by
  refine ⟨⟨[], rfl, by simp⟩, h.sorted, fun x hx => ?_, ⟨?_, h.le_nextCursor.2⟩, fun x hx hnext => ?_⟩
  · exact Nat.lt_of_le_of_lt hle (h.after x hx)
  · exact Nat.le_trans hle h.le_nextCursor.1
  · rcases List.mem_append.mp hx with hx | hx
    · by_cases hsince : x ≤ l.cursor
      · exact .inl (hsafe x hx hsince)
      · exact .inr (h.complete x hx (by omega) hnext)
    · exact .inr (List.mem_map.mp hx)

/-! ## Each transition -/

theorem Inv.safe (h : s.Inv) : s.Safe s.durable := by
  unfold Inv at h
  cases hawait : s.await <;> simp only [hawait] at h
  case idle => exact h
  case baseline => exact h
  case event => exact h.safe
  case acknowledge => exact h.1.safe
  all_goals exact h.1

theorem inv_throw (h : s.Safe s.durable) : s.throw.Inv := h

theorem inv_endIteration (h : s.Safe s.durable) : s.endIteration.Inv := by
  unfold endIteration
  split
  · exact h
  · exact h

theorem inv_finish {cursor : Nat} {hasBaseline : Bool} (h : s.Safe s.durable) (hc : s.Safe cursor) :
    (s.finish cursor hasBaseline).Inv := by
  unfold finish
  split
  · exact ⟨h, hc⟩
  · next hzero =>
    split
    · exact ⟨h, Decidable.not_not.mp hzero ▸ hc⟩
    · exact inv_endIteration h

theorem inv_nextEvent (h : s.Processing l page rest) : (s.nextEvent l page rest).Inv := by
  cases rest with
  | cons e rest => exact h.mono rfl (fun _ hx => hx) (fun _ hx => hx) rfl
  | nil =>
    have hnext : s.Safe (page.nextCursor l.cursor) := by
      intro x hx hle
      rcases h.covered x hx hle with hcovered | ⟨y, hy, -⟩
      · exact hcovered
      · cases hy
    rw [nextEvent, pageDone]
    split
    · exact ⟨h.safe, hnext, h.within.1, fun hfirst => by cases hfirst⟩
    · exact inv_finish h.safe hnext

theorem inv_start (h : s.Safe s.durable) : (s.start o).Inv := by
  unfold start
  split
  · exact ⟨h, rfl⟩
  · exact ⟨h, h, Nat.le_refl _, fun _ => rfl⟩

theorem inv_receive (h : s.Safe s.durable) (hl : s.Safe l.cursor) (hle : s.durable ≤ l.cursor)
    (ha : page.requiresFullRefresh = false → page.Answers s.served l.cursor) : (s.receive o l page).Inv := by
  unfold receive
  split
  · split
    · exact ⟨h, hl⟩
    · exact inv_throw h
  · next hfull => exact inv_nextEvent (processing_of_answers hl hle (ha (by simpa using hfull)))

/-- What a store in progress writes is a cursor up to which everything is covered. -/
theorem Inv.storing (h : s.Inv) {cursor : Nat} (hc : s.storing = some cursor) : s.Safe cursor := by
  unfold Orchestrator.storing at hc
  unfold Inv at h
  cases hawait : s.await <;> simp only [hawait, Option.some.injEq, reduceCtorEq] at h hc
  case storeBaseline => exact hc ▸ h.2
  case acknowledge => exact hc ▸ (h.1.acknowledged h.2).safe
  case storeCursor => exact hc ▸ h.2

/-- The other fields do not count, and events may leave the feed. -/
theorem Inv.mono (h : s.Inv) (ht : t.await = s.await) (hb : t.syncBaseline = s.syncBaseline)
    (hserved : ∀ x ∈ t.served, x ∈ s.served) (ha : t.applied = s.applied) (hs : t.snapshots = s.snapshots) : t.Inv := by
  have happlied : ∀ x ∈ s.applied, x ∈ t.applied := by simp [ha]
  have hsafe : ∀ {cursor}, s.Safe cursor → t.Safe cursor := fun hc => hc.mono hserved happlied (by simp [hs])
  have hd : t.durable = s.durable := by rw [durable, durable, hb]
  unfold Inv at h ⊢
  rw [ht, hd]
  cases hawait : s.await <;> simp only [hawait] at h ⊢
  case idle => exact hsafe h
  case baseline => exact hsafe h
  case initializing => exact ⟨hsafe h.1, h.2⟩
  case storeBaseline => exact ⟨hsafe h.1, hsafe h.2⟩
  case changes => exact ⟨hsafe h.1, hsafe h.2.1, h.2.2⟩
  case event => exact h.mono hb hserved happlied hs
  case acknowledge => exact ⟨h.1.mono hb hserved happlied hs, h.2.mono happlied (by simp [hs])⟩
  case refresh => exact ⟨hsafe h.1, hsafe h.2⟩
  case storeCursor => exact ⟨hsafe h.1, hsafe h.2⟩

theorem Inv.afterStore (h : s.Inv) (ht : s.afterStore = some t) : t.Inv := by
  unfold Orchestrator.afterStore at ht
  unfold Inv at h
  cases hawait : s.await <;> simp only [hawait, Option.some.injEq, reduceCtorEq] at h ht <;> subst ht
  case storeBaseline cursor => exact ⟨h.2, h.2, Nat.le_refl _, fun _ => rfl⟩
  case acknowledge l page e rest =>
    exact inv_nextEvent ((h.1.acknowledged h.2).mono rfl (fun _ hx => hx) (fun _ hx => hx) rfl)
  case storeCursor cursor => exact inv_endIteration h.2

/-- **A step keeps the invariant.** -/
theorem Inv.step {a : SyncInput} (h : s.Inv) (ha : a.Promised s) (hs : s.step o a = some t) : t.Inv := by
  cases a with
  | ping =>
    cases hs
    split
    · exact h.safe
    · exact h.mono rfl rfl (fun _ hx => hx) rfl rfl
  | disconnect => cases hs; exact h.mono rfl rfl (fun _ hx => hx) rfl rfl
  | crash => cases hs; exact h.safe
  | withdrawn e => cases hs; exact h.mono rfl rfl (fun _ hx => (List.mem_filter.mp hx).1) rfl rfl
  | stored => exact h.afterStore hs
  | storeFailed landed =>
    obtain ⟨cursor, hcursor, rfl⟩ := Option.map_eq_some_iff.mp hs
    cases landed with
    | true => exact h.storing hcursor
    | false => exact h.safe
  | baselineRead =>
    cases hawait : s.await <;> simp only [Orchestrator.step, hawait, Option.some.injEq, reduceCtorEq] at hs
    exact hs ▸ inv_start h.safe
  | initialized outcome =>
    cases hawait : s.await <;> cases outcome <;>
      simp only [Orchestrator.step, hawait, Option.some.injEq, reduceCtorEq] at hs <;> subst hs
    case initializing.kept current =>
      simp only [Inv, hawait] at h
      exact ⟨h.1, h.2 ▸ h.1⟩
    case initializing.snapshot current cursor =>
      have hsnapshots : ∀ c ∈ s.snapshots, c ∈ cursor :: s.snapshots := fun c hc => List.mem_cons_of_mem cursor hc
      exact ⟨h.safe.mono (fun _ hx => hx) (fun _ hx => hx) hsnapshots, Safe.of_snapshot List.mem_cons_self⟩
    case initializing.failed => exact inv_throw h.safe
  | page answer =>
    cases hawait : s.await <;> cases answer <;>
      simp only [Orchestrator.step, hawait, Option.some.injEq, reduceCtorEq] at hs <;> subst hs
    case changes.none => exact inv_throw h.safe
    case changes.some l page =>
      simp only [Inv, hawait] at h
      exact inv_receive h.1 h.2.1 h.2.2.1 (ha l hawait)
  | delta ok =>
    cases hawait : s.await <;> cases ok <;>
      simp only [Orchestrator.step, hawait, Option.some.injEq, reduceCtorEq] at hs <;> subst hs
    case event.false => exact inv_throw h.safe
    case event.true l page e rest =>
      simp only [Inv, hawait] at h
      exact ⟨h.mono rfl (fun _ hx => hx) (fun _ hx => List.mem_cons_of_mem e.seq hx) rfl, .inl List.mem_cons_self⟩
  | refreshed outcome =>
    cases hawait : s.await <;> cases outcome <;>
      simp only [Orchestrator.step, hawait, Option.some.injEq, reduceCtorEq] at hs <;> subst hs
    case refresh.locked => exact absurd rfl ha
    case refresh.failed => exact inv_throw h.safe
    case refresh.done l cursor =>
      simp only [Inv, hawait] at h
      have hsnapshots : ∀ c ∈ s.snapshots, c ∈ cursor.toList ++ s.snapshots := fun c hc => List.mem_append_right _ hc
      have hsafe : ∀ {c}, s.Safe c → ({ s with snapshots := cursor.toList ++ s.snapshots } : Orchestrator).Safe c :=
        fun hc => hc.mono (fun _ hx => hx) (fun _ hx => hx) hsnapshots
      refine inv_finish (hsafe h.1) ?_
      cases cursor with
      | none => exact hsafe h.2
      | some c => exact Safe.of_snapshot List.mem_cons_self

theorem Inv.resumes (h : s.Inv) : s.Resumes := by
  unfold Inv at h
  unfold Resumes
  cases hawait : s.await <;> simp only [hawait] at h ⊢
  case changes => exact h.2.2.2
  case event => exact ⟨h.unacknowledged, h.pageCovered⟩
  case acknowledge =>
    refine ⟨h.1.unacknowledged, h.2, fun x hx => ?_⟩
    rcases h.1.pageCovered x hx with hx | hx
    · exact .inl hx
    · rcases List.mem_cons.mp hx with rfl | hx
      · exact .inl h.2
      · exact .inr hx

/-- Every state of a run in which the answers keep their promises. -/
theorem inv_of_reachable (h : (catchUp o).ReachableUnder SyncInput.Promised s) : s.Inv := by
  refine h.invariant Inv ?_ fun s a t _ hI ha hs => hI.step ha hs
  rintro _ rfl
  exact fun x hx => by cases hx

/-! ## How long the loop runs -/

/-- Inside `runCatchUp` of `catch-up.ts`. -/
def inLoop (s : Orchestrator) : Bool :=
  match s.await with
  | .changes _ | .event .. | .acknowledge .. | .refresh .. => true
  | _ => false

@[simp] theorem inLoop_throw : s.throw.inLoop = false := rfl

@[simp] theorem inLoop_endIteration : s.endIteration.inLoop = false := by
  unfold endIteration
  split <;> rfl

@[simp] theorem inLoop_finish (cursor : Nat) (hasBaseline : Bool) : (s.finish cursor hasBaseline).inLoop = false := by
  unfold finish
  split
  · rfl
  · split
    · rfl
    · exact inLoop_endIteration

/-- How far the loop is from asking for a page after one it goes on from: whether it is
before that page, at it or past it, and what of the page is left. -/
def distance (s : Orchestrator) : Nat ×ₗ Nat :=
  match s.await with
  | .event l page _ rest => toLex (if page.continues l.cursor then 2 else 0, 2 * rest.length + 2)
  | .acknowledge l page _ rest => toLex (if page.continues l.cursor then 2 else 0, 2 * rest.length + 1)
  | .changes _ => toLex (1, 0)
  | _ => toLex (0, 0)

theorem distance_nextEvent (rest : List SyncEvent) (h : (s.nextEvent l page rest).inLoop = true) :
    (s.nextEvent l page rest).distance < toLex (if page.continues l.cursor then 2 else 0, 2 * rest.length + 1) := by
  cases rest with
  | cons e rest => exact Prod.Lex.toLex_lt_toLex.mpr (.inr ⟨rfl, by simp only [List.length_cons]; omega⟩)
  | nil =>
    rw [nextEvent, pageDone] at h ⊢
    by_cases hcontinues : page.continues l.cursor = true
    · simp only [hcontinues, if_true]
      exact Prod.Lex.toLex_lt_toLex.mpr (.inl (by decide))
    · simp [hcontinues] at h

/-- A page that the loop does not go on from brings its end. -/
theorem distance_receive (hends : ¬ page.continues l.cursor = true) (h : (s.receive o l page).inLoop = true) :
    (s.receive o l page).distance < toLex (1, 0) := by
  unfold receive at h ⊢
  by_cases hfull : page.requiresFullRefresh = true
  · simp only [hfull, if_true] at h ⊢
    by_cases hrefresh : o.refreshFromServer = true
    · simp only [hrefresh, if_true]
      exact Prod.Lex.toLex_lt_toLex.mpr (.inl Nat.zero_lt_one)
    · simp [hrefresh] at h
  · simp only [hfull, Bool.false_eq_true, if_false] at h ⊢
    have hlt := distance_nextEvent page.events h
    simp only [hends, Bool.false_eq_true, if_false] at hlt
    exact hlt.trans (Prod.Lex.toLex_lt_toLex.mpr (.inl Nat.zero_lt_one))

end Orchestrator

/-- A step that `runCatchUp` takes itself. -/
def SyncInput.ofLoop : SyncInput → Bool
  | .page _ | .delta _ | .refreshed _ | .stored | .storeFailed _ => true
  | _ => false

/-- The loop gets a page that it goes on from. -/
def Continues (s : Orchestrator) (a : SyncInput) : Prop :=
  ∃ l page, s.await = .changes l ∧ a = .page (some page) ∧ page.continues l.cursor = true

theorem Orchestrator.distance_step {a : SyncInput} (hs : s.step o a = some t) (ha : a.ofLoop = true)
    (hloop : s.inLoop = true) (hloop' : t.inLoop = true) (hc : ¬ Continues s a) : t.distance < s.distance := by
  cases hawait : s.await <;> simp only [inLoop, hawait, Bool.false_eq_true] at hloop
  case changes l =>
    cases a <;> simp only [SyncInput.ofLoop, Bool.false_eq_true] at ha <;>
      simp only [Orchestrator.step, afterStore, storing, hawait, Option.map_none, reduceCtorEq] at hs
    case page answer =>
      cases answer with
      | none => cases hs; cases hloop'
      | some page =>
        have hends : ¬ page.continues l.cursor = true := fun h => hc ⟨l, page, hawait, rfl, h⟩
        simp only [Option.some.injEq] at hs
        subst hs
        have hlt := distance_receive hends hloop'
        simpa only [distance, hawait] using hlt
  case event l page e rest =>
    cases a <;> simp only [SyncInput.ofLoop, Bool.false_eq_true] at ha <;>
      simp only [Orchestrator.step, afterStore, storing, hawait, Option.map_none, reduceCtorEq] at hs
    case delta ok =>
      cases ok with
      | false => cases hs; cases hloop'
      | true =>
        cases hs
        simp only [distance, hawait]
        exact Prod.Lex.toLex_lt_toLex.mpr (.inr ⟨rfl, Nat.lt_succ_self _⟩)
  case acknowledge l page e rest =>
    cases a <;> simp only [SyncInput.ofLoop, Bool.false_eq_true] at ha <;>
      simp only [Orchestrator.step, afterStore, storing, hawait, Option.map_some, Option.some.injEq, reduceCtorEq] at hs
    case stored =>
      subst hs
      simp only [distance, hawait]
      exact distance_nextEvent rest hloop'
    case storeFailed => subst hs; simp at hloop'
  case refresh l cursor =>
    cases a <;> simp only [SyncInput.ofLoop, Bool.false_eq_true] at ha <;>
      simp only [Orchestrator.step, afterStore, storing, hawait, Option.map_none, reduceCtorEq] at hs
    case refreshed outcome => cases outcome <;> cases hs <;> simp at hloop'

/-- **The loop runs on for ever only on pages that it goes on from**, again and again. -/
theorem continues_again {state : Nat → Orchestrator} {label : Nat → SyncInput} (hrun : (catchUp o).Endless state label)
    (hown : ∀ n, (label n).ofLoop = true) (hloop : ∀ n, (state n).inLoop = true) (n : Nat) :
    ∃ m, n ≤ m ∧ Continues (state m) (label m) :=
  recurs Orchestrator.distance (fun n hn => Orchestrator.distance_step (hrun n) (hown n) (hloop n) (hloop (n + 1)) hn) n

/-! ## The pages of the server -/

/-- **A page of the feed keeps the promise**, as long as what was served before is still there
for the user when the page is read. -/
theorem answers_of_changes {sizes : Sizes SyncEvent} {keysDb cursorDb pageDb rowsDb : Db} {userId : String}
    {input : GetEventsSinceInput} {response : GetEventsSinceResponse} {served : List Nat}
    (hnd : (pageDb.events.map (·.seq)).Nodup) (h : changes sizes keysDb cursorDb pageDb rowsDb userId input = .ok response)
    (hfull : response.requiresFullRefresh = false)
    (hserved : ∀ seq ∈ served, (∃ e ∈ pageDb.events, e.seq = seq ∧
      e.visible userId (targetVaults keysDb userId input.vaultIds) = true) ∧ ∃ row ∈ rowsDb.events, row.seq = seq) :
    (⟨response.events, response.hasMore, response.requiresFullRefresh, response.cursor⟩ : CatchUpPage).Answers served
      (input.sinceId.getD 0) := by
  have hs := changes_served hnd h
  refine ⟨List.pairwise_map.mp hs.ascending, fun e he => hs.above e.seq (List.mem_map_of_mem he), fun c hc => ?_,
    fun seq hseq hsince hle => ?_⟩
  · refine ⟨Nat.le_of_lt (hs.forward hfull c hc), fun e he => ?_⟩
    obtain ⟨c', hc', hle⟩ := hs.upTo e.seq (List.mem_map_of_mem he)
    obtain rfl := Option.some.inj (hc.symm.trans hc')
    exact hle
  · obtain ⟨⟨e, he, rfl, hvisible⟩, hrow⟩ := hserved seq hseq
    cases hc : response.cursor with
    | some c =>
      simp only [CatchUpPage.nextCursor, hc, Option.some_or, Option.getD_some] at hle
      exact List.mem_map.mp (hs.complete hfull c hc e he hvisible hsince hle hrow)
    | none =>
      -- Without a cursor there are no events.
      have hnil : response.events = [] := by
        refine List.eq_nil_iff_forall_not_mem.mpr fun x hx => ?_
        obtain ⟨c, hc', -⟩ := hs.upTo x.seq (List.mem_map_of_mem hx)
        rw [hc] at hc'
        cases hc'
      simp only [CatchUpPage.nextCursor, hc, hnil, List.getLast?_nil, Option.map_none, Option.none_or, Option.getD_none] at hle
      omega

/-- Bob asks again for an edit that he has been served. -/
theorem answers_of_changes_edited :
    let db : Db := { bobReads with events := [{ edited "item" with seq := 1 }] }
    ∃ response, changes flatSizes db db db db "bob" ⟨none, none, none⟩ = .ok response ∧
      (⟨response.events, response.hasMore, response.requiresFullRefresh, response.cursor⟩ : CatchUpPage).Answers [1] 0 := by
  intro db
  have hok : (changes flatSizes db db db db "bob" ⟨none, none, none⟩).toOption.any (!·.requiresFullRefresh) = true := by
    decide +kernel
  obtain ⟨response, h, hfull⟩ := (Option.any_eq_true ..).mp hok
  rw [Except.toOption_eq_some_iff] at h
  exact ⟨response, h, answers_of_changes (by decide) h (by simpa using hfull) (by decide +kernel)⟩

/-! ## The catch-up as a whole -/

/-- The locked account, which `SyncInput.Promised` leaves out: its refresh resolves, and the
cursor passes the first event. -/
example : ((catchUp ⟨false, true⟩).run ⟨none, false, false, .idle, [], [], []⟩ [.ping, .baselineRead,
    .page (some ⟨[⟨1, .itemUpdated, "item", .item, some "v", "ann", 2, none, none⟩], false, false, some 1⟩), .delta false,
    .ping, .baselineRead, .page (some ⟨[], false, true, some 5⟩), .refreshed .locked, .stored]).map
    (fun s => (s.durable, s.served, s.applied, s.snapshots)) = some (5, [1], [], []) := rfl

def plainOptions : SyncOptions := ⟨false, true⟩

def fetching (cursor : Nat) (first : Bool) : Orchestrator := ⟨none, false, false, .changes ⟨cursor, false, first⟩, [], [], []⟩

/-- The server that has nothing but more to come, after the cursors 1 and 2 in turn. -/
def alternatingPage (n : Nat) : SyncInput := .page (some ⟨[], true, false, some (1 + n % 2)⟩)

theorem alternating_endless : (catchUp plainOptions).Endless (fun n => fetching (1 + (n + 1) % 2) false) alternatingPage := by
  intro n
  have hne : n % 2 ≠ (n + 1) % 2 := by omega
  have hmod : (n + 1 + 1) % 2 = n % 2 := by omega
  simp [catchUp, Orchestrator.step, Orchestrator.receive, Orchestrator.nextEvent, Orchestrator.pageDone,
    CatchUpPage.continues, CatchUpPage.nextCursor, fetching, alternatingPage, hne, hmod]

def firstEvent : SyncEvent := ⟨1, .itemUpdated, "item", .item, some "v", "ann", 2, none, none⟩

theorem reachable_of_page {a : SyncInput} {page : CatchUpPage} (h : (catchUp o).ReachableUnder SyncInput.Promised s)
    (hawait : s.await = .changes l) (ha : a = .page (some page)) (hanswers : page.Answers s.served l.cursor)
    (hs : s.step o a = some t) : (catchUp o).ReachableUnder SyncInput.Promised t := by
  refine h.step a ?_ hs
  subst ha
  intro l' hl' _
  obtain rfl := Await.changes.inj (hawait.symm.trans hl')
  exact hanswers

end Bittery
