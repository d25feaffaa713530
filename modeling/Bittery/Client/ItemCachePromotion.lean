/-
What a reader of the item cache sees of a promotion.

The operations of the cache take turns, records are staged and discarded outside of the lock,
any command of an operation may fail, and the process may stop at any moment. A write that
fails may leave anything in its collection; the state record is one record, which is written or
is not. The reads of a cache are what its three getters return.
-/
import Bittery.Client.ItemCacheGenerations
import Bittery.Lib.Sections

namespace Bittery.ItemCache

open Lib

variable {Text : Type} [DecidableEq Text] (F : CacheFormat Text)

/-! ## Operations with the lock -/

inductive LockedOp
  | write (op : CacheOp)
  | getCachedItems
  | getCachedVaults
  | getItemCacheMetadata

inductive CacheResult
  | written
  | items (items : Option (List CachedEncryptedItem))
  | vaults (vaults : Option (List CachedVaultMetadata))
  | metadata (metadata : Option ItemCacheMetadata)
deriving DecidableEq, Repr

def LockedOp.program : LockedOp → CacheM Text CacheResult
  | .write op => (op.program F).bind fun _ => return .written
  | .getCachedItems => (ItemCache.getCachedItems F).bind fun items => return .items items
  | .getCachedVaults => (ItemCache.getCachedVaults F).bind fun vaults => return .vaults vaults
  | .getItemCacheMetadata => (ItemCache.getItemCacheMetadata F).bind fun metadata => return .metadata metadata

/-- What the getters return of a store. -/
structure Reads where
  items : Option (Option (List CachedEncryptedItem))
  vaults : Option (Option (List CachedVaultMetadata))
  metadata : Option (Option ItemCacheMetadata)
deriving DecidableEq

def readsOf (s : RecordStore Text) : Reads where
  items := ((getCachedItems F).eval RecordStore.exec s).2
  vaults := ((getCachedVaults F).eval RecordStore.exec s).2
  metadata := ((getItemCacheMetadata F).eval RecordStore.exec s).2

/-- The last promotion (a record): what was read before it, and what was read when its state record was written. -/
structure Promotion where
  generation : String
  before : Reads
  after : Option Reads
deriving DecidableEq

/-- The cache and what is recorded of it: the generations that are being staged, and the last promotion, unless
something else has written to what is active since. -/
structure CacheRun (Text : Type) where
  store : RecordStore Text
  pending : String → Bool
  promotion : Option Promotion

/-! ## Commands that fail -/

/-- How a command ends. -/
inductive RecordAnswer (Text : Type)
  | answered
  /-- Rejected, with the state record written or not, or with anything left in another collection. -/
  | failed (landed : Bool) (left : Records Text)

/-- The collection that a command writes to. -/
def RecordCommand.writes : RecordCommand Text → Option Collection
  | .put c _ | .putMany c _ | .delete c _ | .clear c => some c
  | _ => none

/-- Whether it writes the state record. -/
def RecordCommand.writesState : RecordCommand Text → Bool
  | .put .state _ => true
  | _ => false

/-- What a rejected command leaves. The flag of a generation is no command of the port. -/
def RecordStore.fail (s : RecordStore Text) (c : RecordCommand Text) (landed : Bool) (left : Records Text) :
    Option (RecordStore Text) :=
  match c with
  | .settle _ | .isSettled _ => none
  | c => match c.writes with
    | none => some s
    | some .state => some (if landed then (s.exec c).1 else s)
    | some d => some (s.setRecords d left)

namespace CacheRun

variable (s : CacheRun Text)

/-- The store is changed, and with the state record the reads are another generation's. -/
def advance (c : RecordCommand Text) (store : RecordStore Text) : CacheRun Text :=
  { s with
    store := store
    promotion := if c.writesState then s.promotion.map fun p => { p with after := some (readsOf F store) } else s.promotion }

def perform (c : RecordCommand Text) : RecordAnswer Text → Option (CacheRun Text × Option c.Response)
  | .answered => some (s.advance F c (s.store.exec c).1, (s.store.exec c).2)
  | .failed landed left =>
    (s.store.fail c landed left).map fun store => (if landed then s.advance F c store else { s with store := store }, none)

end CacheRun

/-- The generation that a collection is staged for. -/
def Collection.generation : Collection → Option String
  | .stagedItems generation | .stagedVaults generation | .stagedItemBaseline generation
  | .stagedVaultBaseline generation => some generation
  | _ => none

/-- A write outside of the lock: records are staged, or a generation is discarded. -/
structure StagedWrite (Text : Type) where
  collection : Collection
  left : Records Text

/-! ## The system -/

/-- An operation gets the lock. -/
def started : LockedOp → CacheRun Text → CacheRun Text
  | .write (.promote generation _ _ _), s =>
    { s with
      pending := Function.update s.pending generation false
      promotion := some ⟨generation, readsOf F s.store, none⟩ }
  | .write (.beginStagedGeneration generation), s =>
    { s with pending := Function.update s.pending generation true, promotion := none }
  | .write _, s => { s with promotion := none }
  | _, s => s

/-- A generation that is begun is new, one that is promoted has been begun and not been promoted; staging and
discarding do not take the lock. -/
def Startable : LockedOp → CacheRun Text → Prop
  | .write (.promote generation _ _ _), s => s.pending generation = true
  | .write (.beginStagedGeneration generation), s => (storedState F s.store).activeGeneration ≠ some generation
  | .write (.stageItem _ _), _ | .write (.stageItems _ _), _ | .write (.stageVault _ _), _
  | .write (.stageVaults _ _), _ | .write (.discard _), _ => False
  | _, _ => True

instance (op : LockedOp) (s : CacheRun Text) : Decidable (Startable F op s) := by
  unfold Startable
  split <;> infer_instance

/-- Also where the generation is the active one. -/
def stagedWrite (w : StagedWrite Text) (s : CacheRun Text) : Option (CacheRun Text) :=
  w.collection.generation.map fun generation =>
    { s with
      store := s.store.setRecords w.collection w.left
      promotion := if (storedState F s.store).activeGeneration = some generation then none else s.promotion }

def service : Service (CacheRun Text) (RecordCommand Text) RecordCommand.Response (RecordAnswer Text) LockedOp CacheResult
    (StagedWrite Text) where
  perform s c e := s.perform F c e
  program := LockedOp.program F
  started := started F
  settled _ _ s := s
  other := stagedWrite F

/-- Whatever is stored at first. -/
def system := (service F).sections (Startable F) fun s => s.pending = (fun _ => false) ∧ s.promotion = none

/-! ## What a store reads as -/

/-- The records of a collection, read. -/
def readRecords {α : Type} (parse : Text → Option α) (records : Records Text) (primed : Bool) : Option (List α) :=
  if 0 < records.rows.length then some (records.rows.filterMap fun r => parse r.value)
  else if primed then some [] else none

omit [DecidableEq Text] in
theorem eval_readCollection {α : Type} (parse : Text → Option α) (s : RecordStore Text) (c : Collection) (primed : Bool) :
    (readCollection parse c primed).eval RecordStore.exec s = (s, some (readRecords parse (s.records c) primed)) := by
  have hrows : (recordList c).eval RecordStore.exec s = (s, some (s.records c).rows) := rfl
  unfold readCollection readRecords
  rw [Async.bind_eq, Async.eval_bind RecordStore.exec hrows]
  split <;> rfl

omit [DecidableEq Text] in
theorem eval_getCachedItems (s : RecordStore Text) :
    (getCachedItems F).eval RecordStore.exec s =
      (s, some (readRecords F.parseItem (activeItems F s) (storedState F s).itemsPrimed)) := by
  unfold getCachedItems
  rw [Async.bind_eq, Async.eval_bind RecordStore.exec (t := s) (a := storedState F s) rfl]
  exact eval_readCollection F.parseItem s _ _

omit [DecidableEq Text] in
theorem eval_getCachedVaults (s : RecordStore Text) :
    (getCachedVaults F).eval RecordStore.exec s =
      (s, some (readRecords F.parseVault (activeVaults F s) (storedState F s).vaultsPrimed)) := by
  unfold getCachedVaults
  rw [Async.bind_eq, Async.eval_bind RecordStore.exec (t := s) (a := storedState F s) rfl]
  exact eval_readCollection F.parseVault s _ _

omit [DecidableEq Text] in
theorem eval_getItemCacheMetadata (s : RecordStore Text) :
    (getItemCacheMetadata F).eval RecordStore.exec s = (s, some (storedState F s).metadata) := rfl

omit [DecidableEq Text] in
theorem storedState_congr {s t : RecordStore Text} (h : t.records .state = s.records .state) :
    storedState F t = storedState F s := by
  unfold storedState
  rw [h]

omit [DecidableEq Text] in
/-- The reads look at the state record and at two collections. -/
theorem readsOf_congr {s t : RecordStore Text} (hstate : t.records .state = s.records .state)
    (hitems : t.records (itemCollectionFor (storedState F s).activeGeneration) = activeItems F s)
    (hvaults : t.records (vaultCollectionFor (storedState F s).activeGeneration) = activeVaults F s) :
    readsOf F t = readsOf F s := by
  have hsame := storedState_congr F hstate
  unfold readsOf
  rw [eval_getCachedItems, eval_getCachedItems, eval_getCachedVaults, eval_getCachedVaults, eval_getItemCacheMetadata,
    eval_getItemCacheMetadata, hsame]
  have hitems' : activeItems F t = activeItems F s := by
    unfold activeItems
    rw [hsame]
    exact hitems
  have hvaults' : activeVaults F t = activeVaults F s := by
    unfold activeVaults
    rw [hsame]
    exact hvaults
  rw [hitems', hvaults']

theorem eq_of_itemCollectionFor {active : Option String} {generation : String}
    (h : (itemCollectionFor active).generation = some generation) : active = some generation := by
  unfold itemCollectionFor at h
  cases active with
  | none => cases h
  | some g =>
    dsimp only at h
    split at h
    · cases h
    · exact h

theorem eq_of_vaultCollectionFor {active : Option String} {generation : String}
    (h : (vaultCollectionFor active).generation = some generation) : active = some generation := by
  unfold vaultCollectionFor at h
  cases active with
  | none => cases h
  | some g =>
    dsimp only at h
    split at h
    · cases h
    · exact h

/-! ## What a command changes -/

omit [DecidableEq Text] in
theorem records_exec (s : RecordStore Text) (c : RecordCommand Text) {d : Collection} (hd : c.writes ≠ some d) :
    (RecordStore.exec s c).1.records d = s.records d := by
  have hne : ∀ d', c.writes = some d' → d ≠ d' := fun d' h he => hd (h.trans (congrArg some he.symm))
  cases c with
  | put c record => exact RecordStore.setRecords_of_ne s (hne c rfl) _
  | putMany c records => exact RecordStore.setRecords_of_ne s (hne c rfl) _
  | delete c id => exact RecordStore.setRecords_of_ne s (hne c rfl) _
  | clear c => exact RecordStore.setRecords_of_ne s (hne c rfl) _
  | get c id => rfl
  | list c => rfl
  | settle g => rfl
  | isSettled g => rfl

omit [DecidableEq Text] in
/-- What a rejected command leaves of the other collections, and of the state record. -/
theorem fail_cases {s t : RecordStore Text} {c : RecordCommand Text} {landed : Bool} {left : Records Text}
    (h : s.fail c landed left = some t) :
    (∀ d, c.writes ≠ some d → t.records d = s.records d) ∧
      (c.writes = some .state → t = if landed then (s.exec c).1 else s) := by
  have hwrite : ∀ d, c.writes = some d →
      (match (some d : Option Collection) with
        | none => some s
        | some .state => some (if landed then (s.exec c).1 else s)
        | some d => some (s.setRecords d left)) = some t →
      (∀ d, c.writes ≠ some d → t.records d = s.records d) ∧
        (c.writes = some .state → t = if landed then (s.exec c).1 else s) := by
    intro d hd ht
    cases d with
    | state =>
      refine ⟨fun d hd' => ?_, fun _ => (Option.some.inj ht).symm⟩
      rw [← Option.some.inj ht]
      split
      · exact records_exec s c hd'
      · rfl
    | _ =>
      refine ⟨fun d' hd' => ?_, fun hstate => ?_⟩
      · rw [← Option.some.inj ht]
        exact RecordStore.setRecords_of_ne s (fun he => hd' (hd.trans (congrArg some he.symm))) left
      · rw [hd] at hstate
        cases hstate
  cases c with
  | put c record => exact hwrite c rfl h
  | putMany c records => exact hwrite c rfl h
  | delete c id => exact hwrite c rfl h
  | clear c => exact hwrite c rfl h
  | get c id => exact ⟨fun d _ => (by rw [← Option.some.inj h]), fun hstate => by cases hstate⟩
  | list c => exact ⟨fun d _ => (by rw [← Option.some.inj h]), fun hstate => by cases hstate⟩
  | settle g => cases h
  | isSettled g => cases h

/-- What a command does, however it ends. -/
structure Performed (s : CacheRun Text) (c : RecordCommand Text) (t : CacheRun Text) (x : Option c.Response) : Prop where
  pending : t.pending = s.pending
  records : ∀ d, c.writes ≠ some d → t.store.records d = s.store.records d
  promotion : c.writesState = false → t.promotion = s.promotion
  unrecorded : s.promotion = none → t.promotion = none
  /-- The state record is written or is not. -/
  whole : c.writes = some .state → t = s ∨ t = s.advance F c (s.store.exec c).1
  answered : ∀ y, x = some y → t = s.advance F c (s.store.exec c).1 ∧ (s.store.exec c).2 = some y

omit [DecidableEq Text] in
theorem performed {s t : CacheRun Text} {c : RecordCommand Text} {e : RecordAnswer Text} {x : Option c.Response}
    (h : s.perform F c e = some (t, x)) : Performed F s c t x := by
  have hpromotion : ∀ store, c.writesState = false → (s.advance F c store).promotion = s.promotion := by
    intro store hc
    unfold CacheRun.advance
    rw [if_neg (by rw [hc]; exact Bool.false_ne_true)]
  have hunrecorded : ∀ store, s.promotion = none → (s.advance F c store).promotion = none := by
    intro store hnone
    unfold CacheRun.advance
    rw [hnone]
    exact ite_self _
  cases e with
  | answered =>
    cases h
    exact ⟨rfl, fun d hd => records_exec s.store c hd, hpromotion _, hunrecorded _, fun _ => .inr rfl, fun y hy => ⟨rfl, hy⟩⟩
  | failed landed left =>
    obtain ⟨store, hfail, hstore⟩ := Option.map_eq_some_iff.mp h
    obtain ⟨hrecords, hwhole⟩ := fail_cases hfail
    cases landed with
    | true =>
      cases hstore
      refine ⟨rfl, hrecords, hpromotion _, hunrecorded _, fun hstate => .inr ?_, fun y hy => by cases hy⟩
      rw [hwhole hstate]
      rfl
    | false =>
      cases hstore
      refine ⟨rfl, hrecords, fun _ => rfl, id, fun hstate => .inl ?_, fun y hy => by cases hy⟩
      rw [hwhole hstate]
      rfl

/-! ## The invariant -/

/-- What is active reads as it did before the promotion, until the state record is written, and from then on as it did at
that moment. -/
structure CacheRun.Inv (s : CacheRun Text) : Prop where
  pending : ∀ generation, s.pending generation = true → (storedState F s.store).activeGeneration ≠ some generation
  before : ∀ p, s.promotion = some p → p.after = none →
    readsOf F s.store = p.before ∧ (storedState F s.store).activeGeneration ≠ some p.generation
  after : ∀ p reads, s.promotion = some p → p.after = some reads →
    readsOf F s.store = reads ∧ (storedState F s.store).activeGeneration = some p.generation

/-- What operations rely on: the state record is left alone outside of the lock. -/
structure Left (s t : CacheRun Text) : Prop where
  state : t.store.records .state = s.store.records .state
  pending : t.pending = s.pending
  promotion : t.promotion = s.promotion ∨ t.promotion = none

/-- The operations take turns, and what a getter returns is what the store read as at one moment. -/
def turns : Turns (service F) where
  contract :=
    { inv := CacheRun.Inv F
      rely := Left
      rely_refl := fun _ => ⟨rfl, rfl, .inl rfl⟩
      rely_trans := fun _ _ _ h h' => ⟨h'.state.trans h.state, h'.pending.trans h.pending, by
        rcases h'.promotion with hsame | hnone
        · rcases h.promotion with hsame' | hnone'
          · exact .inl (hsame.trans hsame')
          · exact .inr (hsame.trans hnone')
        · exact .inr hnone⟩
      allowed := fun _ _ _ _ => True
      guar := fun _ _ _ _ => True }
  allowed _ _ _ _ := trivial
  result op r seen := match op with
    | .write _ => True
    | op => ∀ result, r = some result → ∃ m ∈ seen, ((op.program F).eval RecordStore.exec m.state.store).2 = some result

variable {F} {s t : CacheRun Text}

omit [DecidableEq Text] in
/-- A change of what is not active. -/
theorem CacheRun.Inv.of_frame (h : s.Inv F) (hstate : t.store.records .state = s.store.records .state)
    (hitems : t.store.records (itemCollectionFor (storedState F s.store).activeGeneration) = activeItems F s.store)
    (hvaults : t.store.records (vaultCollectionFor (storedState F s.store).activeGeneration) = activeVaults F s.store)
    (hpending : t.pending = s.pending) (hpromotion : t.promotion = s.promotion) : t.Inv F := by
  have hsame := storedState_congr F hstate
  have hreads := readsOf_congr F hstate hitems hvaults
  refine ⟨fun g hg => ?_, fun p hp hnone => ?_, fun p reads hp hsome => ?_⟩
  · rw [hsame]
    exact h.pending g (hpending ▸ hg)
  · rw [hsame, hreads]
    exact h.before p (hpromotion ▸ hp) hnone
  · rw [hsame, hreads]
    exact h.after p reads (hpromotion ▸ hp) hsome

omit [DecidableEq Text] in
/-- Without a promotion, it is enough that no generation that is being staged becomes active. -/
theorem CacheRun.Inv.of_none (hpromotion : t.promotion = none)
    (h : ∀ generation, t.pending generation = true → (storedState F t.store).activeGeneration ≠ some generation) :
    t.Inv F := by
  refine ⟨h, fun p hp => ?_, fun p _ hp => ?_⟩ <;> rw [hpromotion] at hp <;> cases hp

/-! ## Outside of the lock -/

omit [DecidableEq Text] in
theorem stagedWrite_keeps {w : StagedWrite Text} (h : stagedWrite F w s = some t) (hs : s.Inv F) : t.Inv F ∧ Left s t := by
  obtain ⟨g, hg, rfl⟩ := Option.map_eq_some_iff.mp h
  have hne : ∀ c : Collection, c.generation ≠ some g → c ≠ w.collection := fun c hc he => hc (he ▸ hg)
  have hstate : (s.store.setRecords w.collection w.left).records .state = s.store.records .state :=
    RecordStore.setRecords_of_ne _ (hne .state fun h => by cases h) _
  refine ⟨?_, hstate, rfl, ?_⟩
  · by_cases hactive : (storedState F s.store).activeGeneration = some g
    · refine CacheRun.Inv.of_none (if_pos hactive) fun generation hpending => ?_
      rw [storedState_congr F hstate]
      exact hs.pending generation hpending
    · exact hs.of_frame hstate
        (RecordStore.setRecords_of_ne _ (hne _ fun h => hactive (eq_of_itemCollectionFor h)) _)
        (RecordStore.setRecords_of_ne _ (hne _ fun h => hactive (eq_of_vaultCollectionFor h)) _) rfl (if_neg hactive)
  · dsimp only
    split
    · exact .inr rfl
    · exact .inl rfl

/-! ## Operations that write -/

variable (F) in
/-- The command does not write a state record that names the generation. -/
def Unnames (generation : String) : RecordCommand Text → Prop
  | .put c record => c = .state →
    ∃ state, record = ⟨META_RECORD_ID, F.stringifyState state⟩ ∧ state.activeGeneration ≠ some generation
  | .putMany c _ | .delete c _ => c ≠ .state
  | _ => True

omit [DecidableEq Text] in
theorem unnames_of_spares {generation : String} {c : RecordCommand Text} (h : Spares F generation c) :
    Unnames F generation c := by
  cases c with
  | put c record =>
    intro hc
    rcases h with houtside | ⟨-, hstate⟩
    · exact absurd hc houtside.2.2
    · exact hstate
  | putMany c records => exact h.2.2
  | delete c id => exact h.2.2
  | _ => trivial

omit [DecidableEq Text] in
/-- No such command makes the generation active. -/
theorem inactive_performed {generation : String} {c : RecordCommand Text} {x : Option c.Response}
    (h : Performed F s c t x) (hc : Unnames F generation c)
    (hs : (storedState F s.store).activeGeneration ≠ some generation) :
    (storedState F t.store).activeGeneration ≠ some generation := by
  by_cases hstate : c.writes = some .state
  · rcases h.whole hstate with rfl | rfl
    · exact hs
    · cases c with
      | put c record =>
        cases hstate
        obtain ⟨state, rfl, hactive⟩ := hc rfl
        have hwritten : storedState F (CacheRun.advance F s (.put .state ⟨META_RECORD_ID, F.stringifyState state⟩)
            (s.store.exec (.put .state ⟨META_RECORD_ID, F.stringifyState state⟩)).1).store =
            parseState F (some (F.stringifyState state)) := by
          refine congrArg (parseState F) ?_
          change Records.value ((s.store.setRecords .state _).records .state) _ = _
          rw [RecordStore.setRecords_self, List.foldl_cons, List.foldl_nil, value_put, if_pos rfl]
        rw [hwritten]
        rcases activeGeneration_written F state with hnone | hsame
        · rw [hnone]
          exact fun h => by cases h
        · rw [hsame]
          exact hactive
      | putMany c records => exact absurd (Option.some.inj hstate) hc
      | delete c id => exact absurd (Option.some.inj hstate) hc
      | clear c =>
        cases hstate
        have hcold : storedState F (CacheRun.advance F s (.clear .state) (s.store.exec (.clear .state)).1).store =
            coldState F := by
          refine (congrArg (parseState F) ?_).trans (rfl : parseState F none = coldState F)
          change Records.value ((s.store.setRecords .state _).records .state) _ = _
          rw [RecordStore.setRecords_self]
          rfl
        rw [hcold]
        exact fun h => by cases h
      | _ => cases hstate
  · rw [storedState_congr F (h.records .state hstate)]
    exact hs

omit [DecidableEq Text] in
theorem unnamed_performed {generation : String} {c : RecordCommand Text} {x : Option c.Response}
    (h : Performed F s c t x) (hs : (storedState F s.store).activeGeneration ≠ some generation) :
    ∀ y ∈ x, Unnamed F generation c y := by
  intro y hy
  obtain ⟨-, hanswer⟩ := h.answered y hy
  cases c with
  | get collection id =>
    cases collection with
    | state =>
      rintro rfl
      cases hanswer
      exact hs
    | _ => trivial
  | _ => trivial

/-- An operation that no promotion is recorded of. -/
theorem safe_write {p : CacheM Text CacheResult} {op : CacheOp} (hpromotion : s.promotion = none)
    (hp : ∀ generation, s.pending generation = true → p.UsesWhen (Unnamed F generation) (Unnames F generation)) :
    Safe (turns F).contract (service F).perform ((turns F).post (.write op)) p [] s := by
  refine (safe_of_usesWhen (A := fun t => t.promotion = none ∧ t.pending = s.pending)
    (Async.usesWhen_forall fun g : { g // s.pending g = true } => hp g.1 g.2) ?_ ?_ ⟨hpromotion, rfl⟩).mono
    fun r seen t ht _ => ⟨ht, trivial⟩
  · rintro t u - hleft ⟨hnone, hpending⟩
    refine ⟨?_, hleft.pending.trans hpending⟩
    rcases hleft.promotion with hsame | hnone'
    · exact hsame.trans hnone
    · exact hnone'
  · rintro seen t c e u x hc hinv ⟨hnone, hpending⟩ - hperform
    have hdone := performed F hperform
    have hpromotion' := hdone.unrecorded hnone
    refine ⟨trivial, CacheRun.Inv.of_none hpromotion' fun g hg => ?_, ⟨hpromotion', hdone.pending.trans hpending⟩, fun y hy g => ?_⟩
    · rw [hdone.pending] at hg
      exact inactive_performed hdone (hc ⟨g, by rw [← hpending]; exact hg⟩) (hinv.pending g hg)
    · exact unnamed_performed hdone (hinv.pending g.1 (by rw [hpending]; exact g.2)) y hy

/-! ## Operations that read -/

omit [DecidableEq Text] in
theorem perform_get {c : Collection} {id : String} {e : RecordAnswer Text} {x : Option (Option Text)}
    (h : s.perform F (.get c id) e = some (t, x)) : t = s := by
  cases e with
  | answered => cases h; rfl
  | failed landed left =>
    cases landed <;> cases h <;> rfl

omit [DecidableEq Text] in
theorem perform_list {c : Collection} {e : RecordAnswer Text} {x : Option (List (StoredRecord Text))}
    (h : s.perform F (.list c) e = some (t, x)) : t = s := by
  cases e with
  | answered => cases h; rfl
  | failed landed left =>
    cases landed <;> cases h <;> rfl

/-- A getter that lists a collection: what it returns is the collection as it is listed. -/
theorem safe_collection {α : Type} (op : LockedOp) (parse : Text → Option α) (collection : Option String → Collection)
    (primed : ItemCacheStateDocument → Bool) (wrap : Option (List α) → CacheResult)
    (hprogram : op.program F = ((readState F).bind fun state =>
      readCollection parse (collection state.activeGeneration) (primed state)).bind fun x => .ret (wrap x)) :
    Safe (turns F).contract (service F).perform ((turns F).post op) (op.program F) [] s := by
  have hresult : ∀ t seen r, t.Inv F → (∀ result, r = some result → ∃ m ∈ seen,
      ((op.program F).eval RecordStore.exec m.state.store).2 = some result) → (turns F).post op r seen t := by
    intro t seen r ht h
    refine ⟨ht, ?_⟩
    cases op with
    | write op => trivial
    | _ => exact h
  rw [hprogram]
  intro s₁ hinv₁ _ e t raw _ hperform
  obtain rfl := perform_get hperform
  refine ⟨trivial, hinv₁, ?_⟩
  cases raw with
  | none => exact fun u hu _ => hresult u _ _ hu fun _ h => by cases h
  | some raw =>
    obtain ⟨-, hraw⟩ := (performed F hperform).answered raw rfl
    intro s₂ hinv₂ hleft e t rows _ hperform
    obtain rfl := perform_list hperform
    refine ⟨trivial, hinv₂, ?_⟩
    cases rows with
    | none => exact fun u hu _ => hresult u _ _ hu fun _ h => by cases h
    | some rows =>
      obtain ⟨-, hrows⟩ := (performed F hperform).answered rows rfl
      cases hraw
      cases hrows
      -- The state record is still the one that was read.
      have hstate : storedState F t.store = storedState F _ := storedState_congr F hleft.state
      have hrest : ((if 0 < (t.store.records (collection (storedState F t.store).activeGeneration)).rows.length then
          pure (some ((t.store.records (collection (storedState F t.store).activeGeneration)).rows.filterMap
            fun r => parse r.value))
          else pure (if primed (storedState F t.store) = true then some [] else none) : CacheM Text (Option (List α))).bind
            fun x => .ret (wrap x)) =
          .ret (wrap (readRecords parse (t.store.records (collection (storedState F t.store).activeGeneration))
            (primed (storedState F t.store)))) := by
        unfold readRecords
        split <;> rfl
      have heval : ((op.program F).eval RecordStore.exec t.store).2 =
          some (wrap (readRecords parse (t.store.records (collection (storedState F t.store).activeGeneration))
            (primed (storedState F t.store)))) := by
        have hlist : ((readState F).bind fun state => readCollection parse (collection state.activeGeneration) (primed state)).eval
            RecordStore.exec t.store = (t.store, some (readRecords parse
              (t.store.records (collection (storedState F t.store).activeGeneration)) (primed (storedState F t.store)))) := by
          rw [Async.eval_bind RecordStore.exec (t := t.store) (a := storedState F t.store) rfl]
          exact eval_readCollection parse t.store _ _
        rw [hprogram, Async.eval_bind RecordStore.exec hlist]
        rfl
      rw [hstate] at hrest heval
      refine (congrArg (fun p => Safe (turns F).contract (service F).perform ((turns F).post op) p _ t) hrest).mpr ?_
      exact fun u hu _ => hresult u _ _ hu fun result hr => ⟨_, List.mem_cons_self, hr ▸ heval⟩

theorem safe_getItemCacheMetadata :
    Safe (turns F).contract (service F).perform ((turns F).post .getItemCacheMetadata)
      (LockedOp.getItemCacheMetadata.program F) [] s := by
  intro s₁ hinv₁ _ e t raw _ hperform
  obtain rfl := perform_get hperform
  refine ⟨trivial, hinv₁, ?_⟩
  cases raw with
  | none => exact fun u hu _ => ⟨hu, fun _ h => by cases h⟩
  | some raw =>
    obtain ⟨-, hraw⟩ := (performed F hperform).answered raw rfl
    cases hraw
    exact fun u hu _ => ⟨hu, fun result hr => ⟨_, List.mem_cons_self, hr⟩⟩

/-! ## The promotion -/

section Promotion

variable {generation : String}

variable (F) in
/-- A promotion that has not written its state record. -/
structure Before (generation : String) (s : CacheRun Text) : Prop where
  recorded : ∀ p, s.promotion = some p → p.generation = generation ∧ p.after = none
  inactive : (storedState F s.store).activeGeneration ≠ some generation
  closed : s.pending generation = false

variable (F) in
/-- One that has. -/
structure Switched (generation : String) (s : CacheRun Text) : Prop where
  recorded : ∀ p, s.promotion = some p → p.after ≠ none
  active : (storedState F s.store).activeGeneration = some generation

/-- The command writes only to what is staged. -/
def Stages (generation : String) (c : RecordCommand Text) : Prop := ∀ d, c.writes = some d → d.generation = some generation

/-- It does not write to what is read of the generation. -/
def Clears (generation : String) (c : RecordCommand Text) : Prop :=
  ∀ d, c.writes = some d → d ≠ .state ∧ d ≠ itemCollectionFor (some generation) ∧ d ≠ vaultCollectionFor (some generation)

omit [DecidableEq Text] in
theorem Before.later (h : Before F generation s) (hleft : Left s t) : Before F generation t := by
  refine ⟨fun p hp => ?_, ?_, ?_⟩
  · rcases hleft.promotion with hsame | hnone
    · exact h.recorded p (hsame ▸ hp)
    · rw [hnone] at hp
      cases hp
  · rw [storedState_congr F hleft.state]
    exact h.inactive
  · rw [hleft.pending]
    exact h.closed

omit [DecidableEq Text] in
theorem Switched.later (h : Switched F generation s) (hleft : Left s t) : Switched F generation t := by
  refine ⟨fun p hp => ?_, ?_⟩
  · rcases hleft.promotion with hsame | hnone
    · exact h.recorded p (hsame ▸ hp)
    · rw [hnone] at hp
      cases hp
  · rw [storedState_congr F hleft.state]
    exact h.active

omit [DecidableEq Text] in
theorem writesState_eq_false {c : RecordCommand Text} (h : c.writes ≠ some .state) : c.writesState = false := by
  cases c with
  | put c record =>
    cases c with
    | state => exact absurd rfl h
    | _ => rfl
  | _ => rfl

omit [DecidableEq Text] in
theorem Before.performed {c : RecordCommand Text} {x : Option c.Response} (hbefore : Before F generation s)
    (h : Performed F s c t x) (hc : Stages generation c) (hs : s.Inv F) : t.Inv F ∧ Before F generation t := by
  have hne : ∀ d : Collection, d.generation ≠ some generation → c.writes ≠ some d := fun d hd hw => hd (hc d hw)
  have hstate := hne .state fun h => by cases h
  have hpromotion := h.promotion (writesState_eq_false hstate)
  refine ⟨hs.of_frame (h.records _ hstate)
    (h.records _ (hne _ fun h => hbefore.inactive (eq_of_itemCollectionFor h)))
    (h.records _ (hne _ fun h => hbefore.inactive (eq_of_vaultCollectionFor h))) h.pending hpromotion, ?_, ?_, ?_⟩
  · rw [hpromotion]
    exact hbefore.recorded
  · rw [storedState_congr F (h.records _ hstate)]
    exact hbefore.inactive
  · rw [h.pending]
    exact hbefore.closed

omit [DecidableEq Text] in
theorem Switched.performed {c : RecordCommand Text} {x : Option c.Response} (hswitched : Switched F generation s)
    (h : Performed F s c t x) (hc : Clears generation c) (hs : s.Inv F) : t.Inv F ∧ Switched F generation t := by
  have hstate : c.writes ≠ some .state := fun hw => (hc _ hw).1 rfl
  have hpromotion := h.promotion (writesState_eq_false hstate)
  refine ⟨hs.of_frame (h.records _ hstate) (h.records _ fun hw => ?_) (h.records _ fun hw => ?_) h.pending hpromotion, ?_, ?_⟩
  · rw [hswitched.active] at hw
    exact (hc _ hw).2.1 rfl
  · rw [hswitched.active] at hw
    exact (hc _ hw).2.2 rfl
  · rw [hpromotion]
    exact hswitched.recorded
  · rw [storedState_congr F (h.records _ hstate)]
    exact hswitched.active

theorem safe_before {α : Type} {seen : List (Moment (CacheRun Text) (RecordCommand Text) RecordCommand.Response)}
    {p : CacheM Text α} (hp : p.Uses (Stages generation)) (hs : Before F generation s) :
    Safe (turns F).contract (service F).perform (fun _ _ t => Before F generation t) p seen s :=
  safe_of_uses hp (fun _ _ _ hleft h => h.later hleft)
    (fun _ _ _ _ _ _ hc hinv h _ hperform =>
      have ⟨hinv', hbefore⟩ := h.performed (performed F hperform) hc hinv
      ⟨trivial, hinv', hbefore⟩) hs

theorem safe_switched {α : Type} {seen : List (Moment (CacheRun Text) (RecordCommand Text) RecordCommand.Response)}
    {p : CacheM Text α} (hp : p.Uses (Clears generation)) (hs : Switched F generation s) :
    Safe (turns F).contract (service F).perform (fun _ _ t => Switched F generation t) p seen s :=
  safe_of_uses hp (fun _ _ _ hleft h => h.later hleft)
    (fun _ _ _ _ _ _ hc hinv h _ hperform =>
      have ⟨hinv', hswitched⟩ := h.performed (performed F hperform) hc hinv
      ⟨trivial, hinv', hswitched⟩) hs

/-- A part of the promotion before the switch, and what follows. -/
theorem safe_before_bind {α β : Type} {seen : List (Moment (CacheRun Text) (RecordCommand Text) RecordCommand.Response)}
    {p : CacheM Text α} {f : α → CacheM Text β} (hp : p.Uses (Stages generation))
    (hf : ∀ a seen t, Before F generation t →
      Safe (turns F).contract (service F).perform (fun _ _ t => t.Inv F) (f a) seen t) (hs : Before F generation s) :
    Safe (turns F).contract (service F).perform (fun _ _ t => t.Inv F) (p.bind f) seen s := by
  refine Safe.bind ((safe_before hp hs).mono fun r seen t hinv ht => ?_)
  cases r with
  | none => exact hinv
  | some a => exact hf a seen t ht

omit [DecidableEq Text] in
/-- **The switch.** The state record is written, and what it names is active, or it is not. -/
theorem switch_performed {x : Option Unit} {state : ItemCacheStateDocument} (hbefore : Before F generation s)
    (hstate : parseState F (some (F.stringifyState state)) = state) (hactive : state.activeGeneration = some generation)
    (h : Performed F s (.put .state ⟨META_RECORD_ID, F.stringifyState state⟩) t x) (hs : s.Inv F) :
    t.Inv F ∧ (x = some () → Switched F generation t) := by
  have hland : ∀ u, u = s.advance F (.put .state ⟨META_RECORD_ID, F.stringifyState state⟩)
      (s.store.exec (.put .state ⟨META_RECORD_ID, F.stringifyState state⟩)).1 → u.Inv F ∧ Switched F generation u := by
    rintro u rfl
    have hread : storedState F (s.store.exec (.put .state ⟨META_RECORD_ID, F.stringifyState state⟩)).1 = state := by
      refine (congrArg (parseState F) ?_).trans hstate
      change Records.value ((s.store.setRecords .state _).records .state) _ = _
      rw [RecordStore.setRecords_self, List.foldl_cons, List.foldl_nil, value_put, if_pos rfl]
    have hrecorded : ∀ p, (s.advance F (.put .state ⟨META_RECORD_ID, F.stringifyState state⟩)
        (s.store.exec (.put .state ⟨META_RECORD_ID, F.stringifyState state⟩)).1).promotion = some p →
        p.generation = generation ∧
          p.after = some (readsOf F (s.store.exec (.put .state ⟨META_RECORD_ID, F.stringifyState state⟩)).1) := by
      intro p hp
      obtain ⟨p', hp', rfl⟩ := Option.map_eq_some_iff.mp hp
      exact ⟨(hbefore.recorded p' hp').1, rfl⟩
    refine ⟨⟨fun g hg => ?_, fun p hp hnone => ?_, fun p reads hp hsome => ?_⟩, fun p hp => ?_, ?_⟩
    · change (storedState F (s.store.exec _).1).activeGeneration ≠ some g
      rw [hread, hactive]
      rintro hsame
      cases hsame
      exact Bool.false_ne_true (hbefore.closed.symm.trans hg)
    · rw [(hrecorded p hp).2] at hnone
      cases hnone
    · obtain ⟨hgeneration, hafter⟩ := hrecorded p hp
      rw [hafter] at hsome
      refine ⟨Option.some.inj hsome, ?_⟩
      change (storedState F (s.store.exec _).1).activeGeneration = _
      rw [hread, hactive, hgeneration]
    · rw [(hrecorded p hp).2]
      exact fun h => by cases h
    · change (storedState F (s.store.exec _).1).activeGeneration = _
      rw [hread, hactive]
  refine ⟨?_, fun hx => (hland t (h.answered () hx).1).2⟩
  rcases h.whole rfl with rfl | hwritten
  · exact hs
  · exact (hland t hwritten).1

omit [DecidableEq Text] in
theorem parseState_promoted (generation : String) (metadata : Option ItemCacheMetadata) :
    parseState F (some (F.stringifyState
        { v := ITEM_CACHE_STATE_VERSION, itemsPrimed := true, vaultsPrimed := true, metadata := metadata,
          activeGeneration := some generation, nativeView := nativeViewFor F (some generation) })) =
      { v := ITEM_CACHE_STATE_VERSION, itemsPrimed := true, vaultsPrimed := true, metadata := metadata,
        activeGeneration := some generation, nativeView := nativeViewFor F (some generation) } := by
  unfold parseState
  rw [Option.bind_some, F.parseState_stringifyState]
  simp [ItemCacheStateDocument.toPartial, nativeViewFor, ITEM_CACHE_STATE_VERSION]

/-- What is cleared after the switch is not what is read of the generation. -/
theorem clears_previous {active : Option String} (hsome : active ≠ none) (hne : active ≠ some generation) :
    itemCollectionFor active ≠ itemCollectionFor (some generation) ∧
      vaultCollectionFor active ≠ vaultCollectionFor (some generation) := by
  cases active with
  | none => exact absurd rfl hsome
  | some g =>
    have hg : g ≠ generation := fun h => hne (congrArg some h)
    unfold itemCollectionFor vaultCollectionFor
    dsimp only
    split <;> split <;> constructor <;> intro h <;> cases h <;> simp_all

omit [DecidableEq Text] in
theorem uses_clearPrevious {active : Option String} (hsome : active ≠ none) (hne : active ≠ some generation) :
    (promiseAll [recordClear (itemCollectionFor active), recordClear (vaultCollectionFor active)] :
      CacheM Text Unit).Uses (Clears generation) := by
  obtain ⟨hitems, hvaults⟩ := clears_previous hsome hne
  refine uses_promiseAll (l := [itemCollectionFor active, vaultCollectionFor active]) fun c hc d hd => ?_
  cases hd
  rcases List.mem_cons.mp hc with rfl | hc
  · refine ⟨?_, hitems, ?_⟩
    · rcases itemCollectionFor_cases active with h | ⟨g, h⟩ <;> rw [h] <;> exact fun h => by cases h
    · rcases itemCollectionFor_cases active with h | ⟨g, h⟩ <;>
        rcases vaultCollectionFor_cases (some generation) with h' | ⟨g', h'⟩ <;> rw [h, h'] <;> exact fun h => by cases h
  · rw [List.mem_singleton.mp hc]
    refine ⟨?_, ?_, hvaults⟩
    · rcases vaultCollectionFor_cases active with h | ⟨g, h⟩ <;> rw [h] <;> exact fun h => by cases h
    · rcases vaultCollectionFor_cases active with h | ⟨g, h⟩ <;>
        rcases itemCollectionFor_cases (some generation) with h' | ⟨g', h'⟩ <;> rw [h, h'] <;> exact fun h => by cases h

omit [DecidableEq Text] in
theorem uses_clearOwnBaselines :
    (promiseAll [recordClear (.stagedItemBaseline generation), recordClear (.stagedVaultBaseline generation)] :
      CacheM Text Unit).Uses (Clears generation) := by
  refine uses_promiseAll (l := [.stagedItemBaseline generation, .stagedVaultBaseline generation]) fun c hc d hd => ?_
  cases hd
  rcases List.mem_cons.mp hc with rfl | hc
  · refine ⟨(fun h => by cases h), ?_, ?_⟩
    · rcases itemCollectionFor_cases (some generation) with h | ⟨g, h⟩ <;> rw [h] <;> exact fun h => by cases h
    · rcases vaultCollectionFor_cases (some generation) with h | ⟨g, h⟩ <;> rw [h] <;> exact fun h => by cases h
  · rw [List.mem_singleton.mp hc]
    refine ⟨(fun h => by cases h), ?_, ?_⟩
    · rcases itemCollectionFor_cases (some generation) with h | ⟨g, h⟩ <;> rw [h] <;> exact fun h => by cases h
    · rcases vaultCollectionFor_cases (some generation) with h | ⟨g, h⟩ <;> rw [h] <;> exact fun h => by cases h

theorem safe_readState_bind {α : Type} {seen : List (Moment (CacheRun Text) (RecordCommand Text) RecordCommand.Response)}
    {f : ItemCacheStateDocument → CacheM Text α}
    (hf : ∀ state, state.activeGeneration ≠ some generation → ∀ seen t, Before F generation t →
      Safe (turns F).contract (service F).perform (fun _ _ t => t.Inv F) (f state) seen t) (hs : Before F generation s) :
    Safe (turns F).contract (service F).perform (fun _ _ t => t.Inv F) ((readState F).bind f) seen s := by
  intro s₁ hinv hleft e t raw _ hperform
  obtain rfl := perform_get hperform
  refine ⟨trivial, hinv, ?_⟩
  have hbefore := hs.later hleft
  cases raw with
  | none => exact fun u hu _ => hu
  | some raw =>
    obtain ⟨-, hraw⟩ := (performed F hperform).answered raw rfl
    cases hraw
    exact hf _ hbefore.inactive _ _ hbefore

theorem safe_switch {seen : List (Moment (CacheRun Text) (RecordCommand Text) RecordCommand.Response)}
    {state : ItemCacheStateDocument} (hs : Before F generation s)
    (hstate : parseState F (some (F.stringifyState state)) = state) (hactive : state.activeGeneration = some generation) :
    Safe (turns F).contract (service F).perform (fun r _ t => r = some () → Switched F generation t)
      (writeState F state) seen s := by
  refine safe_await (fun r _ t u _ hleft h hr => (h hr).later hleft) fun s₁ hinv hleft e t x _ hperform => ?_
  obtain ⟨hinv', hswitched⟩ := switch_performed (hs.later hleft) hstate hactive (performed F hperform) hinv
  exact ⟨trivial, hinv', hswitched⟩

/-- The program of a promotion, from any moment before the switch. -/
theorem safe_promoteLocked {seen : List (Moment (CacheRun Text) (RecordCommand Text) RecordCommand.Response)}
    (lastFullSyncAt cacheVersion : Nat) (syncBaseline : Option (String × Option String)) (hs : Before F generation s) :
    Safe (turns F).contract (service F).perform (fun _ _ t => t.Inv F)
      (promoteLocked F generation lastFullSyncAt cacheVersion syncBaseline) seen s := by
  have hstages : ∀ {c : RecordCommand Text}, c.writes = none → Stages generation c := by
    intro c hc d hd
    rw [hc] at hd
    cases hd
  have hwrites : ∀ {c : RecordCommand Text} {d : Collection}, c.writes = some d → d.generation = some generation →
      Stages generation c := by
    intro c d hc hd d' hd'
    rw [hc] at hd'
    cases hd'
    exact hd
  refine safe_readState_bind (fun previous hprevious seen s hs => ?_) hs
  refine safe_before_bind (uses_valuesOf (hstages rfl)) (fun itemBaselineValues seen s hs => ?_) hs
  refine safe_before_bind (uses_recordList (hstages rfl)) (fun previousItemRecords seen s hs => ?_) hs
  refine safe_before_bind (uses_valuesOf (hstages rfl)) (fun stagedItemValues seen s hs => ?_) hs
  refine safe_before_bind (uses_forM_delete (fun _ => hwrites rfl rfl) _ _) (fun _ seen s hs => ?_) hs
  refine safe_before_bind (Async.uses_await (hwrites rfl rfl)) (fun _ seen s hs => ?_) hs
  refine safe_before_bind (uses_valuesOf (hstages rfl)) (fun vaultBaselineValues seen s hs => ?_) hs
  refine safe_before_bind (uses_recordList (hstages rfl)) (fun previousVaultRecords seen s hs => ?_) hs
  refine safe_before_bind (uses_forM_delete (fun _ => hwrites rfl rfl) _ _) (fun _ seen s hs => ?_) hs
  refine safe_before_bind (uses_forM_delete (fun _ => hwrites rfl rfl) _ _) (fun _ seen s hs => ?_) hs
  refine safe_before_bind (Async.uses_await (hwrites rfl rfl)) (fun _ seen s hs => ?_) hs
  refine Safe.bind ((safe_switch hs (parseState_promoted generation _) rfl).mono fun r seen s hinv hswitched => ?_)
  cases r with
  | none => exact hinv
  | some r =>
    refine (safe_switched ?_ (hswitched rfl)).mono fun _ _ t ht _ => ht
    refine Async.Uses.bind (p := settle generation) (Async.uses_await fun d hd => by cases hd) fun _ => ?_
    dsimp only
    split
    · next hsome => exact (uses_clearPrevious hsome hprevious).bind fun _ => uses_clearOwnBaselines
    · exact uses_clearOwnBaselines

end Promotion

/-! ## Every operation -/

omit [DecidableEq Text] in
/-- Beginning a generation writes no state record. -/
theorem uses_begin (other generation : String) :
    (beginStagedGeneration F other).Uses (Unnames F generation) := by
  refine Async.Uses.bind ((Async.uses_await trivial).bind fun _ => Async.uses_ret _) fun state => ?_
  refine (uses_recordList trivial).bind fun _ => (uses_recordList trivial).bind fun _ => Async.Uses.bind ?_ fun _ => ?_
  · exact uses_promiseAll (l := [.stagedItems other, .stagedVaults other, .stagedItemBaseline other,
      .stagedVaultBaseline other]) fun c hc => trivial
  · exact Async.Uses.bind (p := recordPutMany (.stagedItemBaseline other) _) (Async.uses_await fun h => by cases h) fun _ =>
      Async.uses_await fun h => by cases h

/-- An operation of no generation. -/
theorem safe_write_of_generation {op : CacheOp} (hop : op.generation = none) (hs : s.Inv F) :
    CacheRun.Inv F { s with promotion := none } ∧
      Safe (turns F).contract (service F).perform ((turns F).post (.write op)) (LockedOp.program F (.write op)) []
        { s with promotion := none } := by
  refine ⟨CacheRun.Inv.of_none rfl hs.pending, safe_write rfl fun g _ => ?_⟩
  refine ((usesWhen_program F op ?_).mono (fun _ _ h => h) fun _ => unnames_of_spares).bind fun _ => trivial
  rw [hop]
  exact fun h => by cases h

theorem safe_begin {generation : String} (hnew : (storedState F s.store).activeGeneration ≠ some generation) (hs : s.Inv F) :
    (started F (.write (.beginStagedGeneration generation)) s).Inv F ∧
      Safe (turns F).contract (service F).perform ((turns F).post (.write (.beginStagedGeneration generation)))
        (LockedOp.program F (.write (.beginStagedGeneration generation))) []
        (started F (.write (.beginStagedGeneration generation)) s) := by
  refine ⟨CacheRun.Inv.of_none rfl fun g hg => ?_, safe_write rfl fun g _ =>
    (uses_begin generation g).when.bind fun _ => trivial⟩
  by_cases hsame : g = generation
  · subst hsame
    exact hnew
  · exact hs.pending g ((Function.update_of_ne hsame _ _).symm.trans hg)

theorem safe_promote {generation : String} {lastFullSyncAt cacheVersion : Nat} {syncBaseline : Option (String × Option String)}
    (hpending : s.pending generation = true) (hs : s.Inv F) :
    (started F (.write (.promote generation lastFullSyncAt cacheVersion syncBaseline)) s).Inv F ∧
      Safe (turns F).contract (service F).perform
        ((turns F).post (.write (.promote generation lastFullSyncAt cacheVersion syncBaseline)))
        (LockedOp.program F (.write (.promote generation lastFullSyncAt cacheVersion syncBaseline))) []
        (started F (.write (.promote generation lastFullSyncAt cacheVersion syncBaseline)) s) := by
  have hinactive := hs.pending generation hpending
  have hbefore : Before F generation (started F (.write (.promote generation lastFullSyncAt cacheVersion syncBaseline)) s) := by
    refine ⟨fun p hp => ?_, hinactive, Function.update_self ..⟩
    cases hp
    exact ⟨rfl, rfl⟩
  refine ⟨⟨fun g hg => ?_, fun p hp _ => ?_, fun p reads hp hsome => ?_⟩, ?_⟩
  · by_cases hsame : g = generation
    · subst hsame
      exact hinactive
    · exact hs.pending g ((Function.update_of_ne hsame _ _).symm.trans hg)
  · cases hp
    exact ⟨rfl, hinactive⟩
  · cases hp
    cases hsome
  · have hassert : (assertPending generation : CacheM Text Unit).Uses (Stages generation) := by
      refine Async.Uses.bind (p := isSettled generation) (Async.uses_await fun d hd => by cases hd) fun settled => ?_
      split
      · exact Async.uses_throw
      · exact Async.uses_ret _
    refine Safe.bind ((safe_before_bind hassert (fun _ seen t ht =>
      safe_promoteLocked lastFullSyncAt cacheVersion syncBaseline ht) hbefore).mono fun r seen t _ ht => ?_)
    cases r with
    | none => exact ⟨ht, trivial⟩
    | some r => exact fun u hu _ => ⟨hu, trivial⟩

theorem sound : (turns F).Sound (Startable F) := by
  refine ⟨fun w s t h hs => stagedWrite_keeps h hs, fun op s hs hstartable => ?_⟩
  cases op with
  | write op =>
    cases op with
    | promote generation lastFullSyncAt cacheVersion syncBaseline => exact safe_promote hstartable hs
    | beginStagedGeneration generation => exact safe_begin hstartable hs
    | stageItem generation item => exact hstartable.elim
    | stageItems generation batch => exact hstartable.elim
    | stageVault generation vault => exact hstartable.elim
    | stageVaults generation batch => exact hstartable.elim
    | discard generation => exact hstartable.elim
    | _ => exact safe_write_of_generation rfl hs
  | getCachedItems => exact ⟨hs, safe_collection .getCachedItems F.parseItem itemCollectionFor (·.itemsPrimed) .items rfl⟩
  | getCachedVaults => exact ⟨hs, safe_collection .getCachedVaults F.parseVault vaultCollectionFor (·.vaultsPrimed) .vaults rfl⟩
  | getItemCacheMetadata => exact ⟨hs, safe_getItemCacheMetadata⟩

/-- **A promotion is atomic for readers.** Wherever a promotion is, and wherever it was rejected or stopped, the cache
reads as it did when the promotion began, or, once the state record is written, as it did then; and what a getter
returns is what the cache read as at one moment. -/
theorem promotion_atomic {q : Sections (CacheRun Text) (RecordCommand Text) RecordCommand.Response LockedOp CacheResult}
    (h : (system F).Reachable q) :
    (∀ p, q.shared.promotion = some p → readsOf F q.shared.store = p.after.getD p.before) ∧
      ∀ call, q.holder = some call → ∀ result, call.rest = .ret result →
        (∃ op, call.op = .write op) ∨
          ∃ m ∈ call.seen, ((call.op.program F).eval RecordStore.exec m.state.store).2 = some result := by
  have hholds := sound.holds (X := turns F) (fun s hs => CacheRun.Inv.of_none hs.2 fun g hg => by
    rw [hs.1] at hg
    cases hg) h
  refine ⟨fun p hp => ?_, fun call hcall result hresult => ?_⟩
  · cases hafter : p.after with
    | none => exact (hholds.inv.before p hp hafter).1
    | some reads => exact (hholds.inv.after p reads hp hafter).1
  · have hreturned := hholds.returned call hcall result hresult
    obtain ⟨op, seen, rest⟩ := call
    cases op with
    | write op => exact .inl ⟨op, rfl⟩
    | _ => exact .inr (hreturned result rfl)

/-- A generation is staged, and its promotion is rejected when it writes the state record. -/
def exampleLabels : List (SectionLabel LockedOp (RecordAnswer Written) (StagedWrite Written)) :=
  [.enter (.write (.beginStagedGeneration "generation"))] ++ List.replicate 9 (.resume .answered) ++
    [.other ⟨.stagedItems "generation", exampleStaged 3⟩, .enter (.write (.promote "generation" 0 1 none))] ++
    List.replicate 9 (.resume .answered) ++ [.resume (.failed false .empty)]

theorem promotion_atomic_rejected :
    ∃ q p, (system exampleFormat).Reachable q ∧ q.shared.promotion = some p ∧ p.after = none ∧
      q.holder.any (·.rest.waits) = false ∧ readsOf exampleFormat q.shared.store = p.before := by
  have hcheck : ((system exampleFormat).run ⟨⟨exampleStore, fun _ => false, none⟩, none⟩ exampleLabels).any (fun q =>
      q.shared.promotion.any (fun p => p.after = none) && !q.holder.any (·.rest.waits)) = true := by decide +kernel
  rw [Option.any_eq_true] at hcheck
  obtain ⟨q, hq, hboth⟩ := hcheck
  obtain ⟨hpromotion, hrejected⟩ := Bool.and_eq_true_iff.mp hboth
  obtain ⟨p, hp, hafter⟩ := (Option.any_eq_true ..).mp hpromotion
  have hinit : (system exampleFormat).init ⟨⟨exampleStore, fun _ => false, none⟩, none⟩ := ⟨⟨rfl, rfl⟩, rfl⟩
  have hreachable : (system exampleFormat).Reachable q := .run (.init hinit) hq
  have hreads := (promotion_atomic hreachable).1 p hp
  rw [of_decide_eq_true hafter] at hreads
  exact ⟨q, p, hreachable, hp, of_decide_eq_true hafter, by simpa using hrejected, hreads⟩

end Bittery.ItemCache
