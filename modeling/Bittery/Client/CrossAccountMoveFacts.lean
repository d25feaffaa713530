/-
What a move between accounts keeps of the item.

An attempt that finds the source in the trash, one version on, with the target there, takes
the trash for its own last step but one and deletes the source. It does not look at the
attachments. When somebody else has trashed the source at that version, after an attempt that
made the target and failed before the attachments were there, they are deleted with it.
`Foreseen` leaves that out, and changes of the attachments that come too late to be migrated;
apart from these no order of requests, failures and edits loses anything.
-/
import Bittery.Client.CrossAccountMove

namespace Bittery

open Lib

namespace MoveAwait

/-- An attempt has listed the attachments and has not yet trashed the source. -/
def isMigrating : MoveAwait → Bool
  | .creating _ | .listingTarget _ | .clearing .. | .migrating _ | .trashing => true
  | _ => false

/-- An attempt has found the source where the move started from, and has not yet trashed it. -/
def isPreparing : MoveAwait → Bool
  | .listing _ => true
  | a => a.isMigrating

end MoveAwait

namespace MoveState

variable {m : CrossAccountMove} {s t : MoveState}

/-- **Foreseen**: a source that an attempt finds one version on in the trash, with the target
there, was trashed by the move or has no attachments; and nobody changes the attachments from
when an attempt has listed them until it trashes the source, or while it is in the trash. -/
def Foreseen (m : CrossAccountMove) (s : MoveState) : MoveInput → Prop
  | .answered _ | .lost _ =>
    ∀ source, s.await = .probing → s.source = some source → source.deleted = true →
      source.version = m.baseVersion + 1 → s.target.isSome → source.trashedByMove = true ∨ source.attachments = []
  | .attachmentsChanged _ => s.await.isMigrating = false ∧ ∀ source, s.source = some source → source.deleted = false
  | _ => True

/-- What an attempt knows while it waits. -/
def Knows (s : MoveState) : MoveAwait → Prop
  | .idle | .ended (.error _) | .probing => True
  | .ended (.ok _) => s.source = none ∧ s.target.isSome
  | .listing hasTarget => hasTarget = true → s.target.isSome
  | .creating attachments => ∀ source, s.source = some source → ∀ a ∈ source.attachments, a ∈ attachments
  | .listingTarget attachments | .clearing attachments _ =>
    s.target.isSome ∧ ∀ source, s.source = some source → ∀ a ∈ source.attachments, a ∈ attachments
  | .migrating attachments =>
    ∃ target, s.target = some target ∧
      ∀ source, s.source = some source → ∀ a ∈ source.attachments, a ∈ attachments ∨ target.HasCopy a
  | .trashing => ∃ target, s.target = some target ∧ ∀ source, s.source = some source → target.HasCopies source
  | .deleting version =>
    s.target.isSome ∧ ∀ source, s.source = some source → version ≤ source.version ∧
      (source.version = version → source.deleted = true → source.trashedByMove = true ∨ source.attachments = [])

/-- **The invariant.** -/
structure Safe (m : CrossAccountMove) (s : MoveState) : Prop where
  target : ∀ target, s.target = some target → target.Matches m
  own : ∀ source, s.source = some source → source.trashedByMove = true → source.deleted = true ∧
    s.await.isPreparing = false ∧ ∃ target, s.target = some target ∧ target.HasCopies source
  knows : s.Knows s.await

/-- The source is deleted from a target that has all of it. -/
def DeletesSafely (m : CrossAccountMove) (s t : MoveState) : Prop :=
  ∀ source, s.source = some source → t.source = none →
    ∃ target, t.target = some target ∧ target.Matches m ∧ target.HasCopies source

theorem Safe.throw (h : Safe m s) (e : MoveError) : Safe m (s.throw e) where
  target := h.target
  own source hs ho := ⟨(h.own source hs ho).1, rfl, (h.own source hs ho).2.2⟩
  knows := trivial

/-- While an attempt prepares, nothing in the trash is the move's. -/
theorem Safe.not_own (h : Safe m s) (hp : s.await.isPreparing = true) {source : SourceItem}
    (hs : s.source = some source) : source.trashedByMove ≠ true := fun ho => by
  have := (h.own source hs ho).2.1
  rw [hp] at this; cases this

/-! ## The steps of an attempt -/

theorem Safe.probed (h : Safe m s)
    (hf : ∀ source, s.source = some source → source.deleted = true → source.version = m.baseVersion + 1 →
      s.target.isSome → source.trashedByMove = true ∨ source.attachments = []) : Safe m (s.probed m) := by
  unfold MoveState.probed
  split
  · exact h.throw _
  split
  · next hsource =>
    split
    · exact h.throw _
    · next htarget =>
      have hsome : s.target.isSome = true := Option.isSome_iff_ne_none.mpr (by simpa using htarget)
      refine ⟨h.target, fun source hs _ => ?_, hsource, hsome⟩
      rw [show s.source = some source from hs] at hsource; cases hsource
  · next source hsource =>
    split
    · next hdeleted =>
      split
      · exact h.throw _
      · next hfound =>
        simp only [Bool.or_eq_true, decide_eq_true_eq, not_or, Decidable.not_not] at hfound
        have htarget : s.target.isSome = true := by
          cases ht : s.target with
          | none => rw [ht] at hfound; exact absurd rfl hfound.2
          | some _ => rfl
        refine ⟨h.target, fun src hs ho => ⟨(h.own src hs ho).1, rfl, (h.own src hs ho).2.2⟩, htarget, fun src hs => ?_⟩
        rw [show s.source = some src from hs] at hsource
        cases hsource
        exact ⟨Nat.le_refl _, fun _ hd => hf _ hs hd hfound.1 htarget⟩
    · next hlive =>
      split
      · exact h.throw _
      · refine ⟨h.target, fun src hs ho => ?_, fun ht => ht⟩
        rw [show s.source = some src from hs] at hsource
        cases hsource
        exact absurd (h.own _ hs ho).1 hlive

/-- The attachments that are left are migrated, or none is left. -/
theorem safe_migrate (htarget : ∀ target, s.target = some target → target.Matches m)
    (hown : ∀ source, s.source = some source → source.trashedByMove ≠ true) {attachments : List SourceAttachment}
    (hleft : ∃ target, s.target = some target ∧
      ∀ source, s.source = some source → ∀ a ∈ source.attachments, a ∈ attachments ∨ target.HasCopy a) :
    Safe m (s.migrate attachments) := by
  cases attachments with
  | nil =>
    obtain ⟨target, ht, hcopies⟩ := hleft
    refine ⟨htarget, fun source hs ho => absurd ho (hown source hs), target, ht, fun source hs a ha => ?_⟩
    rcases hcopies source hs a ha with hm | hc
    · cases hm
    · exact hc
  | cons a attachments => exact ⟨htarget, fun source hs ho => absurd ho (hown source hs), hleft⟩

theorem safe_clear (htarget : ∀ target, s.target = some target → target.Matches m)
    (hown : ∀ source, s.source = some source → source.trashedByMove ≠ true) {attachments : List SourceAttachment}
    (hsome : s.target.isSome) (hleft : ∀ source, s.source = some source → ∀ a ∈ source.attachments, a ∈ attachments)
    (ids : List String) : Safe m (s.clear attachments ids) := by
  cases ids with
  | nil =>
    obtain ⟨target, ht⟩ := Option.isSome_iff_exists.mp hsome
    exact safe_migrate htarget hown ⟨target, ht, fun source hs a ha => .inl (hleft source hs a ha)⟩
  | cons id ids => exact ⟨htarget, fun source hs ho => absurd ho (hown source hs), hsome, hleft⟩

theorem matches_setTargetAttachments (h : ∀ target, s.target = some target → target.Matches m)
    (f : List TargetAttachment → List TargetAttachment) :
    ∀ target, (s.setTargetAttachments f).target = some target → target.Matches m := by
  intro target ht
  obtain ⟨old, hold, rfl⟩ := Option.map_eq_some_iff.mp (show s.target.map _ = some target from ht)
  exact h old hold

theorem TargetItem.hasCopy_append {target : TargetItem} {a : SourceAttachment} (b : TargetAttachment)
    (h : target.HasCopy a) : TargetItem.HasCopy { target with attachments := target.attachments ++ [b] } a := by
  obtain ⟨c, hc, h⟩ := h
  exact ⟨c, List.mem_append_left _ hc, h⟩

/-- **A request of an attempt** keeps the invariant, and deletes the source safely. -/
theorem Safe.answer (h : Safe m s) {id : String} (hf : s.Foreseen m (.answered id)) (hstep : s.answer m id = some t) :
    Safe m t ∧ DeletesSafely m s t := by
  have hkeep : ∀ u : MoveState, u.source = s.source → DeletesSafely m s u := fun u hu source hs hnone => by
    rw [hu, hs] at hnone; cases hnone
  have hknows := h.knows
  have hown := fun hp source => @Safe.not_own _ _ h hp source
  unfold MoveState.answer at hstep
  split at hstep
  · cases hstep
  · cases hstep
  · next ha =>
    cases hstep
    refine ⟨h.probed fun source => hf source ha, hkeep _ ?_⟩
    unfold MoveState.probed
    split
    · rfl
    split
    · split <;> rfl
    · split
      · split <;> rfl
      · split <;> rfl
  · next hasTarget ha =>
    rw [ha] at hknows hown
    split at hstep <;> cases hstep
    · exact ⟨h.throw _, hkeep _ rfl⟩
    · next source hsource =>
      refine ⟨⟨h.target, fun source hs ho => absurd ho (hown rfl source hs), ?_⟩, hkeep _ rfl⟩
      have hleft : ∀ src, s.source = some src → ∀ a ∈ src.attachments, a ∈ source.attachments := by
        intro src hs a hmem
        rw [hsource] at hs
        cases hs; exact hmem
      cases hasTarget with
      | true => exact ⟨hknows rfl, hleft⟩
      | false => exact hleft
  · next attachments ha =>
    rw [ha] at hknows hown
    split at hstep <;> cases hstep
    · exact ⟨h.throw _, hkeep _ rfl⟩
    · refine ⟨safe_migrate (s := s.createTarget m) (fun target ht => ?_) (hown rfl)
        ⟨_, rfl, fun source hs a hmem => .inl (hknows source hs a hmem)⟩, hkeep _ (by cases attachments <;> rfl)⟩
      cases ht
      exact ⟨rfl, rfl, rfl, rfl, rfl⟩
  · next attachments ha =>
    rw [ha] at hknows hown
    split at hstep <;> cases hstep
    · exact ⟨h.throw _, hkeep _ rfl⟩
    · next target htarget =>
      refine ⟨safe_clear h.target (hown rfl) hknows.1 hknows.2 _, hkeep _ ?_⟩
      unfold MoveState.clear MoveState.migrate
      split
      · split <;> rfl
      · rfl
  · next attachments ha =>
    cases hstep
    rw [ha] at hknows hown
    obtain ⟨target, ht⟩ := Option.isSome_iff_exists.mp hknows.1
    refine ⟨safe_migrate h.target (hown rfl) ⟨target, ht, fun source hs a hmem => .inl (hknows.2 source hs a hmem)⟩,
      hkeep _ (by cases attachments <;> rfl)⟩
  · next attachments removed ids ha =>
    cases hstep
    rw [ha] at hknows hown
    refine ⟨safe_clear (matches_setTargetAttachments h.target _) (hown rfl) ?_ hknows.2 ids, hkeep _ ?_⟩
    · exact (Option.isSome_map ..).trans hknows.1
    · unfold MoveState.clear MoveState.migrate
      split
      · split <;> rfl
      · rfl
  · next ha =>
    cases hstep
    rw [ha] at hknows hown
    exact ⟨safe_migrate h.target (hown rfl) hknows, hkeep _ rfl⟩
  · next a attachments ha =>
    rw [ha] at hknows hown
    obtain ⟨target, ht, hleft⟩ := hknows
    rw [if_neg (by rw [ht]; simp)] at hstep
    cases hstep
    refine ⟨safe_migrate (matches_setTargetAttachments h.target _) (hown rfl)
      ⟨_, congrArg (Option.map _) ht, fun source hs b hmem => ?_⟩, hkeep _ (by cases attachments <;> rfl)⟩
    rcases hleft source hs b hmem with hin | hcopy
    · rcases List.mem_cons.mp hin with rfl | hin
      · exact .inr ⟨⟨id, b.content, b.id⟩, List.mem_append_right _ (List.mem_singleton.mpr rfl), rfl, rfl⟩
      · exact .inl hin
    · exact .inr (TargetItem.hasCopy_append _ hcopy)
  · next ha =>
    rw [ha] at hknows
    obtain ⟨target, ht, hcopies⟩ := hknows
    split at hstep
    · cases hstep; exact ⟨h.throw _, hkeep _ rfl⟩
    · next source hsource =>
      split at hstep <;> cases hstep
      · exact ⟨h.throw _, hkeep _ rfl⟩
      · next hversion =>
        have hv : source.version = m.baseVersion := by simpa using hversion
        refine ⟨⟨h.target, fun src hs _ => ?_, by simp [ht], fun src hs => ?_⟩, fun src hs hnone => by cases hnone⟩
        · cases hs
          exact ⟨rfl, rfl, target, ht, hcopies source hsource⟩
        · cases hs
          exact ⟨by simp [hv], fun _ _ => .inl rfl⟩
  · next version ha =>
    rw [ha] at hknows
    split at hstep
    · cases hstep; exact ⟨h.throw _, hkeep _ rfl⟩
    · next source hsource =>
      split at hstep <;> cases hstep
      · next hfound =>
        simp only [Bool.and_eq_true, decide_eq_true_eq] at hfound
        obtain ⟨target, ht⟩ := Option.isSome_iff_exists.mp hknows.1
        refine ⟨⟨h.target, (fun src hs => by cases hs), rfl, hknows.1⟩, fun src hs _ => ?_⟩
        rw [hsource] at hs
        cases hs
        rcases (hknows.2 source hsource).2 hfound.2 hfound.1 with hown | hnone
        · obtain ⟨-, -, target, ht, hcopies⟩ := h.own source hsource hown
          exact ⟨target, ht, h.target target ht, hcopies⟩
        · exact ⟨target, ht, h.target target ht, fun a hmem => by rw [hnone] at hmem; cases hmem⟩
      · exact ⟨h.throw _, hkeep _ rfl⟩

/-! ## What others do -/

theorem Safe.writeSource (h : Safe m s) {f : SourceItem → SourceItem}
    (hf : ∀ source, (f source).attachments = source.attachments) : Safe m (s.writeSource f) := by
  have hsome : ∀ src, (s.writeSource f).source = some src → ∃ source, s.source = some source ∧
      src.attachments = source.attachments ∧ src.version = source.version + 1 ∧ src.trashedByMove = false := by
    intro src hs
    obtain ⟨source, hsource, rfl⟩ := Option.map_eq_some_iff.mp (show s.source.map _ = some src from hs)
    exact ⟨source, hsource, hf source, rfl, rfl⟩
  refine ⟨h.target, fun src hs ho => ?_, ?_⟩
  · obtain ⟨-, -, -, -, hfalse⟩ := hsome src hs
    rw [hfalse] at ho; cases ho
  · have hleft : ∀ {p : SourceAttachment → Prop}, (∀ source, s.source = some source → ∀ a ∈ source.attachments, p a) →
        ∀ src, (s.writeSource f).source = some src → ∀ a ∈ src.attachments, p a := by
      intro p hp src hs a hmem
      obtain ⟨source, hsource, hatt, -⟩ := hsome src hs
      exact hp source hsource a (hatt ▸ hmem)
    have hknows := h.knows
    show (s.writeSource f).Knows s.await
    cases ha : s.await with
    | idle | probing => trivial
    | ended result =>
      rw [ha] at hknows
      cases result with
      | error => trivial
      | ok => exact ⟨by simp [MoveState.writeSource, hknows.1], hknows.2⟩
    | listing => rw [ha] at hknows; exact hknows
    | creating => rw [ha] at hknows; exact hleft hknows
    | listingTarget | clearing => rw [ha] at hknows; exact ⟨hknows.1, hleft hknows.2⟩
    | migrating =>
      rw [ha] at hknows
      obtain ⟨target, ht, hknows⟩ := hknows
      exact ⟨target, ht, hleft hknows⟩
    | trashing =>
      rw [ha] at hknows
      obtain ⟨target, ht, hknows⟩ := hknows
      exact ⟨target, ht, hleft hknows⟩
    | deleting version =>
      rw [ha] at hknows
      refine ⟨hknows.1, fun src hs => ?_⟩
      obtain ⟨source, hsource, -, hversion, -⟩ := hsome src hs
      have := (hknows.2 source hsource).1
      exact ⟨by omega, fun hv => absurd hv (by omega)⟩

theorem Safe.attachmentsChanged (h : Safe m s) {attachments : List SourceAttachment}
    (hf : s.Foreseen m (.attachmentsChanged attachments)) :
    Safe m { s with source := s.source.map fun source => { source with attachments } } := by
  obtain ⟨hmigrating, hlive⟩ := hf
  have hsome : ∀ src, (s.source.map fun source => { source with attachments }) = some src →
      ∃ source, s.source = some source ∧ src.deleted = source.deleted ∧ src.version = source.version ∧
        src.trashedByMove = source.trashedByMove := by
    intro src hs
    obtain ⟨source, hsource, rfl⟩ := Option.map_eq_some_iff.mp hs
    exact ⟨source, hsource, rfl, rfl, rfl⟩
  refine ⟨h.target, fun src hs ho => ?_, ?_⟩
  · obtain ⟨source, hsource, -, -, heq⟩ := hsome src hs
    have := (h.own source hsource (heq ▸ ho)).1
    rw [hlive source hsource] at this; cases this
  · have hknows := h.knows
    show Knows _ s.await
    cases ha : s.await with
    | idle | probing => trivial
    | ended result =>
      rw [ha] at hknows
      cases result with
      | error => trivial
      | ok => exact ⟨by simp [hknows.1], hknows.2⟩
    | listing => rw [ha] at hknows; exact hknows
    | creating | listingTarget | clearing | migrating | trashing => rw [ha] at hmigrating; cases hmigrating
    | deleting version =>
      rw [ha] at hknows
      refine ⟨hknows.1, fun src hs => ?_⟩
      obtain ⟨source, hsource, hdeleted, hversion, -⟩ := hsome src hs
      refine ⟨by have := (hknows.2 source hsource).1; omega, fun _ hd => ?_⟩
      rw [hdeleted, hlive source hsource] at hd; cases hd

/-- Others neither take the source away nor spoil what an attempt knows. -/
theorem Safe.disturb (h : Safe m s) {a : MoveInput} (hf : s.Foreseen m a) (hstep : s.disturb a = some t) :
    Safe m t ∧ DeletesSafely m s t := by
  have hkeep : t.source.isSome = s.source.isSome → DeletesSafely m s t := fun hsame source hs hnone => by
    rw [hs, hnone] at hsame; cases hsame
  cases a with
  | edited | trashed | restored => cases hstep; exact ⟨h.writeSource fun _ => rfl, hkeep (Option.isSome_map ..)⟩
  | attachmentsChanged => cases hstep; exact ⟨h.attachmentsChanged hf, hkeep (Option.isSome_map ..)⟩
  | attempt | answered | lost | failed => cases hstep

/-- **Every foreseen step** keeps the invariant, and deletes the source safely. -/
theorem Safe.step (h : Safe m s) {a : MoveInput} (hf : s.Foreseen m a) (hstep : s.step m a = some t) :
    Safe m t ∧ DeletesSafely m s t := by
  have hkeep : ∀ u : MoveState, u.source = s.source → DeletesSafely m s u := fun u hu source hs hnone => by
    rw [hu, hs] at hnone; cases hnone
  cases a with
  | attempt =>
    simp only [MoveState.step] at hstep
    split at hstep <;> cases hstep
    exact ⟨⟨h.target, fun source hs ho => ⟨(h.own source hs ho).1, rfl, (h.own source hs ho).2.2⟩, trivial⟩, hkeep _ rfl⟩
  | answered id => exact h.answer hf hstep
  | lost id =>
    obtain ⟨u, hu, rfl⟩ := Option.map_eq_some_iff.mp hstep
    obtain ⟨hsafe, hdeletes⟩ := h.answer hf hu
    exact ⟨hsafe.throw _, hdeletes⟩
  | failed =>
    simp only [MoveState.step] at hstep
    split at hstep <;> cases hstep
    exact ⟨h.throw _, hkeep _ rfl⟩
  | edited | trashed | restored | attachmentsChanged => exact h.disturb hf hstep

end MoveState

open MoveState

/-- **A move loses nothing**: in every foreseen run, a step that deletes the source leaves a
target of the move's vault, category and ciphertext that has a copy of each of its attachments,
and when an attempt has reported success, the source is gone and that target is there. -/
theorem crossAccountMove_loses_nothing {command : ItemSyncCommand} {m : CrossAccountMove}
    (hm : command.crossAccountMove = .ok m) {s : MoveState}
    (h : (crossAccountMove command).ReachableUnder (Foreseen m) s) :
    (∀ a t, s.Foreseen m a → (crossAccountMove command).step s a = some t → DeletesSafely m s t) ∧
      ∀ acknowledgement, s.await = .ended (.ok acknowledgement) →
        s.source = none ∧ ∃ target, s.target = some target ∧ target.Matches m := by
  have hstep : ∀ s a, (crossAccountMove command).step s a = s.step m a := fun s a => by
    simp only [crossAccountMove, hm]
  have hsafe : Safe m s := by
    refine h.invariant (Safe m) (fun s hs => ?_) fun s a t _ hI hC hst => (hI.step hC (hstep s a ▸ hst)).1
    obtain ⟨hidle, htarget, hown⟩ := hs
    refine ⟨fun target ht => ?_, fun source hsource ho => ?_, by rw [hidle]; trivial⟩
    · rw [htarget] at ht; cases ht
    · rw [hown source hsource] at ho; cases ho
  refine ⟨fun a t hf hst => (hsafe.step hf (hstep s a ▸ hst)).2, fun acknowledgement hover => ?_⟩
  have hknows := hsafe.knows
  rw [hover] at hknows
  obtain ⟨target, ht⟩ := Option.isSome_iff_exists.mp hknows.2
  exact ⟨hknows.1, target, ht, hsafe.target target ht⟩

/-- A move of an item in its first version. -/
def firstMove : ItemSyncCommand where
  accountId := "source-account"
  id := "move-1"
  operationId := none
  attemptId := none
  type := .crossAccountMove
  entityId := "item"
  vaultId := "vault"
  targetVaultId := some "target-vault"
  targetAccountId := some "target-account"
  targetItemId := some "target-item"
  category := some .login
  encryptedPayload := some ⟨"sealed", "iv", "AES-256-GCM", 1, "user"⟩
  favorite := none
  baseVersion := 1
  timestamp := 1
  retryCount := 0
  status := some .pending
  lastError := none
  nextAttemptAt := none
  conflictCopyId := none
  projectionClaimId := none
  projectionClaimExpiresAt := none

def beforeMove : MoveState := ⟨some ⟨1, false, [⟨"attachment", "text"⟩], false⟩, none, .idle⟩

theorem beforeMove_init : (crossAccountMove firstMove).init beforeMove :=
  ⟨rfl, rfl, fun _ hs => by cases hs; rfl⟩

/-- A move whose last answer is lost, and the attempt after it. -/
theorem crossAccountMove_loses_nothing_resumed :
    ∃ s, (crossAccountMove firstMove).ReachableUnder (Foreseen ⟨"move-1", "item", 1, "target-vault", "target-item", .login,
        ⟨"sealed", "iv", "AES-256-GCM", 1, "user"⟩⟩) s ∧ s.source = none ∧
      ∃ target, s.target = some target ∧ target.attachments = [⟨"copy", "text", "attachment"⟩] := by
  have h1 := (System.ReachableUnder.init (M := crossAccountMove firstMove) (C := Foreseen ⟨"move-1", "item", 1, "target-vault",
    "target-item", .login, ⟨"sealed", "iv", "AES-256-GCM", 1, "user"⟩⟩) beforeMove_init).step MoveInput.attempt trivial rfl
  have h2 := h1.step (MoveInput.answered "") (fun _ _ hs hd => by cases hs; cases hd) rfl
  have h3 := h2.step (MoveInput.answered "") (fun _ ha => by cases ha) rfl
  have h4 := h3.step (MoveInput.answered "") (fun _ ha => by cases ha) rfl
  have h5 := h4.step (MoveInput.answered "copy") (fun _ ha => by cases ha) rfl
  have h6 := h5.step (MoveInput.answered "") (fun _ ha => by cases ha) rfl
  have h7 := h6.step MoveInput.failed trivial rfl
  have h8 := h7.step MoveInput.attempt trivial rfl
  have h9 := h8.step (MoveInput.answered "") (fun _ _ hs _ _ _ => by cases hs; exact .inl rfl) rfl
  have h10 := h9.step (MoveInput.answered "") (fun _ ha => by cases ha) rfl
  exact ⟨_, h10, ((crossAccountMove_loses_nothing rfl h10).2 _ rfl).1, _, rfl, rfl⟩

/-- An attempt makes the target and fails; the source is trashed elsewhere; the next attempt
deletes it with its attachment, and reports success. -/
theorem trashed_source_loses_attachments :
    ∃ s t acknowledgement, (crossAccountMove firstMove).Reachable s ∧
      (crossAccountMove firstMove).step s (.answered "") = some t ∧ t.await = .ended (.ok acknowledgement) ∧
      s.source.map (·.attachments) = some [⟨"attachment", "text"⟩] ∧ t.source = none ∧
      t.target.map (·.attachments) = some [] := by
  have hrun : (crossAccountMove firstMove).run beforeMove [.attempt, .answered "", .answered "", .answered "", .failed,
    .trashed, .attempt, .answered ""] = some _ := rfl
  exact ⟨_, _, _, System.Reachable.run (.init beforeMove_init) hrun, rfl, rfl, rfl, rfl, rfl⟩

end Bittery
