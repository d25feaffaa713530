/-
Operations that take turns: one of them has the lock at a time, and goes on whenever one of its
commands is answered. The process may stop at any moment, which takes the lock away from the
operation and leaves the shared state as it is.

The rule of the section: what every operation keeps with every command, while it relies only on
what happens outside of the lock, holds at every moment, also after a stop.
-/
import Bittery.Lib.Calls

namespace Lib

structure Sections (σ C : Type) (R : C → Type) (Op ρ : Type) where
  shared : σ
  /-- The operation that has the lock, or the one that had it last. -/
  holder : Option (Call σ C R Op ρ)

/-- An operation gets the lock, its command is answered, the process stops, or something else happens. -/
inductive SectionLabel (Op E T : Type)
  | enter (op : Op)
  | resume (e : E)
  | stop
  | other (t : T)
deriving DecidableEq, Repr

namespace Service

variable {σ C : Type} {R : C → Type} {E Op ρ T : Type} (S : Service σ C R E Op ρ T)
  (startable : Op → σ → Prop) [∀ op s, Decidable (startable op s)]

def sectionStep (q : Sections σ C R Op ρ) : SectionLabel Op E T → Option (Sections σ C R Op ρ)
  | .enter op =>
    if q.holder.any (·.rest.waits) = true ∨ ¬ startable op q.shared then none
    else some ⟨S.finish op (S.program op) (S.started op q.shared), some ⟨op, [], S.program op⟩⟩
  | .resume e => do
    let t ← q.holder
    match t.rest with
    | .call c f =>
      let (s, x) ← S.perform q.shared c e
      return ⟨S.finish t.op (f x) s, some ⟨t.op, ⟨q.shared, c, x⟩ :: t.seen, f x⟩⟩
    | _ => none
  | .stop => some { q with holder := none }
  | .other t => (S.other t q.shared).map fun s => { q with shared := s }

/-- Nobody has had the lock. -/
def sections (init : σ → Prop) : System (Sections σ C R Op ρ) (SectionLabel Op E T) where
  init q := init q.shared ∧ q.holder = none
  step := S.sectionStep startable

end Service

/-- What is to be shown of operations that take turns: the contract of all of them, and of the result of each. -/
structure Turns {σ C : Type} {R : C → Type} {E Op ρ T : Type} (S : Service σ C R E Op ρ T) where
  contract : Contract σ C E R
  /-- The answers are not restricted. -/
  allowed : ∀ seen s c e, contract.allowed seen s c e
  result : Op → Option ρ → List (Moment σ C R) → Prop

namespace Turns

variable {σ C : Type} {R : C → Type} {E Op ρ T : Type} {S : Service σ C R E Op ρ T} (X : Turns S)
  {startable : Op → σ → Prop} [∀ op s, Decidable (startable op s)]

/-- When an operation has settled. -/
def post (op : Op) (r : Option ρ) (seen : List (Moment σ C R)) (s : σ) : Prop :=
  X.contract.inv (S.settled op r s) ∧ X.result op r seen

/-- What makes the rule hold. -/
structure Sound (startable : Op → σ → Prop) : Prop where
  other : ∀ t s s', S.other t s = some s' → X.contract.inv s → X.contract.inv s' ∧ X.contract.rely s s'
  start : ∀ op s, X.contract.inv s → startable op s →
    X.contract.inv (S.started op s) ∧ Safe X.contract S.perform (X.post op) (S.program op) [] (S.started op s)

structure Holds (q : Sections σ C R Op ρ) : Prop where
  inv : X.contract.inv q.shared
  safe : ∀ t ∈ q.holder, t.rest.waits = true → Safe X.contract S.perform (X.post t.op) t.rest t.seen q.shared
  returned : ∀ t ∈ q.holder, ∀ r, t.rest = .ret r → X.result t.op (some r) t.seen

variable {X} {q q' : Sections σ C R Op ρ}

/-- The holder goes on. -/
theorem holds_of_safe {t : Call σ C R Op ρ} {s : σ} (hinv : X.contract.inv s)
    (hsafe : Safe X.contract S.perform (X.post t.op) t.rest t.seen s) : X.Holds ⟨S.finish t.op t.rest s, some t⟩ := by
  obtain ⟨op, seen, rest⟩ := t
  cases rest with
  | ret r =>
    obtain ⟨hpost, hresult⟩ := hsafe s hinv (X.contract.rely_refl s)
    refine ⟨hpost, fun t ht hwaits => ?_, fun t ht r' hr' => ?_⟩
    · cases ht
      cases hwaits
    · cases ht
      cases hr'
      exact hresult
  | throw =>
    obtain ⟨hpost, -⟩ := hsafe s hinv (X.contract.rely_refl s)
    refine ⟨hpost, fun t ht hwaits => ?_, fun t ht r' hr' => ?_⟩
    · cases ht
      cases hwaits
    · cases ht
      cases hr'
  | call c k =>
    refine ⟨hinv, fun t ht _ => ?_, fun t ht r' hr' => ?_⟩
    · cases ht
      exact hsafe
    · cases ht
      cases hr'

theorem Holds.step (hsound : X.Sound startable) (h : X.Holds q) {label : SectionLabel Op E T}
    (hq' : S.sectionStep startable q label = some q') : X.Holds q' := by
  cases label with
  | enter op =>
    simp only [Service.sectionStep] at hq'
    split at hq'
    · cases hq'
    · next hfree =>
      cases hq'
      obtain ⟨-, hstartable⟩ := not_or.mp hfree
      obtain ⟨hinv, hsafe⟩ := hsound.start op q.shared h.inv (not_not.mp hstartable)
      exact holds_of_safe (t := ⟨op, [], S.program op⟩) hinv hsafe
  | resume e =>
    simp only [Service.sectionStep, Option.bind_eq_bind, Option.bind_eq_some_iff] at hq'
    obtain ⟨t, ht, hq'⟩ := hq'
    cases hrest : t.rest with
    | ret r => rw [hrest] at hq'; cases hq'
    | throw => rw [hrest] at hq'; cases hq'
    | call c f =>
      rw [hrest] at hq'
      obtain ⟨⟨s, x⟩, hperform, hq'⟩ := Option.bind_eq_some_iff.mp hq'
      cases hq'
      have hsafe := h.safe t ht (by rw [hrest]; rfl)
      rw [hrest] at hsafe
      obtain ⟨-, hinv, hsafe⟩ := hsafe q.shared h.inv (X.contract.rely_refl q.shared) e s x
        (X.allowed t.seen q.shared c e) hperform
      exact holds_of_safe (t := ⟨t.op, ⟨q.shared, c, x⟩ :: t.seen, f x⟩) hinv hsafe
  | stop =>
    cases hq'
    exact ⟨h.inv, fun _ ht => (by cases ht), fun _ ht => (by cases ht)⟩
  | other t =>
    obtain ⟨s, hs, rfl⟩ := Option.map_eq_some_iff.mp hq'
    obtain ⟨hinv, hrely⟩ := hsound.other t q.shared s hs h.inv
    exact ⟨hinv, fun t ht hwaits => (h.safe t ht hwaits).later hrely, h.returned⟩

/-- **The rule of the section.** -/
theorem Sound.holds (hsound : X.Sound startable) {init : σ → Prop} (hinit : ∀ s, init s → X.contract.inv s)
    (h : (S.sections startable init).Reachable q) : X.Holds q := by
  refine h.invariant X.Holds (fun q hq => ?_) fun q label q' _ hholds hstep => hholds.step hsound hstep
  obtain ⟨hshared, hholder⟩ := hq
  refine ⟨hinit _ hshared, fun t ht => ?_, fun t ht => ?_⟩
  · rw [hholder] at ht
    cases ht
  · rw [hholder] at ht
    cases ht

end Turns

end Lib
