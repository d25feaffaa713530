/-
Calls of asynchronous programs over a shared state, any number of them under way at a time,
each going on whenever one of its commands is answered.

The rule of resources: every operation has a footprint of resources. When operations with
overlapping footprints are not under way at the same time, and each keeps its contract, which
is to leave the resources outside its footprint alone, then a resource that no call under
way has in its footprint is free, as it is between two sequential operations.
-/
import Bittery.Lib.Async
import Bittery.Lib.Runs

namespace Lib

structure Call (σ C : Type) (R : C → Type) (Op ρ : Type) where
  op : Op
  /-- What its commands were answered so far, the latest first (a record). -/
  seen : List (Moment σ C R)
  rest : Async C R ρ

structure Calls (σ C : Type) (R : C → Type) (Op ρ : Type) where
  shared : σ
  calls : List (Call σ C R Op ρ)

/-- An operation is called, a call is answered, or something else happens. -/
inductive CallLabel (Op E T : Type)
  | start (op : Op)
  | resume (k : Nat) (e : E)
  | other (t : T)
deriving DecidableEq, Repr

/-- The operations of a service, and how its commands are performed. `started` and `settled`
are for what is recorded of a call, not for what it does. -/
structure Service (σ C : Type) (R : C → Type) (E Op ρ T : Type) where
  perform : σ → (c : C) → E → Option (σ × Option (R c))
  program : Op → Async C R ρ
  started : Op → σ → σ
  settled : Op → Option ρ → σ → σ
  other : T → σ → Option σ

namespace Service

variable {σ C : Type} {R : C → Type} {E Op ρ T : Type} (S : Service σ C R E Op ρ T)

def finish (op : Op) (rest : Async C R ρ) (s : σ) : σ :=
  match rest with
  | .ret r => S.settled op (some r) s
  | .throw => S.settled op none s
  | .call _ _ => s

def step (q : Calls σ C R Op ρ) : CallLabel Op E T → Option (Calls σ C R Op ρ)
  | .start op =>
    some ⟨S.finish op (S.program op) (S.started op q.shared), q.calls ++ [⟨op, [], S.program op⟩]⟩
  | .resume k e => do
    let t ← q.calls[k]?
    match t.rest with
    | .call c f =>
      let (s, x) ← S.perform q.shared c e
      return ⟨S.finish t.op (f x) s, q.calls.set k ⟨t.op, ⟨q.shared, c, x⟩ :: t.seen, f x⟩⟩
    | _ => none
  | .other t => (S.other t q.shared).map fun s => { q with shared := s }

/-- A call that goes on waits for an answer, and gets it. -/
theorem step_resume {q q' : Calls σ C R Op ρ} {k : Nat} {e : E} (h : S.step q (.resume k e) = some q') :
    ∃ t c f s x, q.calls[k]? = some t ∧ t.rest = .call c f ∧ S.perform q.shared c e = some (s, x) ∧
      q' = ⟨S.finish t.op (f x) s, q.calls.set k ⟨t.op, ⟨q.shared, c, x⟩ :: t.seen, f x⟩⟩ := by
  simp only [step, Option.bind_eq_bind, Option.bind_eq_some_iff] at h
  obtain ⟨t, hk, h⟩ := h
  cases hrest : t.rest with
  | ret r => rw [hrest] at h; cases h
  | throw => rw [hrest] at h; cases h
  | call c f =>
    rw [hrest] at h
    obtain ⟨⟨s, x⟩, hperform, h⟩ := Option.bind_eq_some_iff.mp h
    cases h
    exact ⟨t, c, f, s, x, hk, hrest, hperform, rfl⟩

/-- No call has been made. -/
def system (init : σ → Prop) : System (Calls σ C R Op ρ) (CallLabel Op E T) where
  init q := init q.shared ∧ q.calls = []
  step := S.step

end Service

/-- What is to be shown of the operations of a service, for resources of the type `κ`. -/
structure Resources {σ C : Type} {R : C → Type} {E Op ρ T : Type} (S : Service σ C R E Op ρ T) (κ : Type) where
  inv : σ → Prop
  base : σ → σ → Prop
  base_refl : ∀ s, base s s
  base_trans : ∀ s t u, base s t → base t u → base s u
  same : κ → σ → σ → Prop
  same_refl : ∀ a s, same a s s
  same_trans : ∀ a s t u, same a s t → same a t u → same a s u
  free : κ → σ → Prop
  free_same : ∀ a s t, base s t → same a s t → free a s → free a t
  foot : Op → κ → Prop
  allowed : Op → List (Moment σ C R) → σ → C → E → Prop
  guar : Op → List (Moment σ C R) → σ → C → σ → Prop
  /-- What a caller has to see to. -/
  startable : Op → σ → Prop

namespace Resources

variable {σ C : Type} {R : C → Type} {E Op ρ T κ : Type} {S : Service σ C R E Op ρ T} (X : Resources S κ)

/-- An operation relies on its footprint being left alone, and leaves alone what is outside. -/
def contract (op : Op) : Contract σ C E R where
  inv := X.inv
  rely s t := X.base s t ∧ ∀ a, X.foot op a → X.same a s t
  rely_refl s := ⟨X.base_refl s, fun a _ => X.same_refl a s⟩
  rely_trans s t u h h' :=
    ⟨X.base_trans s t u h.1 h'.1, fun a ha => X.same_trans a s t u (h.2 a ha) (h'.2 a ha)⟩
  allowed := X.allowed op
  guar seen s c t := X.base s t ∧ (∀ a, ¬ X.foot op a → X.same a s t) ∧ X.guar op seen s c t

/-- What a change outside of the commands keeps, apart from the resources for which `P` holds. -/
structure Keeps (P : κ → Prop) (s t : σ) : Prop where
  inv : X.inv t
  base : X.base s t
  same : ∀ a, ¬ P a → X.same a s t

/-- When a call has settled, its footprint is free again. -/
def post (op : Op) (r : Option ρ) (_ : List (Moment σ C R)) (s : σ) : Prop :=
  X.Keeps (X.foot op) s (S.settled op r s) ∧ ∀ a, X.foot op a → X.free a (S.settled op r s)

/-- What makes the rule hold. -/
structure Sound : Prop where
  other : ∀ t s s', S.other t s = some s' → X.inv s → X.Keeps (fun _ => False) s s'
  start : ∀ op s, X.inv s → X.startable op s → (∀ a, X.foot op a → X.free a s) →
    X.Keeps (X.foot op) s (S.started op s) ∧
      Safe (X.contract op) S.perform (X.post op) (S.program op) [] (S.started op s)

/-- Operations with overlapping footprints are not under way together; callers see to what
they have to; and commands are answered as allowed. -/
def Apart (q : Calls σ C R Op ρ) : CallLabel Op E T → Prop
  | .start op => X.startable op q.shared ∧ ∀ t ∈ q.calls, t.rest.waits = true → ∀ a, ¬ (X.foot op a ∧ X.foot t.op a)
  | .resume k e => ∀ t ∈ q.calls[k]?, ∀ c f, t.rest = .call c f → X.allowed t.op t.seen q.shared c e
  | .other _ => True

structure Holds (q : Calls σ C R Op ρ) : Prop where
  inv : X.inv q.shared
  safe : ∀ t ∈ q.calls, t.rest.waits = true →
    Safe (X.contract t.op) S.perform (X.post t.op) t.rest t.seen q.shared
  apart : ∀ (i j : Nat) (t u : Call σ C R Op ρ), q.calls[i]? = some t → q.calls[j]? = some u → t.rest.waits = true →
    u.rest.waits = true → i ≠ j → ∀ a, ¬ (X.foot t.op a ∧ X.foot u.op a)
  free : ∀ a, (∀ t ∈ q.calls, t.rest.waits = true → ¬ X.foot t.op a) → X.free a q.shared

variable {X} {q q' : Calls σ C R Op ρ}

/-- What a program keeps when it ends, it keeps when it is finished there. -/
theorem finish_keeps {op : Op} {rest : Async C R ρ} {seen : List (Moment σ C R)} {s : σ} (hinv : X.inv s)
    (h : Safe (X.contract op) S.perform (X.post op) rest seen s) :
    X.Keeps (X.foot op) s (S.finish op rest s) ∧
      (rest.waits = true → S.finish op rest s = s) ∧
      (rest.waits = false → ∀ a, X.foot op a → X.free a (S.finish op rest s)) := by
  cases rest with
  | ret r =>
    obtain ⟨hkeeps, hfree⟩ := h s hinv ((X.contract op).rely_refl s)
    exact ⟨hkeeps, fun hwaits => (by cases hwaits), fun _ => hfree⟩
  | throw =>
    obtain ⟨hkeeps, hfree⟩ := h s hinv ((X.contract op).rely_refl s)
    exact ⟨hkeeps, fun hwaits => (by cases hwaits), fun _ => hfree⟩
  | call c k =>
    exact ⟨⟨hinv, X.base_refl s, fun a _ => X.same_refl a s⟩, fun _ => rfl, fun hwaits => (by cases hwaits)⟩

/-- Calls that do not have what has changed in their footprint stay safe. -/
theorem Keeps.safe {P : κ → Prop} {s t : σ} (h : X.Keeps P s t) {call : Call σ C R Op ρ}
    (hapart : ∀ a, ¬ (P a ∧ X.foot call.op a))
    (hsafe : Safe (X.contract call.op) S.perform (X.post call.op) call.rest call.seen s) :
    Safe (X.contract call.op) S.perform (X.post call.op) call.rest call.seen t :=
  hsafe.later ⟨h.base, fun a ha => h.same a fun hP => hapart a ⟨hP, ha⟩⟩

theorem Keeps.trans {P : κ → Prop} {s t u : σ} (h : X.Keeps P s t) (h' : X.Keeps P t u) : X.Keeps P s u :=
  ⟨h'.inv, X.base_trans s t u h.base h'.base, fun a ha => X.same_trans a s t u (h.same a ha) (h'.same a ha)⟩

/-- A call at `k` has been started or has gone on. -/
theorem Holds.of_call (h : X.Holds q) {k : Nat} {c : Call σ C R Op ρ} {s : σ}
    (hcalls : ∀ (j : Nat) (t : Call σ C R Op ρ), q'.calls[j]? = some t → (j = k ∧ t = c) ∨ (j ≠ k ∧ q.calls[j]? = some t))
    (hk : q'.calls[k]? = some c)
    (hold : ∀ (j : Nat) (t : Call σ C R Op ρ), q.calls[j]? = some t → j ≠ k → q'.calls[j]? = some t)
    (hgone : ∀ t, q.calls[k]? = some t → t.op = c.op)
    (hapart : ∀ (j : Nat) (t : Call σ C R Op ρ), q.calls[j]? = some t → j ≠ k → t.rest.waits = true →
      ∀ a, ¬ (X.foot c.op a ∧ X.foot t.op a))
    (hkeeps : X.Keeps (X.foot c.op) q.shared s)
    (hsafe : Safe (X.contract c.op) S.perform (X.post c.op) c.rest c.seen s)
    (hshared : q'.shared = S.finish c.op c.rest s) : X.Holds q' := by
  obtain ⟨hfinish, hwaiting, hsettled⟩ := finish_keeps hkeeps.inv hsafe
  have hall := hkeeps.trans hfinish
  refine ⟨hshared ▸ hall.inv, fun t ht hwaits => ?_, fun i j t u hi hj ht hu hij a => ?_, fun a ha => ?_⟩
  · obtain ⟨j, hj⟩ := List.mem_iff_getElem?.mp ht
    rw [hshared]
    rcases hcalls j t hj with ⟨rfl, rfl⟩ | ⟨hne, hj⟩
    · rw [hwaiting hwaits]
      exact hsafe
    · exact hall.safe (hapart j t hj hne hwaits) (h.safe t (List.mem_of_getElem? hj) hwaits)
  · rcases hcalls i t hi with ⟨rfl, rfl⟩ | ⟨hik, hi⟩
    · rcases hcalls j u hj with ⟨rfl, rfl⟩ | ⟨hjk, hj⟩
      · exact absurd rfl hij
      · exact hapart j u hj hjk hu a
    · rcases hcalls j u hj with ⟨rfl, rfl⟩ | ⟨hjk, hj⟩
      · exact fun hboth => hapart i t hi hik ht a ⟨hboth.2, hboth.1⟩
      · exact h.apart i j t u hi hj ht hu hij a
  · rw [hshared]
    by_cases hfoot : X.foot c.op a
    · cases hwaits : c.rest.waits with
      | true => exact absurd hfoot (ha c (List.mem_of_getElem? hk) hwaits)
      | false => exact hsettled hwaits a hfoot
    · refine X.free_same a _ _ hall.base (hall.same a hfoot) (h.free a fun t ht hwaits => ?_)
      obtain ⟨j, hj⟩ := List.mem_iff_getElem?.mp ht
      by_cases hjk : j = k
      · subst hjk
        exact hgone t hj ▸ hfoot
      · exact ha t (List.mem_of_getElem? (hold j t hj hjk)) hwaits

theorem Holds.step (hsound : X.Sound) (h : X.Holds q) {label : CallLabel Op E T} (happart : X.Apart q label)
    (hq' : S.step q label = some q') : X.Holds q' := by
  cases label with
  | start op =>
    cases hq'
    obtain ⟨hstartable, happart⟩ := happart
    have hfree : ∀ a, X.foot op a → X.free a q.shared := fun a ha =>
      h.free a fun t ht hwaits hfoot => happart t ht hwaits a ⟨ha, hfoot⟩
    obtain ⟨hkeeps, hsafe⟩ := hsound.start op q.shared h.inv hstartable hfree
    have hlt : ∀ (j : Nat) (t : Call σ C R Op ρ), q.calls[j]? = some t → j < q.calls.length := fun j t hj =>
      (List.getElem?_eq_some_iff.mp hj).1
    refine h.of_call (k := q.calls.length) (c := ⟨op, [], S.program op⟩) (fun j t hj => ?_) (by simp)
      (fun j t hj _ => by rw [List.getElem?_append_left (hlt j t hj)]; exact hj)
      (fun t ht => absurd (hlt _ t ht) (Nat.lt_irrefl _))
      (fun j t hj _ hwaits => happart t (List.mem_of_getElem? hj) hwaits) hkeeps hsafe rfl
    rcases Nat.lt_or_ge j q.calls.length with hj' | hj'
    · rw [List.getElem?_append_left hj'] at hj
      exact .inr ⟨Nat.ne_of_lt hj', hj⟩
    · have hlt' := (List.getElem?_eq_some_iff.mp hj).1
      simp only [List.length_append, List.length_cons, List.length_nil] at hlt'
      rw [List.getElem?_append_right hj'] at hj
      exact .inl ⟨by omega, List.mem_singleton.mp (List.mem_of_getElem? hj)⟩
  | resume k e =>
    obtain ⟨t, c, f, s, x, hk, hrest, hperform, rfl⟩ := S.step_resume hq'
    have hwaits : t.rest.waits = true := by rw [hrest]; rfl
    have hsafe := h.safe t (List.mem_of_getElem? hk) hwaits
    rw [hrest] at hsafe
    obtain ⟨⟨hbase, hsame, _⟩, hinv, hsafe⟩ := hsafe q.shared h.inv ((X.contract t.op).rely_refl q.shared) e s x
      (happart t hk c f hrest) hperform
    have hlt := (List.getElem?_eq_some_iff.mp hk).1
    refine h.of_call (k := k) (c := ⟨t.op, ⟨q.shared, c, x⟩ :: t.seen, f x⟩) (fun j u hj => ?_)
      (List.getElem?_set_self hlt) (fun j u hj hne => by rw [List.getElem?_set_ne (Ne.symm hne)]; exact hj)
      (fun u hu => by rw [hk] at hu; cases hu; rfl)
      (fun j u hj hne hu => h.apart k j t u hk hj hwaits hu (Ne.symm hne)) ⟨hinv, hbase, hsame⟩ hsafe rfl
    by_cases hkj : k = j
    · subst hkj
      rw [List.getElem?_set_self hlt] at hj
      exact .inl ⟨rfl, (Option.some.inj hj).symm⟩
    · rw [List.getElem?_set_ne hkj] at hj
      exact .inr ⟨Ne.symm hkj, hj⟩
  | other t =>
    obtain ⟨s, hs, rfl⟩ := Option.map_eq_some_iff.mp hq'
    have hkeeps := hsound.other t q.shared s hs h.inv
    exact ⟨hkeeps.inv, fun u hu hwaits => hkeeps.safe (fun a hboth => hboth.1) (h.safe u hu hwaits), h.apart,
      fun a ha => X.free_same a _ _ hkeeps.base (hkeeps.same a id) (h.free a ha)⟩

/-- **The rule of resources.** -/
theorem Sound.holds (hsound : X.Sound) {I : σ → Prop} (hinit : ∀ s, I s → X.inv s ∧ ∀ a, X.free a s)
    (h : (S.system I).ReachableUnder X.Apart q) : X.Holds q := by
  refine h.invariant X.Holds (fun q hq => ?_) fun q label q' _ hholds happart hstep => hholds.step hsound happart hstep
  obtain ⟨hshared, hcalls⟩ := hq
  refine ⟨(hinit _ hshared).1, fun t ht => ?_, fun i j t u hi => ?_, fun a _ => (hinit _ hshared).2 a⟩
  · simp [hcalls] at ht
  · simp [hcalls] at hi

end Resources

end Lib
