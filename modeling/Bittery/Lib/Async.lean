/-
Asynchronous programs. A program runs up to a command and waits for its answer; between two
awaits nothing else runs, and while it waits anything may. An answer may be a rejection,
which the program may catch.

`Safe` is a rule of rely and guarantee: from a state, whatever happens within `rely` while
the program waits, each of its commands keeps `guar`, and it ends in the postcondition. What
the commands were answered, and in which states, is kept along the way.
-/
import Mathlib.Data.List.Basic

namespace Lib

/-- A program returns, rejects, or goes on with the answer to a command. -/
inductive Async (C : Type) (R : C → Type) (α : Type)
  | ret (a : α)
  | throw
  | call (c : C) (k : Option (R c) → Async C R α)

namespace Async

variable {C : Type} {R : C → Type} {α β γ : Type}

def bind : Async C R α → (α → Async C R β) → Async C R β
  | .ret a, f => f a
  | .throw, _ => .throw
  | .call c k, f => .call c fun x => (k x).bind f

instance : Monad (Async C R) where
  pure := .ret
  bind := bind

/-- Wait for an answer; a rejection is thrown. -/
def await (c : C) : Async C R (R c) :=
  .call c fun
    | some x => .ret x
    | none => .throw

/-- `try p catch handler`. -/
def orElse : Async C R α → Async C R α → Async C R α
  | .ret a, _ => .ret a
  | .throw, handler => handler
  | .call c k, handler => .call c fun x => (k x).orElse handler

@[simp] theorem pure_eq (a : α) : (pure a : Async C R α) = .ret a := rfl

@[simp] theorem bind_eq (p : Async C R α) (f : α → Async C R β) : (p >>= f) = p.bind f := rfl

@[simp] theorem ret_bind (a : α) (f : α → Async C R β) : (ret a : Async C R α).bind f = f a := rfl

@[simp] theorem throw_bind (f : α → Async C R β) : (throw : Async C R α).bind f = .throw := rfl

@[simp] theorem bind_assoc (p : Async C R α) (f : α → Async C R β) (g : β → Async C R γ) :
    (p.bind f).bind g = p.bind fun a => (f a).bind g := by
  induction p with
  | ret a => rfl
  | throw => rfl
  | call c k ih => exact congrArg (Async.call c) (funext ih)

/-- Whether the program waits for an answer. -/
def waits : Async C R α → Bool
  | .call _ _ => true
  | _ => false

/-! ## The commands of a program -/

/-- Every command that the program may come to meets `P`. -/
def Uses (P : C → Prop) : Async C R α → Prop
  | .ret _ | .throw => True
  | .call c k => P c ∧ ∀ x, (k x).Uses P

variable {P : C → Prop}

@[simp] theorem uses_ret (a : α) : (ret a : Async C R α).Uses P := trivial

@[simp] theorem uses_throw : (throw : Async C R α).Uses P := trivial

theorem uses_await {c : C} (h : P c) : (await c : Async C R (R c)).Uses P := by
  refine ⟨h, fun x => ?_⟩
  cases x with
  | none => trivial
  | some x => trivial

theorem Uses.mono {P' : C → Prop} {p : Async C R α} (hp : p.Uses P) (h : ∀ c, P c → P' c) : p.Uses P' := by
  induction p with
  | ret a => trivial
  | throw => trivial
  | call c k ih => exact ⟨h c hp.1, fun x => ih x (hp.2 x)⟩

theorem uses_all (h : ∀ c, P c) (p : Async C R α) : p.Uses P := by
  induction p with
  | ret a => trivial
  | throw => trivial
  | call c k ih => exact ⟨h c, ih⟩

theorem Uses.bind {p : Async C R α} {f : α → Async C R β} (hp : p.Uses P) (hf : ∀ a, (f a).Uses P) :
    (p.bind f).Uses P := by
  induction p with
  | ret a => exact hf a
  | throw => trivial
  | call c k ih => exact ⟨hp.1, fun x => ih x (hp.2 x)⟩

theorem Uses.ite_then {c : Prop} [Decidable c] {p : Async C R α} {q : Async C R β} (hp : p.Uses P) (hq : q.Uses P) :
    (if c then p.bind fun _ => q else q).Uses P := by
  split
  · exact hp.bind fun _ => hq
  · exact hq

theorem Uses.orElse {p handler : Async C R α} (hp : p.Uses P) (hhandler : handler.Uses P) : (p.orElse handler).Uses P := by
  induction p with
  | ret a => trivial
  | throw => exact hhandler
  | call c k ih => exact ⟨hp.1, fun x => ih x (hp.2 x)⟩

theorem Uses.forM {xs : List α} {f : α → Async C R PUnit} (hf : ∀ x ∈ xs, (f x).Uses P) : (xs.forM f).Uses P := by
  induction xs with
  | nil => trivial
  | cons x xs ih =>
    exact (hf x List.mem_cons_self).bind fun _ => ih fun y hy => hf y (List.mem_cons_of_mem x hy)

/-- Like `Uses`, and the program rejects only after a rejection. -/
def Answers (P : C → Prop) : Async C R α → Prop
  | .ret _ => True
  | .throw => False
  | .call c k => P c ∧ (∀ x, (k (some x)).Answers P) ∧ (k none).Uses P

@[simp] theorem answers_ret (a : α) : (ret a : Async C R α).Answers P := trivial

theorem answers_await {c : C} (h : P c) : (await c : Async C R (R c)).Answers P :=
  ⟨h, fun _ => trivial, trivial⟩

theorem Answers.uses {p : Async C R α} (hp : p.Answers P) : p.Uses P := by
  induction p with
  | ret a => trivial
  | throw => trivial
  | call c k ih =>
    refine ⟨hp.1, fun x => ?_⟩
    cases x with
    | none => exact hp.2.2
    | some x => exact ih _ (hp.2.1 x)

theorem Answers.mono {P' : C → Prop} {p : Async C R α} (hp : p.Answers P) (h : ∀ c, P c → P' c) : p.Answers P' := by
  induction p with
  | ret a => trivial
  | throw => exact hp.elim
  | call c k ih => exact ⟨h c hp.1, fun x => ih _ (hp.2.1 x), hp.2.2.mono h⟩

theorem Answers.bind {p : Async C R α} {f : α → Async C R β} (hp : p.Answers P) (hf : ∀ a, (f a).Answers P) :
    (p.bind f).Answers P := by
  induction p with
  | ret a => exact hf a
  | throw => exact hp.elim
  | call c k ih => exact ⟨hp.1, fun x => ih _ (hp.2.1 x), hp.2.2.bind fun a => (hf a).uses⟩

theorem Answers.forM {xs : List α} {f : α → Async C R PUnit} (hf : ∀ x ∈ xs, (f x).Answers P) :
    (xs.forM f).Answers P := by
  induction xs with
  | nil => trivial
  | cons x xs ih =>
    exact (hf x List.mem_cons_self).bind fun _ => ih fun y hy => hf y (List.mem_cons_of_mem x hy)

/-- Like `Uses`, when the commands are answered as `A` says. -/
def UsesWhen (A : (c : C) → R c → Prop) (P : C → Prop) : Async C R α → Prop
  | .ret _ | .throw => True
  | .call c k => P c ∧ (∀ x, A c x → (k (some x)).UsesWhen A P) ∧ (k none).UsesWhen A P

variable {A : (c : C) → R c → Prop}

theorem Uses.when {p : Async C R α} (hp : p.Uses P) : p.UsesWhen A P := by
  induction p with
  | ret a => trivial
  | throw => trivial
  | call c k ih => exact ⟨hp.1, fun x _ => ih _ (hp.2 x), ih _ (hp.2 none)⟩

theorem UsesWhen.bind {p : Async C R α} {f : α → Async C R β} (hp : p.UsesWhen A P) (hf : ∀ a, (f a).UsesWhen A P) :
    (p.bind f).UsesWhen A P := by
  induction p with
  | ret a => exact hf a
  | throw => trivial
  | call c k ih => exact ⟨hp.1, fun x hx => ih _ (hp.2.1 x hx), ih _ hp.2.2⟩

theorem UsesWhen.mono {A' : (c : C) → R c → Prop} {P' : C → Prop} {p : Async C R α} (hp : p.UsesWhen A P)
    (hA : ∀ c x, A' c x → A c x) (hP : ∀ c, P c → P' c) : p.UsesWhen A' P' := by
  induction p with
  | ret a => trivial
  | throw => trivial
  | call c k ih => exact ⟨hP c hp.1, fun x hx => ih _ (hp.2.1 x (hA c x hx)), ih _ hp.2.2⟩

theorem usesWhen_forall {ι : Type} {A : ι → (c : C) → R c → Prop} {P : ι → C → Prop} {p : Async C R α}
    (hp : ∀ i, p.UsesWhen (A i) (P i)) : p.UsesWhen (fun c x => ∀ i, A i c x) (fun c => ∀ i, P i c) := by
  induction p with
  | ret a => trivial
  | throw => trivial
  | call c k ih =>
    exact ⟨fun i => (hp i).1, fun x hx => ih _ fun i => (hp i).2.1 x (hx i), ih _ fun i => (hp i).2.2⟩

end Async

/-! ## A run on its own -/

namespace Async

variable {σ C : Type} {R : C → Type} {α β : Type} (exec : σ → (c : C) → σ × Option (R c))

/-- The program run to its end, with nothing else running. -/
def eval : Async C R α → σ → σ × Option α
  | .ret a, s => (s, some a)
  | .throw, s => (s, none)
  | .call c k, s => (k (exec s c).2).eval (exec s c).1

@[simp] theorem eval_ret (a : α) (s : σ) : (ret a : Async C R α).eval exec s = (s, some a) := rfl

@[simp] theorem eval_throw (s : σ) : (throw : Async C R α).eval exec s = (s, none) := rfl

theorem eval_bind {p : Async C R α} {f : α → Async C R β} {s t : σ} {a : α} (h : p.eval exec s = (t, some a)) :
    (p.bind f).eval exec s = (f a).eval exec t := by
  induction p generalizing s with
  | ret b => cases h; rfl
  | throw => cases h
  | call c k ih => exact ih _ h

/-- What every command keeps that the program comes to, its run keeps. -/
theorem UsesWhen.eval_keeps {A : (c : C) → R c → Prop} {P : C → Prop} {I : σ → Prop} {p : Async C R α}
    (hp : p.UsesWhen A P) (h : ∀ s c, P c → I s → I (exec s c).1 ∧ ∀ x ∈ (exec s c).2, A c x) {s : σ} (hs : I s) :
    I (p.eval exec s).1 := by
  induction p generalizing s with
  | ret a => exact hs
  | throw => exact hs
  | call c k ih =>
    obtain ⟨ht, hanswer⟩ := h s c hp.1 hs
    unfold eval
    cases hx : (exec s c).2 with
    | none => exact ih none hp.2.2 ht
    | some x => exact ih (some x) (hp.2.1 x (hanswer x hx)) ht

end Async

/-! ## Contracts -/

/-- A command that was answered, and the state it was answered in. -/
structure Moment (σ C : Type) (R : C → Type) where
  state : σ
  command : C
  answer : Option (R command)

/-- What a program relies on while it waits, and what each of its commands guarantees, when it
is answered as allowed. Both may look at what the program was answered before. -/
structure Contract (σ C E : Type) (R : C → Type) where
  inv : σ → Prop
  rely : σ → σ → Prop
  rely_refl : ∀ s, rely s s
  rely_trans : ∀ s t u, rely s t → rely t u → rely s u
  allowed : List (Moment σ C R) → σ → C → E → Prop
  guar : List (Moment σ C R) → σ → C → σ → Prop

section Safe

variable {σ C E : Type} {R : C → Type} {α β : Type} (K : Contract σ C E R)
  (perform : σ → (c : C) → E → Option (σ × Option (R c)))

/-- The program keeps the contract from `s` on, and then `Q` holds of its result, or of `none`
when it has rejected. -/
def Safe (Q : Option α → List (Moment σ C R) → σ → Prop) : Async C R α → List (Moment σ C R) → σ → Prop
  | .ret a, seen, s => ∀ s', K.inv s' → K.rely s s' → Q (some a) seen s'
  | .throw, seen, s => ∀ s', K.inv s' → K.rely s s' → Q none seen s'
  | .call c k, seen, s => ∀ s', K.inv s' → K.rely s s' → ∀ e t x, K.allowed seen s' c e → perform s' c e = some (t, x) →
      K.guar seen s' c t ∧ K.inv t ∧ Safe Q (k x) (⟨s', c, x⟩ :: seen) t

variable {K perform} {Q Q' : Option α → List (Moment σ C R) → σ → Prop} {p : Async C R α}
  {seen : List (Moment σ C R)} {s s' : σ}

/-- It is enough to be safe from where the program goes on. -/
theorem safe_of_later (h : ∀ s', K.inv s' → K.rely s s' → Safe K perform Q p seen s') : Safe K perform Q p seen s := by
  cases p with
  | ret a => exact fun s' hinv hrely => h s' hinv hrely s' hinv (K.rely_refl s')
  | throw => exact fun s' hinv hrely => h s' hinv hrely s' hinv (K.rely_refl s')
  | call c k => exact fun s' hinv hrely => h s' hinv hrely s' hinv (K.rely_refl s')

theorem Safe.later (h : Safe K perform Q p seen s) (hrely : K.rely s s') : Safe K perform Q p seen s' := by
  cases p with
  | ret a => exact fun t hinv ht => h t hinv (K.rely_trans _ _ _ hrely ht)
  | throw => exact fun t hinv ht => h t hinv (K.rely_trans _ _ _ hrely ht)
  | call c k => exact fun t hinv ht => h t hinv (K.rely_trans _ _ _ hrely ht)

theorem Safe.mono (h : Safe K perform Q p seen s) (hQ : ∀ r seen s, K.inv s → Q r seen s → Q' r seen s) :
    Safe K perform Q' p seen s := by
  induction p generalizing seen s with
  | ret a => exact fun s' hinv hrely => hQ _ _ _ hinv (h s' hinv hrely)
  | throw => exact fun s' hinv hrely => hQ _ _ _ hinv (h s' hinv hrely)
  | call c k ih =>
    intro s' hinv hrely e t x hallowed hperform
    obtain ⟨hguar, hinv', hsafe⟩ := h s' hinv hrely e t x hallowed hperform
    exact ⟨hguar, hinv', ih x hsafe⟩

theorem Safe.bind {f : α → Async C R β} {Q : Option β → List (Moment σ C R) → σ → Prop}
    (h : Safe K perform (fun r seen s => match r with
      | some a => Safe K perform Q (f a) seen s
      | none => Q none seen s) p seen s) : Safe K perform Q (p.bind f) seen s := by
  induction p generalizing seen s with
  | ret a => exact safe_of_later h
  | throw => exact h
  | call c k ih =>
    intro s' hinv hrely e t x hallowed hperform
    obtain ⟨hguar, hinv', hsafe⟩ := h s' hinv hrely e t x hallowed hperform
    exact ⟨hguar, hinv', ih x hsafe⟩

theorem Safe.orElse {handler : Async C R α}
    (h : Safe K perform (fun r seen s => match r with
      | some a => Q (some a) seen s
      | none => Safe K perform Q handler seen s) p seen s) : Safe K perform Q (p.orElse handler) seen s := by
  induction p generalizing seen s with
  | ret a => exact h
  | throw => exact safe_of_later h
  | call c k ih =>
    intro s' hinv hrely e t x hallowed hperform
    obtain ⟨hguar, hinv', hsafe⟩ := h s' hinv hrely e t x hallowed hperform
    exact ⟨hguar, hinv', ih x hsafe⟩

/-- One command, waited for. -/
theorem safe_await {c : C} {Q : Option (R c) → List (Moment σ C R) → σ → Prop}
    (hQ : ∀ r seen s s', K.inv s' → K.rely s s' → Q r seen s → Q r seen s')
    (h : ∀ s', K.inv s' → K.rely s s' → ∀ e t x, K.allowed seen s' c e → perform s' c e = some (t, x) →
      K.guar seen s' c t ∧ K.inv t ∧ Q x (⟨s', c, x⟩ :: seen) t) : Safe K perform Q (.await c) seen s := by
  intro s' hinv hrely e t x hallowed hperform
  obtain ⟨hguar, hinv', hpost⟩ := h s' hinv hrely e t x hallowed hperform
  refine ⟨hguar, hinv', ?_⟩
  cases x with
  | none => exact fun u hu hrely' => hQ _ _ _ _ hu hrely' hpost
  | some x => exact fun u hu hrely' => hQ _ _ _ _ hu hrely' hpost

/-- **The rule of the frame.** What all commands of a program keep, the program keeps. -/
theorem safe_of_uses {P : C → Prop} {A : σ → Prop} (hp : p.Uses P)
    (hA : ∀ s s', K.inv s' → K.rely s s' → A s → A s')
    (hcommand : ∀ seen s c e t x, P c → K.inv s → A s → K.allowed seen s c e → perform s c e = some (t, x) →
      K.guar seen s c t ∧ K.inv t ∧ A t) (h : A s) : Safe K perform (fun _ _ s => A s) p seen s := by
  induction p generalizing seen s with
  | ret a => exact fun s' hinv hrely => hA s s' hinv hrely h
  | throw => exact fun s' hinv hrely => hA s s' hinv hrely h
  | call c k ih =>
    intro s' hinv hrely e t x hallowed hperform
    obtain ⟨hguar, hinv', hkept⟩ := hcommand seen s' c e t x hp.1 hinv (hA s s' hinv hrely h) hallowed hperform
    exact ⟨hguar, hinv', ih x (hp.2 x) hkept⟩

/-- The same for a program whose commands depend on the answers. -/
theorem safe_of_usesWhen {F : (c : C) → R c → Prop} {P : C → Prop} {A : σ → Prop} (hp : p.UsesWhen F P)
    (hA : ∀ s s', K.inv s' → K.rely s s' → A s → A s')
    (hcommand : ∀ seen s c e t x, P c → K.inv s → A s → K.allowed seen s c e → perform s c e = some (t, x) →
      K.guar seen s c t ∧ K.inv t ∧ A t ∧ ∀ y ∈ x, F c y) (h : A s) :
    Safe K perform (fun _ _ s => A s) p seen s := by
  induction p generalizing seen s with
  | ret a => exact fun s' hinv hrely => hA s s' hinv hrely h
  | throw => exact fun s' hinv hrely => hA s s' hinv hrely h
  | call c k ih =>
    intro s' hinv hrely e t x hallowed hperform
    obtain ⟨hguar, hinv', hkept, hanswer⟩ :=
      hcommand seen s' c e t x hp.1 hinv (hA s s' hinv hrely h) hallowed hperform
    refine ⟨hguar, hinv', ?_⟩
    cases x with
    | none => exact ih none hp.2.2 hkept
    | some y => exact ih (some y) (hp.2.1 y (hanswer y rfl)) hkept

/-- The same for a program that rejects only after a rejection: `G` is what the first one shows. -/
theorem safe_of_answers {P : C → Prop} {A : σ → Prop} {G : Prop} (hp : p.Answers P)
    (hA : ∀ s s', K.inv s' → K.rely s s' → A s → A s')
    (hcommand : ∀ seen s c e t x, P c → K.inv s → A s → K.allowed seen s c e → perform s c e = some (t, x) →
      K.guar seen s c t ∧ K.inv t ∧ A t ∧ (x = none → G)) (h : A s) :
    Safe K perform (fun r _ s => A s ∧ (r = none → G)) p seen s := by
  induction p generalizing seen s with
  | ret a => exact fun s' hinv hrely => ⟨hA s s' hinv hrely h, nofun⟩
  | throw => exact hp.elim
  | call c k ih =>
    intro s' hinv hrely e t x hallowed hperform
    obtain ⟨hguar, hinv', hkept, hfailed⟩ := hcommand seen s' c e t x hp.1 hinv (hA s s' hinv hrely h) hallowed hperform
    refine ⟨hguar, hinv', ?_⟩
    cases x with
    | some x => exact ih (some x) (hp.2.1 x) hkept
    | none =>
      refine (safe_of_uses hp.2.2 hA (fun seen s c e t x hc hs hAs hallowed hperform => ?_) hkept).mono
        fun r _ t _ ht => ⟨ht, fun _ => hfailed rfl⟩
      obtain ⟨hguar, hinv', hkept, -⟩ := hcommand seen s c e t x hc hs hAs hallowed hperform
      exact ⟨hguar, hinv', hkept⟩

/-! ## A part of the state -/

section Does

variable {V : Type} (K perform) (part : σ → V)

/-- From a state whose `part` is `v`, the program keeps the contract and ends with `Q` of its result
and the part then. -/
def Does (Q : Option α → V → Prop) (p : Async C R α) (v : V) : Prop :=
  ∀ seen s, K.inv s → part s = v → Safe K perform (fun r _ t => Q r (part t)) p seen s

variable {K perform part} {Q Q' : Option α → V → Prop} {v : V}

theorem Does.mono (h : Does K perform part Q p v) (hQ : ∀ r w, Q r w → Q' r w) : Does K perform part Q' p v :=
  fun seen s hinv hs => (h seen s hinv hs).mono fun r _ t _ => hQ r (part t)

theorem Does.bind {f : α → Async C R β} {Q' : Option β → V → Prop} (h : Does K perform part Q p v)
    (hsome : ∀ a w, Q (some a) w → Does K perform part Q' (f a) w) (hnone : ∀ w, Q none w → Q' none w) :
    Does K perform part Q' (p.bind f) v := by
  intro seen s hinv hs
  refine Safe.bind ((h seen s hinv hs).mono fun r seen t ht hr => ?_)
  cases r with
  | some a => exact hsome a (part t) hr seen t ht rfl
  | none => exact hnone (part t) hr

theorem Does.orElse {handler : Async C R α} (h : Does K perform part Q p v) (hsome : ∀ a w, Q (some a) w → Q' (some a) w)
    (hnone : ∀ w, Q none w → Does K perform part Q' handler w) : Does K perform part Q' (p.orElse handler) v := by
  intro seen s hinv hs
  refine Safe.orElse ((h seen s hinv hs).mono fun r seen t ht hr => ?_)
  cases r with
  | some a => exact hsome a (part t) hr
  | none => exact hnone (part t) hr seen t ht rfl

variable (hpart : ∀ s t, K.rely s t → part t = part s)

include hpart

theorem does_ret {a : α} (hQ : Q (some a) v) : Does K perform part Q (.ret a) v := by
  intro seen s _ hs t _ hrely
  rwa [hpart s t hrely, hs]

theorem does_throw (hQ : Q none v) : Does K perform part Q (.throw : Async C R α) v := by
  intro seen s _ hs t _ hrely
  rwa [hpart s t hrely, hs]

theorem does_await {c : C} {Q : Option (R c) → V → Prop}
    (h : ∀ seen s, K.inv s → part s = v → ∀ e t x, K.allowed seen s c e → perform s c e = some (t, x) →
      K.guar seen s c t ∧ K.inv t ∧ Q x (part t)) : Does K perform part Q (.await c) v := by
  intro seen s _ hs
  refine safe_await (fun r _ t u _ hrely hQ => ?_) fun t hinv hrely e u x hallowed hperform => ?_
  · rwa [hpart t u hrely]
  · exact h seen t hinv ((hpart s t hrely).trans hs) e u x hallowed hperform

/-- A program whose commands all leave the part as it is. -/
theorem does_of_uses {P : C → Prop} (hp : p.Uses P)
    (hcommand : ∀ seen s c e t x, P c → K.inv s → part s = v → K.allowed seen s c e → perform s c e = some (t, x) →
      K.guar seen s c t ∧ K.inv t ∧ part t = v) : Does K perform part (fun _ w => w = v) p v := by
  intro seen s _ hs
  exact safe_of_uses (A := fun s => part s = v) hp (fun s t _ hrely hA => (hpart s t hrely).trans hA) hcommand hs

theorem does_of_answers {P : C → Prop} {G : Prop} (hp : p.Answers P)
    (hcommand : ∀ seen s c e t x, P c → K.inv s → part s = v → K.allowed seen s c e → perform s c e = some (t, x) →
      K.guar seen s c t ∧ K.inv t ∧ part t = v ∧ (x = none → G)) :
    Does K perform part (fun r w => w = v ∧ (r = none → G)) p v := by
  intro seen s _ hs
  exact safe_of_answers (A := fun s => part s = v) hp (fun s t _ hrely hA => (hpart s t hrely).trans hA) hcommand hs

end Does

end Safe

end Lib
