/-
Cleaning up in asynchronous programs: a handler that rejects again, and one that runs however the
program ends; and the runs of a program that nothing else runs beside.

A run lists the commands with the states they were issued in and what they were answered. What
a program is `Safe` to do, each of its runs does.
-/
import Bittery.Lib.Async

namespace Lib

namespace Async

variable {C : Type} {R : C → Type} {α β : Type}

/-- `try p catch (error) { handler; throw error }`. -/
def onThrow (p : Async C R α) (handler : Async C R PUnit) : Async C R α := p.orElse (handler.bind fun _ => .throw)

/-- `try p finally { handler }`. -/
def always (p : Async C R α) (handler : Async C R PUnit) : Async C R α :=
  (p.onThrow handler).bind fun a => handler.bind fun _ => .ret a

/-- Whatever the program returns meets `P`. -/
def Ends (P : α → Prop) : Async C R α → Prop
  | .ret a => P a
  | .throw => True
  | .call _ k => ∀ x, (k x).Ends P

theorem ends_of_all {P : α → Prop} (h : ∀ a, P a) (p : Async C R α) : p.Ends P := by
  induction p with
  | ret a => exact h a
  | throw => trivial
  | call c k ih => exact ih

theorem ends_bind {P : β → Prop} {p : Async C R α} {f : α → Async C R β} (hf : ∀ a, (f a).Ends P) :
    (p.bind f).Ends P := by
  induction p with
  | ret a => exact hf a
  | throw => trivial
  | call c k ih => exact ih

end Async

/-- One run of a program from `s`, after the moments `seen`: how it ended, the moments and the state then. -/
inductive Plays {σ C E : Type} {R : C → Type} {α : Type} (K : Contract σ C E R)
    (perform : σ → (c : C) → E → Option (σ × Option (R c))) :
    Async C R α → List (Moment σ C R) → σ → Option α → List (Moment σ C R) → σ → Prop
  | ret {a seen s} : Plays K perform (.ret a) seen s (some a) seen s
  | throw {seen s} : Plays K perform .throw seen s none seen s
  | call {c k e seen s t x r seen' s'} : K.allowed seen s c e → perform s c e = some (t, x) →
      Plays K perform (k x) (⟨s, c, x⟩ :: seen) t r seen' s' → Plays K perform (.call c k) seen s r seen' s'

/-- The run in which every command finds what `e` says of the state. -/
def Async.play {σ C E : Type} {R : C → Type} {α : Type} (perform : σ → (c : C) → E → Option (σ × Option (R c))) (e : σ → E) :
    Async C R α → List (Moment σ C R) → σ → Option (Option α × List (Moment σ C R) × σ)
  | .ret a, seen, s => some (some a, seen, s)
  | .throw, seen, s => some (none, seen, s)
  | .call c k, seen, s => (perform s c (e s)).bind fun found => (k found.2).play perform e (⟨s, c, found.2⟩ :: seen) found.1

section

variable {σ C E : Type} {R : C → Type} {α β : Type} {K : Contract σ C E R}
  {perform : σ → (c : C) → E → Option (σ × Option (R c))} {p : Async C R α} {seen seen' : List (Moment σ C R)}
  {s s' : σ} {r : Option α}

/-- **A safe program's runs.** A run of a safe program ends as the program promises, and each of its
commands kept the guarantee. -/
theorem Safe.plays {Q : Option α → List (Moment σ C R) → σ → Prop} (h : Safe K perform Q p seen s) (hinv : K.inv s)
    (hrun : Plays K perform p seen s r seen' s') :
    Q r seen' s' ∧ K.inv s' ∧ ∀ m ∈ seen', m ∈ seen ∨ ∃ before t, K.guar before m.state m.command t := by
  induction hrun with
  | ret => exact ⟨h _ hinv (K.rely_refl _), hinv, fun m hm => .inl hm⟩
  | throw => exact ⟨h _ hinv (K.rely_refl _), hinv, fun m hm => .inl hm⟩
  | call hallowed hperform _ ih =>
    obtain ⟨hguar, hinv', hsafe⟩ := h _ hinv (K.rely_refl _) _ _ _ hallowed hperform
    obtain ⟨hQ, hend, hmoments⟩ := ih hsafe hinv'
    refine ⟨hQ, hend, fun m hm => ?_⟩
    rcases hmoments m hm with hnow | hguarded
    · rcases List.mem_cons.mp hnow with rfl | hbefore
      · exact .inr ⟨_, _, hguar⟩
      · exact .inl hbefore
    · exact .inr hguarded

theorem plays_play {e : σ → E} (hallowed : ∀ seen s c, K.allowed seen s c (e s))
    (h : p.play perform e seen s = some (r, seen', s')) : Plays K perform p seen s r seen' s' := by
  induction p generalizing seen s with
  | ret a =>
    obtain ⟨rfl, rfl, rfl⟩ := Option.some.inj h
    exact .ret
  | throw =>
    obtain ⟨rfl, rfl, rfl⟩ := Option.some.inj h
    exact .throw
  | call c k ih =>
    obtain ⟨found, hfound, hrest⟩ := Option.bind_eq_some_iff.mp h
    exact .call (hallowed seen s c) hfound (ih found.2 hrest)

theorem Safe.ends {Q : Option α → List (Moment σ C R) → σ → Prop} {P : α → Prop} (h : Safe K perform Q p seen s)
    (hp : p.Ends P) : Safe K perform (fun r seen s => Q r seen s ∧ ∀ a ∈ r, P a) p seen s := by
  induction p generalizing seen s with
  | ret a => exact fun s' hinv hrely => ⟨h s' hinv hrely, fun b hb => Option.some.inj hb ▸ hp⟩
  | throw => exact fun s' hinv hrely => ⟨h s' hinv hrely, by simp⟩
  | call c k ih =>
    intro s' hinv hrely e t x hallowed hperform
    obtain ⟨hguar, hinv', hsafe⟩ := h s' hinv hrely e t x hallowed hperform
    exact ⟨hguar, hinv', ih x hsafe (hp x)⟩

section

variable {V : Type} {part : σ → V} {Q Q' : Option α → V → Prop} {v : V} {handler : Async C R PUnit}

theorem Does.ends {P : α → Prop} (h : Does K perform part Q p v) (hp : p.Ends P) :
    Does K perform part (fun r w => Q r w ∧ ∀ a ∈ r, P a) p v :=
  fun seen s hinv hs => (h seen s hinv hs).ends hp

theorem Does.onThrow (hpart : ∀ s t, K.rely s t → part t = part s) (h : Does K perform part Q p v)
    (hsome : ∀ a w, Q (some a) w → Q' (some a) w)
    (hnone : ∀ w, Q none w → Does K perform part (fun _ w => Q' none w) handler w) :
    Does K perform part Q' (p.onThrow handler) v :=
  h.orElse hsome fun w hw => (hnone w hw).bind (fun _ _ hu => does_throw hpart hu) fun _ hu => hu

theorem Does.always (hpart : ∀ s t, K.rely s t → part t = part s) (h : Does K perform part Q p v)
    (hsome : ∀ a w, Q (some a) w →
      Does K perform part (fun r w => Q' (r.map fun _ => a) w) handler w)
    (hnone : ∀ w, Q none w → Does K perform part (fun _ w => Q' none w) handler w) :
    Does K perform part Q' (p.always handler) v :=
  Does.bind (Q := fun r w => r.elim (Q' none w) fun a => Q (some a) w)
    (h.onThrow hpart (fun _ _ ha => ha) hnone)
    (fun a w ha => (hsome a w ha).bind (fun _ _ hu => does_ret hpart hu) fun _ hu => hu) fun _ hu => hu

end

end

end Lib
