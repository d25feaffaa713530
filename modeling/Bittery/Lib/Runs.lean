/-
Transition systems given by a partial step function, and their runs.

A system has a set of initial states and a step function `step s a : Option σ`:
`none` means that the label `a` is not enabled in `s`. All nondeterminism (which
party moves, what the environment answers) is in the label, so a run is computed
from its labels and a concrete run can be evaluated.

A run can be restricted by a condition on the state and the label of every step.
The restricted runs are the ones a theorem with a side condition speaks about, and
`ReachableUnder.invariant` is the one induction that the invariant proofs share.
-/
import Mathlib.Data.List.Basic
import Mathlib.Order.WellFounded

namespace Lib

universe u v

/-- A transition system with computable steps. -/
structure System (σ : Type u) (α : Type v) where
  init : σ → Prop
  step : σ → α → Option σ

namespace System

variable {σ : Type u} {α : Type v} {M : System σ α}

/-- The states reached by the runs in which every step meets `C`. -/
inductive ReachableUnder (M : System σ α) (C : σ → α → Prop) : σ → Prop
  | init {s : σ} : M.init s → ReachableUnder M C s
  | step {s t : σ} (a : α) : ReachableUnder M C s → C s a → M.step s a = some t → ReachableUnder M C t

/-- The states reached by any run. -/
def Reachable (M : System σ α) (s : σ) : Prop := M.ReachableUnder (fun _ _ => True) s

theorem ReachableUnder.mono {C D : σ → α → Prop} (hCD : ∀ s a, C s a → D s a) {s : σ}
    (h : M.ReachableUnder C s) : M.ReachableUnder D s := by
  induction h with
  | init h => exact .init h
  | step a _ hC hs ih => exact .step a ih (hCD _ _ hC) hs

theorem ReachableUnder.reachable {C : σ → α → Prop} {s : σ} (h : M.ReachableUnder C s) : M.Reachable s :=
  h.mono fun _ _ _ => trivial

/-- **The invariant rule.** What the initial states have and every step that meets
the condition preserves holds in every state reached. The step premise may use that
its source is reached. -/
theorem ReachableUnder.invariant {C : σ → α → Prop} (I : σ → Prop) (hinit : ∀ s, M.init s → I s)
    (hstep : ∀ s a t, M.ReachableUnder C s → I s → C s a → M.step s a = some t → I t) {s : σ}
    (h : M.ReachableUnder C s) : I s := by
  induction h with
  | init h => exact hinit _ h
  | step a hr hC hs ih => exact hstep _ a _ hr ih hC hs

/-- The invariant rule for runs without a condition. -/
theorem Reachable.invariant (I : σ → Prop) (hinit : ∀ s, M.init s → I s)
    (hstep : ∀ s a t, M.Reachable s → I s → M.step s a = some t → I t) {s : σ} (h : M.Reachable s) : I s :=
  ReachableUnder.invariant I hinit (fun s a t hr hI _ hs => hstep s a t hr hI hs) h

/-! ## Evaluating runs -/

/-- The state after the labels `as`, when each is enabled in turn. -/
def run (M : System σ α) (s : σ) : List α → Option σ
  | [] => some s
  | a :: as => (M.step s a).bind fun t => M.run t as

/-- `run`, cut off at the first step that does not meet `C`. -/
def runUnder (M : System σ α) (C : σ → α → Prop) [∀ s a, Decidable (C s a)] (s : σ) : List α → Option σ
  | [] => some s
  | a :: as => if C s a then (M.step s a).bind fun t => M.runUnder C t as else none

/-- One run after another. -/
theorem run_trans {s t u : σ} {as bs : List α} (h : M.run s as = some t) (h' : M.run t bs = some u) :
    M.run s (as ++ bs) = some u := by
  induction as generalizing s with
  | nil => exact Option.some.inj h ▸ h'
  | cons a as ih =>
    obtain ⟨m, hm, hrest⟩ := Option.bind_eq_some_iff.mp h
    rw [List.cons_append, run, hm]
    exact ih hrest

theorem ReachableUnder.runUnder {C : σ → α → Prop} [∀ s a, Decidable (C s a)] {s t : σ} {as : List α}
    (h : M.ReachableUnder C s) (hr : M.runUnder C s as = some t) : M.ReachableUnder C t := by
  induction as generalizing s with
  | nil => simp only [System.runUnder, Option.some.injEq] at hr; exact hr ▸ h
  | cons a as ih =>
    simp only [System.runUnder] at hr
    split at hr
    · next hC =>
      obtain ⟨m, hm, hr⟩ := Option.bind_eq_some_iff.mp hr
      exact ih (.step a h hC hm) hr
    · cases hr

theorem run_of_runUnder {C : σ → α → Prop} [∀ s a, Decidable (C s a)] {s t : σ} {as : List α}
    (hr : M.runUnder C s as = some t) : M.run s as = some t := by
  induction as generalizing s with
  | nil => exact hr
  | cons a as ih =>
    simp only [System.runUnder] at hr
    split at hr
    · obtain ⟨m, hm, hr⟩ := Option.bind_eq_some_iff.mp hr
      rw [System.run, hm]
      exact ih hr
    · cases hr

/-- A run whose labels meet the condition in every state. -/
theorem ReachableUnder.run {C : σ → α → Prop} {s t : σ} {as : List α} (h : M.ReachableUnder C s)
    (hC : ∀ a ∈ as, ∀ s, C s a) (hr : M.run s as = some t) : M.ReachableUnder C t := by
  induction as generalizing s with
  | nil => simp only [System.run, Option.some.injEq] at hr; exact hr ▸ h
  | cons a as ih =>
    obtain ⟨m, hm, hr⟩ := Option.bind_eq_some_iff.mp hr
    exact ih (.step a h (hC a (by simp) s) hm) (fun b hb => hC b (by simp [hb])) hr

theorem Reachable.run {s t : σ} {as : List α} (h : M.Reachable s) (hr : M.run s as = some t) :
    M.Reachable t := by
  induction as generalizing s with
  | nil => simp only [System.run, Option.some.injEq] at hr; exact hr ▸ h
  | cons a as ih =>
    obtain ⟨m, hm, hr⟩ := Option.bind_eq_some_iff.mp hr
    exact ih (.step a h trivial hm) hr

/-! ## Endless runs -/

/-- The states of an endless run and the labels of its steps. -/
def Endless (M : System σ α) (state : Nat → σ) (label : Nat → α) : Prop :=
  ∀ n, M.step (state n) (label n) = some (state (n + 1))

end System

/-! ## Machines that answer every input -/

/-- `P` holds of every step that the inputs make. -/
def Along {σ : Type u} {α : Type v} (next : σ → α → σ) (P : σ → α → Prop) (s : σ) : List α → Prop
  | [] => True
  | a :: as => P s a ∧ Along next P (next s a) as

section Along

variable {σ : Type u} {α : Type v} {next : σ → α → σ} {P C : σ → α → Prop}

/-- **The rule for every step.** An invariant that the steps under the condition keep, and under which they have `P`. -/
theorem Along.of_invariant (I : σ → Prop) (hstep : ∀ s a, I s → C s a → P s a ∧ I (next s a)) {s : σ} {as : List α}
    (hI : I s) (h : Along next C s as) : Along next P s as := by
  induction as generalizing s with
  | nil => trivial
  | cons a as ih =>
    obtain ⟨hP, hnext⟩ := hstep s a hI h.1
    exact ⟨hP, ih hnext h.2⟩

theorem Along.imp (hPC : ∀ s a, P s a → C s a) {s : σ} {as : List α} (h : Along next P s as) : Along next C s as :=
  h.of_invariant (fun _ => True) (fun s a _ hP => ⟨hPC s a hP, trivial⟩) trivial

end Along

/-- What settles is taken from the list of what is under way; anything else stays in it. -/
theorem mem_eraseIdx_of_ne {α : Type u} {l : List α} {i : Nat} {a b : α} (hi : l[i]? = some b) (ha : a ∈ l)
    (hne : a ≠ b) : a ∈ l.eraseIdx i := by
  obtain ⟨j, hj⟩ := List.mem_iff_getElem?.mp ha
  refine List.mem_eraseIdx_iff_getElem?.mpr ⟨j, ?_, hj⟩
  rintro rfl
  rw [hi, Option.some.injEq] at hj
  exact hne hj.symm

/-- **The recurrence rule.** What every step, unless it happens there, brings nearer happens
again and again. -/
theorem recurs {σ : Type u} {β : Type v} [LT β] [WellFoundedLT β] {state : Nat → σ} {happens : Nat → Prop} (μ : σ → β)
    (hnearer : ∀ n, ¬ happens n → μ (state (n + 1)) < μ (state n)) (n : Nat) : ∃ m, n ≤ m ∧ happens m := by
  generalize hb : μ (state n) = b
  induction b using WellFoundedLT.induction generalizing n with
  | ind b ih =>
    by_cases hn : happens n
    · exact ⟨n, Nat.le_refl n, hn⟩
    · obtain ⟨m, hm, hhappens⟩ := ih _ (hb ▸ hnearer n hn) (n + 1) rfl
      exact ⟨m, by omega, hhappens⟩

end Lib
