/-
A list of processes of which at most one is live, and a status that says what the live one
does.

Each process has a stage, or none when it is dead; the status is that of the live process,
or none when there is none. A process is started only when none is live; a live one may go on
to another stage or die; a dead one stays dead.
-/
import Mathlib.Data.List.Basic

namespace Lib

universe u v

variable {α : Type u} {β : Type v}

/-- At most one process is live, and `status` is its stage. -/
structure OneLive (stage : α → Option β) (l : List α) (status : Option β) : Prop where
  unique : ∀ (i j : Nat) (a b : α), l[i]? = some a → l[j]? = some b → (stage a).isSome = true →
    (stage b).isSome = true → i = j
  status_iff : ∀ b, status = some b ↔ ∃ a ∈ l, stage a = some b

namespace OneLive

variable {stage : α → Option β} {l : List α} {status : Option β}

theorem nil : OneLive stage [] none := ⟨fun _ _ _ _ h => by simp at h, fun _ => by simp⟩

/-- Without a status nothing is live. -/
theorem dead (h : OneLive stage l none) {a : α} (ha : a ∈ l) : stage a = none := by
  cases hstage : stage a with
  | none => rfl
  | some b => exact absurd ((h.status_iff b).mpr ⟨a, ha, hstage⟩) (by simp)

/-- When all processes are dead, there is no status. -/
theorem of_dead (h : ∀ a ∈ l, stage a = none) : OneLive stage l none where
  unique i _ a _ hi _ hlive _ := by simp [h a (List.mem_of_getElem? hi)] at hlive
  status_iff b := by
    constructor
    · intro hb
      cases hb
    · rintro ⟨a, ha, hstage⟩
      simp [h a ha] at hstage

/-- A process is started. -/
theorem start (h : OneLive stage l none) {a : α} {b : β} (ha : stage a = some b) :
    OneLive stage (l ++ [a]) (some b) where
  unique i j x y hi hj hx hy := by
    have hlast : ∀ (k : Nat) (z : α), (l ++ [a])[k]? = some z → (stage z).isSome = true → k = l.length := by
      intro k z hk hz
      rcases Nat.lt_or_ge k l.length with hlt | hge
      · rw [List.getElem?_append_left hlt] at hk
        simp [h.dead (List.mem_of_getElem? hk)] at hz
      · have := (List.getElem?_eq_some_iff.mp hk).1
        simp only [List.length_append, List.length_cons, List.length_nil] at this
        omega
    rw [hlast i x hi hx, hlast j y hj hy]
  status_iff c := by
    constructor
    · rintro ⟨⟩
      exact ⟨a, by simp, ha⟩
    · rintro ⟨x, hx, hstage⟩
      rcases List.mem_append.mp hx with hx | hx
      · simp [h.dead hx] at hstage
      · obtain rfl := List.mem_singleton.mp hx
        exact ha.symm.trans hstage

/-- What is at another place than the live process is dead. -/
theorem dead_of_ne (h : OneLive stage l status) {i j : Nat} {a x : α} (hi : l[i]? = some a)
    (hlive : (stage a).isSome = true) (hj : l[j]? = some x) (hne : i ≠ j) : stage x = none := by
  cases hstage : stage x with
  | none => rfl
  | some b => exact absurd (h.unique i j a x hi hj hlive (by simp [hstage])) hne

/-- The live process goes on, or dies. -/
theorem set_live (h : OneLive stage l status) {i : Nat} {a : α} (hi : l[i]? = some a)
    (hlive : (stage a).isSome = true) (a' : α) : OneLive stage (l.set i a') (stage a') := by
  have hlt := (List.getElem?_eq_some_iff.mp hi).1
  have hothers : ∀ (j : Nat) (x : α), (l.set i a')[j]? = some x → (stage x).isSome = true → j = i ∧ x = a' := by
    intro j x hj hx
    by_cases hij : i = j
    · subst hij
      rw [List.getElem?_set_self hlt] at hj
      exact ⟨rfl, (Option.some.inj hj).symm⟩
    · rw [List.getElem?_set_ne hij] at hj
      simp [h.dead_of_ne hi hlive hj hij] at hx
  constructor
  · intro j k x y hj hk hx hy
    rw [(hothers j x hj hx).1, (hothers k y hk hy).1]
  · intro b
    constructor
    · intro hb
      exact ⟨a', List.mem_iff_getElem?.mpr ⟨i, List.getElem?_set_self hlt⟩, hb⟩
    · rintro ⟨x, hx, hstage⟩
      obtain ⟨j, hj⟩ := List.mem_iff_getElem?.mp hx
      obtain rfl := (hothers j x hj (by simp [hstage])).2
      exact hstage

/-- A dead process does something. -/
theorem set_dead (h : OneLive stage l status) {i : Nat} {a a' : α} (hi : l[i]? = some a) (hdead : stage a = none)
    (hdead' : stage a' = none) : OneLive stage (l.set i a') status := by
  have hlt := (List.getElem?_eq_some_iff.mp hi).1
  have hsame : ∀ (j : Nat) (x : α), (stage x).isSome = true → ((l.set i a')[j]? = some x ↔ l[j]? = some x) := by
    intro j x hx
    by_cases hij : i = j
    · subst hij
      rw [List.getElem?_set_self hlt, hi]
      constructor
      · rintro ⟨⟩
        simp [hdead'] at hx
      · rintro ⟨⟩
        simp [hdead] at hx
    · rw [List.getElem?_set_ne hij]
  constructor
  · intro j k x y hj hk hx hy
    exact h.unique j k x y ((hsame j x hx).mp hj) ((hsame k y hy).mp hk) hx hy
  · intro b
    rw [h.status_iff]
    simp only [List.mem_iff_getElem?]
    constructor
    · rintro ⟨x, ⟨j, hj⟩, hstage⟩
      exact ⟨x, ⟨j, (hsame j x (by simp [hstage])).mpr hj⟩, hstage⟩
    · rintro ⟨x, ⟨j, hj⟩, hstage⟩
      exact ⟨x, ⟨j, (hsame j x (by simp [hstage])).mp hj⟩, hstage⟩

/-- When the place of the live process is known, killing what is there leaves nothing live. -/
theorem dead_of_killed {place : Option Nat} (hplace : ∀ (i : Nat) (a : α), l[i]? = some a → (stage a).isSome = true → place = some i)
    {kill : α → α} (hkill : ∀ a, stage (kill a) = none) :
    ∀ a ∈ place.elim l (fun i => l.modify i kill), stage a = none := by
  intro a ha
  cases hstage : stage a with
  | none => rfl
  | some b =>
    have hlive : (stage a).isSome = true := by simp [hstage]
    cases place with
    | none =>
      obtain ⟨j, hj⟩ := List.mem_iff_getElem?.mp ha
      cases hplace j a hj hlive
    | some i =>
      obtain ⟨j, hj⟩ := List.mem_iff_getElem?.mp ha
      simp only [Option.elim_some, List.getElem?_modify] at hj
      obtain ⟨x, hx, heq⟩ := Option.map_eq_some_iff.mp hj
      by_cases hij : i = j
      · rw [if_pos hij] at heq
        subst heq
        rw [hkill] at hstage
        cases hstage
      · rw [if_neg hij] at heq
        change x = a at heq
        subst heq
        exact absurd (Option.some.inj (hplace j x hx hlive)) hij

end OneLive

end Lib
