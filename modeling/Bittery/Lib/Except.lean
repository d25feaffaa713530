/-
When a computation that may throw returns: one lemma for each way such computations are
put together, and the invariant rule of a fold.
-/
import Mathlib.Data.List.Forall2

namespace Lib.Except

universe u v

variable {ε : Type u} {α β : Type v}

theorem bind_ok_iff {x : Except ε α} {f : α → Except ε β} {b : β} :
    (x >>= f) = .ok b ↔ ∃ a, x = .ok a ∧ f a = .ok b := by
  cases x with
  | error e => exact ⟨fun h => (nomatch h), fun ⟨_, h, _⟩ => nomatch h⟩
  | ok a => exact ⟨fun h => ⟨a, rfl, h⟩, fun ⟨_, h, hf⟩ => by cases h; exact hf⟩

theorem map_ok_iff {x : Except ε α} {f : α → β} {b : β} : x.map f = .ok b ↔ ∃ a, x = .ok a ∧ f a = b := by
  cases x with
  | error e => exact ⟨fun h => (nomatch h), fun ⟨_, h, _⟩ => nomatch h⟩
  | ok a => simp [Except.map]

@[simp] theorem pure_ok_iff {a b : α} : (pure a : Except ε α) = .ok b ↔ a = b := by
  simp [pure, Except.pure]

/-- A check that throws on `p` before the rest, as `do` writes it: the branch that throws
is followed by the rest too. -/
theorem guard_ok_iff {p : Prop} [Decidable p] {e : ε} {f : β → Except ε α} {x : Except ε α} {a : α} :
    (if p then throw e >>= f else x) = .ok a ↔ ¬ p ∧ x = .ok a := by
  by_cases h : p
  · simp only [h, if_true, not_true, false_and, iff_false]
    exact fun h => nomatch h
  · simp only [h, if_false, not_false_iff, true_and]

theorem mapError_ok_iff {ε' : Type u} {x : Except ε α} {f : ε → ε'} {a : α} : x.mapError f = .ok a ↔ x = .ok a := by
  cases x with
  | error e => exact ⟨fun h => (nomatch h), fun h => nomatch h⟩
  | ok a => exact ⟨fun h => by cases h; rfl, fun h => by cases h; rfl⟩

theorem mapError_error_iff {ε' : Type u} {x : Except ε α} {f : ε → ε'} {e : ε'} :
    x.mapError f = .error e ↔ ∃ e', x = .error e' ∧ f e' = e := by
  cases x with
  | error e' => simp [Except.mapError]
  | ok a => simp [Except.mapError]

theorem bind_error_iff {x : Except ε α} {f : α → Except ε β} {e : ε} :
    (x >>= f) = .error e ↔ x = .error e ∨ ∃ a, x = .ok a ∧ f a = .error e := by
  cases x with
  | error e' => simp [bind, Except.bind]
  | ok a => simp [bind, Except.bind]

/-- A check that throws, when the computation fails: it is the check or the rest. -/
theorem guard_error_iff {p : Prop} [Decidable p] {e e' : ε} {f : β → Except ε α} {x : Except ε α} :
    (if p then throw e >>= f else x) = .error e' ↔ p ∧ e = e' ∨ ¬ p ∧ x = .error e' := by
  by_cases h : p
  · simp only [h, if_true, true_and, not_true, false_and, or_false]
    exact ⟨fun h => Except.error.inj h, fun h => h ▸ rfl⟩
  · simp only [h, if_false, false_and, not_false_iff, true_and, false_or]

theorem toOption_eq_some_iff {x : Except ε α} {a : α} : x.toOption = some a ↔ x = .ok a := by
  cases x <;> simp [Except.toOption]

theorem mapM_ok {f : α → Except ε β} : ∀ {l : List α} {r : List β}, l.mapM f = .ok r →
    List.Forall₂ (fun a b => f a = .ok b) l r
  | [], r, h => by
    rw [List.mapM_nil, pure_ok_iff] at h
    rw [← h]; exact .nil
  | a :: l, r, h => by
    simp only [List.mapM_cons, bind_ok_iff, pure_ok_iff] at h
    obtain ⟨b, hb, bs, hbs, rfl⟩ := h
    exact .cons hb (mapM_ok hbs)

/-- A loop for its checks alone passes when every check does. -/
theorem forM_ok {f : α → Except ε PUnit} :
    ∀ {l : List α}, l.forM f = .ok ⟨⟩ → ∀ a ∈ l, f a = .ok ⟨⟩
  | a :: l, h, b, hb => by
    obtain ⟨⟨⟩, ha, hl⟩ := bind_ok_iff.mp (show (f a >>= fun _ => l.forM f) = .ok ⟨⟩ from h)
    rcases List.mem_cons.mp hb with rfl | hb
    · exact ha
    · exact forM_ok hl b hb

/-- What a fold has done (`I done b`) after the elements `done`. -/
theorem foldlM_ok {f : β → α → Except ε β} (I : List α → β → Prop)
    (step : ∀ done a b b', I done b → f b a = .ok b' → I (done ++ [a]) b') :
    ∀ {l done : List α} {b r : β}, I done b → l.foldlM f b = .ok r → I (done ++ l) r
  | [], done, b, r, hI, h => by
    rw [List.foldlM_nil, pure_ok_iff] at h
    rw [List.append_nil, ← h]; exact hI
  | a :: l, done, b, r, hI, h => by
    obtain ⟨b', hb, hl⟩ := bind_ok_iff.mp (show (f b a >>= fun b' => l.foldlM f b') = .ok r from h)
    have := foldlM_ok I step (step done a b b' hI hb) hl
    rwa [List.append_assoc, List.singleton_append] at this

end Lib.Except
