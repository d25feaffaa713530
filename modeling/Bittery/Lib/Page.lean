/-
Pages of a list: how many elements a byte budget leaves, and how a cursor continues.

A page is cut three times: to the elements whose running sum of estimated sizes is within a
budget, to a limit, and to the elements whose serialized sizes fit. Each cut leaves a
beginning of what it is given, so a page is a beginning of what is left, and the key of its
last element is where the next one starts.
-/
import Mathlib.Data.List.Basic
import Mathlib.Data.List.TakeWhile
import Mathlib.Order.Basic

namespace Lib.Page

universe u v

variable {α : Type u} {κ : Type v}

/-! ## The cut by a running sum -/

/-- Each element with the sum of the weights up to it. -/
def runningSums (weight : α → Nat) : Nat → List α → List (α × Nat)
  | _, [] => []
  | sum, a :: l => (a, sum + weight a) :: runningSums weight (sum + weight a) l

/-- The first element, and the others whose running sum is within the budget. -/
def withinBudget (weight : α → Nat) (budget : Nat) (l : List α) : List α :=
  match runningSums weight 0 l with
  | [] => []
  | first :: rest => first.1 :: (rest.filter fun r => r.2 ≤ budget).map Prod.fst

/-- Sums only grow: after one that is over the budget all are. -/
theorem filter_runningSums_eq_nil {weight : α → Nat} {budget : Nat} : ∀ {l : List α} {sum : Nat}, budget < sum →
    (runningSums weight sum l).filter (fun r => r.2 ≤ budget) = []
  | [], _, _ => rfl
  | a :: l, sum, h => by
    have hsum : budget < sum + weight a := by omega
    rw [runningSums, List.filter_cons_of_neg (by simpa using hsum)]
    exact filter_runningSums_eq_nil hsum

theorem filter_runningSums_start {weight : α → Nat} {budget : Nat} : ∀ (l : List α) (sum : Nat),
    ((runningSums weight sum l).filter fun r => r.2 ≤ budget).map Prod.fst <+: l
  | [], _ => List.prefix_rfl
  | a :: l, sum => by
    rw [runningSums]
    by_cases h : sum + weight a ≤ budget
    · rw [List.filter_cons_of_pos (by simpa using h), List.map_cons, List.cons_prefix_cons]
      exact ⟨rfl, filter_runningSums_start l _⟩
    · rw [List.filter_cons_of_neg (by simpa using h), filter_runningSums_eq_nil (by omega)]
      exact List.nil_prefix

theorem withinBudget_cons (weight : α → Nat) (budget : Nat) (a : α) (l : List α) : withinBudget weight budget (a :: l) =
    a :: ((runningSums weight (0 + weight a) l).filter fun r => r.2 ≤ budget).map Prod.fst := rfl

theorem withinBudget_start (weight : α → Nat) (budget : Nat) : ∀ l : List α, withinBudget weight budget l <+: l
  | [] => List.prefix_rfl
  | a :: l => by
    rw [withinBudget_cons, List.cons_prefix_cons]
    exact ⟨rfl, filter_runningSums_start l _⟩

theorem withinBudget_ne_nil {weight : α → Nat} {budget : Nat} {l : List α} (h : l ≠ []) :
    withinBudget weight budget l ≠ [] := by
  cases l with
  | nil => exact absurd rfl h
  | cons a l => rw [withinBudget_cons]; simp

/-! ## The cut by serialized sizes -/

/-- The loop of `truncate_serialized`: how many elements fit, when the first one does. Every
element after the first is preceded by a comma. -/
def keepCount (size : α → Nat) (maximum : Nat) : Nat → Nat → List α → Option Nat
  | _, keep, [] => some keep
  | bytes, keep, a :: l =>
    let itemBytes := size a + (decide (0 < keep)).toNat
    if maximum < bytes + itemBytes then if keep = 0 then none else some keep
    else keepCount size maximum (bytes + itemBytes) (keep + 1) l

/-- `truncate_serialized`: the elements that fit between the brackets, and whether some do not. -/
def truncateSerialized (size : α → Nat) (maximum : Nat) (l : List α) : Option (List α × Bool) :=
  (keepCount size maximum 2 0 l).map fun keep => (l.take keep, decide (keep < l.length))

theorem keepCount_bounds {size : α → Nat} {maximum : Nat} : ∀ {l : List α} {bytes keep k : Nat},
    keepCount size maximum bytes keep l = some k → keep ≤ k ∧ k ≤ keep + l.length ∧ (l ≠ [] → 0 < k)
  | [], bytes, keep, k, h => by
    cases h
    exact ⟨Nat.le_refl _, Nat.le_add_right .., fun hne => absurd rfl hne⟩
  | a :: l, bytes, keep, k, h => by
    simp only [keepCount] at h
    rw [List.length_cons]
    split at h
    · split at h
      · cases h
      · next hkeep => cases h; omega
    · have := keepCount_bounds h
      omega

/-- Each element that is kept fits by itself, after what is there when the loop begins. -/
theorem keepCount_fits {size : α → Nat} {maximum : Nat} : ∀ {l : List α} {bytes keep k : Nat},
    keepCount size maximum bytes keep l = some k → ∀ a ∈ l.take (k - keep), bytes + size a ≤ maximum
  | [], _, _, _, _, a, ha => by
    rw [List.take_nil] at ha
    cases ha
  | b :: l, bytes, keep, k, h, a, ha => by
    simp only [keepCount] at h
    split at h
    · split at h
      · cases h
      · cases h
        rw [Nat.sub_self, List.take_zero] at ha
        cases ha
    · next hfits =>
      have hle := (keepCount_bounds h).1
      rw [show k - keep = k - (keep + 1) + 1 by omega, List.take_succ_cons] at ha
      rcases List.mem_cons.mp ha with rfl | ha
      · omega
      · have := keepCount_fits h a ha
        omega

theorem keepCount_eq_none {size : α → Nat} {maximum : Nat} : ∀ {l : List α} {bytes keep : Nat},
    keepCount size maximum bytes keep l = none → keep = 0 ∧ ∃ a, l.head? = some a ∧ maximum < bytes + size a
  | a :: l, bytes, keep, h => by
    simp only [keepCount] at h
    split at h
    · next hover =>
      split at h
      · next hkeep =>
        subst hkeep
        exact ⟨rfl, a, rfl, by simpa using hover⟩
      · cases h
    · have := (keepCount_eq_none h).1
      omega

/-! ## Cuts -/

/-- A page of a list: a beginning, at least one element when there is one, and whether
there is more. -/
structure Cut (l page : List α) (more : Bool) : Prop where
  start : page <+: l
  more : more = true ↔ page.length < l.length
  nonempty : l ≠ [] → page ≠ []

theorem Cut.of_take (l : List α) {n : Nat} (hn : 0 < n) : Cut l (l.take n) (decide (n < l.length)) := by
  refine ⟨List.take_prefix .., ?_, fun hl h => ?_⟩
  · rw [decide_eq_true_iff, List.length_take]
    omega
  · have := List.length_pos_iff.mpr hl
    have hlen := congrArg List.length h
    rw [List.length_take, List.length_nil] at hlen
    omega

theorem Cut.trans {l l' l'' : List α} {more more' : Bool} (h : Cut l l' more) (h' : Cut l' l'' more') :
    Cut l l'' (more || more') := by
  refine ⟨h'.start.trans h.start, ?_, fun hl => h'.nonempty (h.nonempty hl)⟩
  have hle := h.start.length_le
  have hle' := h'.start.length_le
  rw [Bool.or_eq_true, h.more, h'.more]
  omega

theorem Cut.of_withinBudget (weight : α → Nat) (budget : Nat) (l : List α) : Cut l (withinBudget weight budget l)
    (decide ((withinBudget weight budget l).length < l.length)) :=
  ⟨withinBudget_start .., decide_eq_true_iff, withinBudget_ne_nil⟩

theorem Cut.of_truncateSerialized {size : α → Nat} {maximum : Nat} {l page : List α} {more : Bool}
    (h : truncateSerialized size maximum l = some (page, more)) : Cut l page more := by
  obtain ⟨keep, hkeep, he⟩ := Option.map_eq_some_iff.mp h
  cases he
  obtain ⟨-, -, hpos⟩ := keepCount_bounds hkeep
  by_cases hl : l = []
  · subst hl
    exact ⟨by simp, by simp, fun h => absurd rfl h⟩
  · exact .of_take l (hpos hl)

theorem Cut.done {l page : List α} (h : Cut l page false) : page = l := by
  refine h.start.eq_of_length ?_
  have hle := h.start.length_le
  have hmore : ¬ page.length < l.length := fun hlt => by cases h.more.mpr hlt
  omega

/-- The elements of a page reach as far as a list that it is a cut of. -/
theorem Cut.eq_append {l page : List α} {more : Bool} (h : Cut l page more) : l = page ++ l.drop page.length := by
  obtain ⟨rest, hrest⟩ := h.start
  rw [← hrest, List.drop_left]

/-! ## Continuing after the last element -/

/-- Of a sorted list, what is not above an element of a beginning is in the beginning. -/
theorem mem_of_le [Preorder κ] {l page : List κ} {x a : κ} (hsorted : l.Pairwise (· < ·)) (hpage : page <+: l)
    (hx : x ∈ page) (ha : a ∈ l) (hle : a ≤ x) : a ∈ page := by
  obtain ⟨rest, rfl⟩ := hpage
  rcases List.mem_append.mp ha with ha | ha
  · exact ha
  · have hlt := (List.pairwise_append.mp hsorted).2.2 x hx a ha
    exact absurd (lt_of_lt_of_le hlt hle) (lt_irrefl x)

/-- The last element of a sorted list is the greatest. -/
theorem exists_getLast_of_mem [Preorder κ] {l : List κ} {a : κ} (hsorted : l.Pairwise (· < ·)) (ha : a ∈ l) :
    ∃ x, l.getLast? = some x ∧ a ≤ x := by
  cases hx : l.getLast? with
  | none =>
    rw [List.getLast?_eq_none_iff] at hx
    rw [hx] at ha
    cases ha
  | some x =>
    refine ⟨x, rfl, ?_⟩
    obtain ⟨init, rfl⟩ := List.getLast?_eq_some_iff.mp hx
    rcases List.mem_append.mp ha with ha | ha
    · exact le_of_lt ((List.pairwise_append.mp hsorted).2.2 a ha x (by simp))
    · rw [List.mem_singleton.mp ha]

/-- An element that is below another one of a sorted list is not its last. -/
theorem mem_dropLast_of_lt [Preorder κ] {key : α → κ} {l : List α} {x y : α} (hsorted : l.Pairwise fun a b => key a < key b)
    (hx : x ∈ l) (hy : y ∈ l) (hlt : key x < key y) : x ∈ l.dropLast := by
  obtain ⟨init, z, rfl⟩ : ∃ init z, l = init ++ [z] :=
    ⟨l.dropLast, l.getLast (List.ne_nil_of_mem hx), (List.dropLast_append_getLast _).symm⟩
  rw [List.dropLast_concat]
  rcases List.mem_append.mp hx with hx | hx
  · exact hx
  · obtain rfl := List.mem_singleton.mp hx
    rcases List.mem_append.mp hy with hy | hy
    · exact absurd ((List.pairwise_append.mp hsorted).2.2 y hy x (by simp)) (lt_asymm hlt)
    · rw [List.mem_singleton.mp hy] at hlt
      exact absurd hlt (lt_irrefl _)

/-- What a cursor leaves of a list: the elements after it. -/
def after [LT κ] [DecidableRel ((· < ·) : κ → κ → Prop)] (key : α → κ) (cursor : Option κ) (l : List α) : List α :=
  l.filter fun a => cursor.all fun c => c < key a

/-- **A page continues.** Of a sorted list, what is after the last element of a page is what
the page has left. -/
theorem after_getLast [Preorder κ] [DecidableRel ((· < ·) : κ → κ → Prop)] {key : α → κ} {cursor : Option κ} {l page : List α} {x : α}
    (hsorted : l.Pairwise fun a b => key a < key b) (hpage : page <+: after key cursor l) (hx : page.getLast? = some x) :
    after key (some (key x)) l = (after key cursor l).drop page.length := by
  obtain ⟨rest, hrest⟩ := hpage
  obtain ⟨init, rfl⟩ : ∃ init, page = init ++ [x] := by
    obtain ⟨init, hinit⟩ := List.getLast?_eq_some_iff.mp hx
    exact ⟨init, hinit⟩
  -- The elements after `x` are after the cursor as well.
  have hmem : x ∈ after key cursor l := by rw [← hrest]; simp
  have hsub : after key (some (key x)) l = (after key cursor l).filter fun a => key x < key a := by
    rw [after, after, List.filter_filter]
    refine List.filter_congr fun a ha => ?_
    cases cursor with
    | none => simp
    | some c =>
      have hcx : c < key x := by simpa using (List.mem_filter.mp hmem).2
      rw [Bool.eq_iff_iff, Bool.and_eq_true]
      simp only [Option.all_some, decide_eq_true_eq]
      exact ⟨fun h => ⟨h, lt_trans hcx h⟩, fun h => h.1⟩
  have hpw : (init ++ [x] ++ rest).Pairwise fun a b => key a < key b := by
    rw [hrest]
    exact hsorted.sublist List.filter_sublist
  obtain ⟨hinit, -, hcross⟩ := List.pairwise_append.mp hpw
  obtain ⟨-, -, hlast⟩ := List.pairwise_append.mp hinit
  rw [hsub, ← hrest, List.drop_left, List.filter_append]
  have hnone : (init ++ [x]).filter (fun a => decide (key x < key a)) = [] := by
    rw [List.filter_eq_nil_iff]
    intro a ha
    rw [decide_eq_true_iff]
    rcases List.mem_append.mp ha with ha | ha
    · exact lt_asymm (hlast a ha x (by simp))
    · rw [List.mem_singleton.mp ha]
      exact lt_irrefl _
  have hall : rest.filter (fun a => decide (key x < key a)) = rest := by
    rw [List.filter_eq_self]
    exact fun a ha => decide_eq_true (hcross x (by simp) a ha)
  rw [hnone, hall, List.nil_append]

/-! ## Following the cursors -/

section Following

variable {ε : Type v} {read : Option κ → Except ε (List α × Option κ)} {valid : Option κ → Prop} {left : Option κ → List α}
  {fits : α → Bool} {error : ε}

/-- Page after page, each by the cursor that the one before it returned, and the error that the last
reading ends with, if any; nothing when that many readings do not come to an end. -/
def follow (read : Option κ → Except ε (List α × Option κ)) : Nat → Option κ → Option (List α × Option ε)
  | 0, _ => none
  | n + 1, cursor =>
    match read cursor with
    | .error e => some ([], some e)
    | .ok (page, none) => some (page, none)
    | .ok (page, some next) => (follow read n (some next)).map fun rest => (page ++ rest.1, rest.2)

/-- What a reading does with what its cursor leaves: it returns a beginning of it, all of it or with
a cursor that leaves the rest, and it is refused when the first element does not fit. -/
def Continues (read : Option κ → Except ε (List α × Option κ)) (valid : Option κ → Prop) (left : Option κ → List α)
    (fits : α → Bool) (error : ε) (cursor : Option κ) : Prop :=
  (read cursor = .ok (left cursor, none) ∧ ∀ a ∈ left cursor, fits a = true) ∨
    (∃ page next, read cursor = .ok (page, some next) ∧ page ≠ [] ∧ (∀ a ∈ page, fits a = true) ∧ valid (some next) ∧
      left cursor = page ++ left (some next)) ∨
    ∃ a rest, read cursor = .error error ∧ left cursor = a :: rest ∧ fits a = false

/-- **Following the cursors** returns the elements up to the first that does not fit, each once and
in order, and comes to an end. -/
theorem follow_eq (h : ∀ cursor, valid cursor → Continues read valid left fits error cursor) {n : Nat} {cursor : Option κ}
    (hcursor : valid cursor) (hn : (left cursor).length < n) : follow read n cursor =
      some ((left cursor).takeWhile fits, if (left cursor).all fits then none else some error) := by
  induction n generalizing cursor with
  | zero => omega
  | succ n ih =>
    rw [follow]
    rcases h cursor hcursor with ⟨hread, hfits⟩ | ⟨page, next, hread, hne, hfits, hvalid, hleft⟩ | ⟨a, rest, hread, hleft, hlarge⟩
    · rw [hread, if_pos (List.all_eq_true.mpr hfits), List.takeWhile_eq_self_iff.mpr hfits]
    · have hpos := List.length_pos_iff.mpr hne
      have hshort : (left (some next)).length < n := by
        rw [hleft, List.length_append] at hn
        omega
      rw [hread, hleft, List.takeWhile_append_of_pos hfits, List.all_append, List.all_eq_true.mpr hfits, Bool.true_and]
      simp only [ih hvalid hshort, Option.map_some]
    · rw [hread, hleft, List.takeWhile_cons_of_neg (by simp [hlarge]), List.all_cons, hlarge, Bool.false_and]
      rfl

end Following

end Lib.Page
