/-
Texts that are split at separators, from left to right, when they come in pieces: what a reader that keeps the last
part for the next piece has found in the end.
-/
import Mathlib.Data.List.Basic

namespace Lib.Split

variable {α : Type}

/-- The parts after some that are skipped. `separator` is the length of the separator that a text starts with. -/
def go (separator : List α → Option Nat) : Nat → List α → List α → List (List α)
  | _, part, [] => [part]
  | skip + 1, part, _ :: text => go separator skip part text
  | 0, part, a :: text =>
    match separator (a :: text) with
    | some length => part :: go separator (length - 1) [] text
    | none => go separator 0 (part ++ [a]) text

def split (separator : List α → Option Nat) (text : List α) : List (List α) := go separator 0 [] text

variable {separator : List α → Option Nat}

theorem go_skip (skipped text part : List α) : go separator skipped.length part (skipped ++ text) = go separator 0 part text := by
  induction skipped with
  | nil => rfl
  | cons a skipped ih => exact ih

theorem go_ne_nil (skip : Nat) (part text : List α) : go separator skip part text ≠ [] := by
  induction text generalizing skip part with
  | nil => cases skip <;> exact List.cons_ne_nil _ _
  | cons a text ih =>
    cases skip with
    | succ skip => exact ih skip part
    | zero =>
      rw [go]
      split
      · exact List.cons_ne_nil _ _
      · exact ih 0 _

/-- A text without separators is one part. -/
theorem go_none {text : List α} (h : ∀ rest, rest <:+ text → rest ≠ [] → separator rest = none) (part : List α) :
    go separator 0 part text = [part ++ text] := by
  induction text generalizing part with
  | nil => rw [go, List.append_nil]
  | cons a text ih =>
    rw [go, h (a :: text) List.suffix_rfl (List.cons_ne_nil _ _)]
    dsimp only
    rw [ih fun rest hrest => h rest (hrest.trans (List.suffix_cons a text)), List.append_assoc, List.singleton_append]

/-- A part ends at the first separator. -/
theorem go_append {frame sep rest : List α} (hsep : sep ≠ [])
    (hframe : ∀ tail, tail <:+ frame → tail ≠ [] → separator (tail ++ (sep ++ rest)) = none)
    (hfound : separator (sep ++ rest) = some sep.length) (part : List α) :
    go separator 0 part (frame ++ (sep ++ rest)) = (part ++ frame) :: split separator rest := by
  induction frame generalizing part with
  | nil =>
    obtain ⟨a, sep, rfl⟩ := List.exists_cons_of_ne_nil hsep
    rw [List.nil_append, List.cons_append, go, ← List.cons_append, hfound]
    dsimp only
    rw [List.length_cons, Nat.add_sub_cancel, go_skip, List.append_nil]
    rfl
  | cons a frame ih =>
    rw [List.cons_append, go, ← List.cons_append, hframe (a :: frame) List.suffix_rfl (List.cons_ne_nil _ _)]
    dsimp only
    rw [ih fun tail htail => hframe tail (htail.trans (List.suffix_cons a frame)), List.append_assoc,
      List.singleton_append]

/-! ## Pieces -/

/-- The parts before the last one, and that one. -/
def take (separator : List α → Option Nat) (text : List α) : List (List α) × List α :=
  let parts := split separator text
  (parts.dropLast, parts.getLastD [])

/-- The parts that a reader finds, piece after piece, when it keeps the last one. -/
def reads (separator : List α → Option Nat) : List α → List (List α) → List (List α)
  | _, [] => []
  | buffer, piece :: pieces =>
    (take separator (buffer ++ piece)).1 ++ reads separator (take separator (buffer ++ piece)).2 pieces

/-- The frames of a stream, each with its separator. -/
def stream (sep : List α) (frames : List (List α)) : List α := frames.flatMap (· ++ sep)

/-- A frame is found where its separator is, and not before. -/
structure Framed (separator : List α → Option Nat) (sep : List α) (frame : List α) : Prop where
  found (rest : List α) : separator (sep ++ rest) = some sep.length
  inside {tail : List α} (rest : List α) : tail <:+ frame → tail ≠ [] → separator (tail ++ (sep ++ rest)) = none
  early {text : List α} : text <+: frame ++ sep → text.length < (frame ++ sep).length →
    ∀ rest, rest <:+ text → rest ≠ [] → separator rest = none

theorem take_none {text : List α} (h : ∀ rest, rest <:+ text → rest ≠ [] → separator rest = none) :
    take separator text = ([], text) := by
  rw [take, split, go_none h, List.nil_append]
  rfl

theorem take_append {sep frame rest : List α} (hsep : sep ≠ []) (h : Framed separator sep frame) :
    take separator (frame ++ (sep ++ rest)) = (frame :: (take separator rest).1, (take separator rest).2) := by
  have hrest : split separator rest ≠ [] := go_ne_nil _ _ _
  rw [take, take, split, go_append hsep (fun _ => h.inside rest) (h.found rest), List.nil_append]
  obtain ⟨parts, last, hparts⟩ : ∃ parts last, split separator rest = parts ++ [last] :=
    ⟨_, _, (List.dropLast_append_getLast hrest).symm⟩
  have hlast : (frame :: (parts ++ [last])).dropLast = frame :: parts := @List.dropLast_concat _ (frame :: parts) last
  simp only [hparts, hlast, List.dropLast_concat, List.getLastD_cons, List.getLastD_concat]

/-- What has come of a stream: whole frames, and less than the next one with its separator. -/
theorem take_stream {sep : List α} (hsep : sep ≠ []) {frames : List (List α)}
    (h : ∀ frame ∈ frames, Framed separator sep frame) {text later : List α}
    (htext : text ++ later = stream sep frames) :
    ∃ done left, frames = done ++ left ∧ (take separator text).1 = done ∧
      (take separator text).2 ++ later = stream sep left ∧
      (left = [] ∨ ∃ frame left', left = frame :: left' ∧ (take separator text).2.length < (frame ++ sep).length) := by
  induction frames generalizing text with
  | nil =>
    obtain ⟨rfl, rfl⟩ := List.append_eq_nil_iff.1 htext
    exact ⟨[], [], rfl, rfl, rfl, Or.inl rfl⟩
  | cons frame frames ih =>
    obtain ⟨hframe, hframes⟩ := List.forall_mem_cons.1 h
    have hstream : stream sep (frame :: frames) = (frame ++ sep) ++ stream sep frames := List.flatMap_cons
    rw [hstream] at htext
    rcases Nat.lt_or_ge text.length (frame ++ sep).length with hshort | hlong
    · -- the frame is not whole
      have hprefix : text <+: frame ++ sep :=
        List.prefix_of_prefix_length_le (htext ▸ List.prefix_append text later)
          (List.prefix_append (frame ++ sep) (stream sep frames)) (Nat.le_of_lt hshort)
      have htake := take_none (hframe.early hprefix hshort)
      refine ⟨[], frame :: frames, rfl, by rw [htake], by rw [htake, htext, hstream], Or.inr ⟨frame, frames, rfl, ?_⟩⟩
      rwa [htake]
    · -- the frame is found, and the rest is read like another text
      have hprefix : frame ++ sep <+: text :=
        List.prefix_of_prefix_length_le (List.prefix_append (frame ++ sep) (stream sep frames))
          (htext ▸ List.prefix_append text later) hlong
      obtain ⟨text', rfl⟩ := hprefix
      rw [List.append_assoc] at htext
      obtain ⟨done, left, rfl, hdone, hleft, hnext⟩ := ih hframes (List.append_cancel_left htext)
      have htake := @take_append _ separator sep frame text' hsep hframe
      rw [← List.append_assoc] at htake
      refine ⟨frame :: done, left, rfl, by rw [htake, hdone], by rw [htake, hleft], by rwa [htake]⟩

/-- **A reader finds the frames of a stream from any pieces of it.** -/
theorem reads_stream {sep : List α} (hsep : sep ≠ []) {frames : List (List α)}
    (h : ∀ frame ∈ frames, Framed separator sep frame) {buffer : List α} {pieces : List (List α)}
    (htext : buffer ++ pieces.flatten = stream sep frames)
    (hbuffer : frames = [] ∨ ∃ frame left, frames = frame :: left ∧ buffer.length < (frame ++ sep).length) :
    reads separator buffer pieces = frames := by
  induction pieces generalizing buffer frames with
  | nil =>
    rcases hbuffer with rfl | ⟨frame, left, rfl, hshort⟩
    · rfl
    · rw [List.flatten_nil, List.append_nil] at htext
      rw [htext, stream, List.flatMap_cons, List.length_append] at hshort
      omega
  | cons piece pieces ih =>
    rw [List.flatten_cons, ← List.append_assoc] at htext
    obtain ⟨done, left, rfl, hdone, hleft, hnext⟩ := take_stream hsep h htext
    rw [reads, hdone, ih (fun frame hframe => h frame (List.mem_append_right _ hframe)) hleft hnext]

end Lib.Split
