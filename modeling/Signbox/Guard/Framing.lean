import Mathlib.Data.List.Basic

/-!
# Frames of a stream

A stream of symbols, cut into frames by a separator. The last frame may be unfinished.

* `cut`: the finished frames of a stream, and what is left of it.
* `cut_append`: a stream that goes on is cut where the unfinished frame stopped, so the frames do
  not depend on the pieces the stream arrives in.
* `cut_frames`: the frames of a stream that was written frame by frame.
-/

namespace Framing

variable {α : Type*} {sep : α} {s t frame : List α} {frames : List (List α)}

/-- The frames, each with its separator. -/
def write (sep : α) (frames : List (List α)) : List α := frames.flatMap fun frame => frame ++ [sep]

@[simp] theorem write_nil : write sep [] = [] := rfl

@[simp] theorem write_cons : write sep (frame :: frames) = frame ++ sep :: write sep frames := by
  simp [write]

variable [DecidableEq α]

/-- The finished frames, and the unfinished one. -/
def cut (sep : α) : List α → List (List α) × List α
  | [] => ([], [])
  | a :: s =>
    if a = sep then ([] :: (cut sep s).1, (cut sep s).2)
    else match (cut sep s).1 with
      | [] => ([], a :: (cut sep s).2)
      | frame :: frames => ((a :: frame) :: frames, (cut sep s).2)

theorem cut_open (h : sep ∉ s) : cut sep s = ([], s) := by
  induction s with
  | nil => rfl
  | cons a s ih =>
    have ha : a ≠ sep := fun heq => h (heq ▸ List.mem_cons_self)
    have hs : cut sep s = ([], s) := ih fun hmem => h (List.mem_cons_of_mem _ hmem)
    rw [cut, if_neg ha, hs]

/-- The first frame. -/
theorem cut_frame (h : sep ∉ frame) :
    cut sep (frame ++ sep :: s) = (frame :: (cut sep s).1, (cut sep s).2) := by
  induction frame with
  | nil => rw [List.nil_append, cut, if_pos rfl]
  | cons a frame ih =>
    have ha : a ≠ sep := fun heq => h (heq ▸ List.mem_cons_self)
    have hrest := ih fun hmem => h (List.mem_cons_of_mem _ hmem)
    rw [List.cons_append, cut, if_neg ha, hrest]

/-- A stream begins with its first frame, or has none. -/
theorem cut_cases (sep : α) (s : List α) :
    sep ∉ s ∨ ∃ frame rest, sep ∉ frame ∧ s = frame ++ sep :: rest := by
  induction s with
  | nil => exact Or.inl (by simp)
  | cons a s ih =>
    by_cases ha : a = sep
    · exact Or.inr ⟨[], s, by simp, by rw [ha, List.nil_append]⟩
    · rcases ih with hs | ⟨frame, rest, hframe, rfl⟩
      · exact Or.inl fun hmem => (List.mem_cons.1 hmem).elim (fun h => ha h.symm) hs
      · refine Or.inr ⟨a :: frame, rest, fun hmem => ?_, rfl⟩
        exact (List.mem_cons.1 hmem).elim (fun h => ha h.symm) hframe

/-- Induction along the frames of a stream. -/
theorem frames_induction (sep : α) {P : List α → Prop} (hopen : ∀ s, sep ∉ s → P s)
    (hframe : ∀ frame s, sep ∉ frame → P s → P (frame ++ sep :: s)) (s : List α) : P s := by
  induction hn : s.length using Nat.strongRecOn generalizing s with
  | ind n ih =>
    rcases cut_cases sep s with hs | ⟨frame, rest, hsep, rfl⟩
    · exact hopen s hs
    · have hlt : rest.length < n := by
        rw [← hn, List.length_append, List.length_cons]
        omega
      exact hframe frame rest hsep (ih rest.length hlt rest rfl)

/-- **A stream that goes on** is cut from its unfinished frame: nothing that was cut before is cut
again, and only what was pending is read a second time. This is why chunks may be dispatched as
they come. -/
theorem cut_append (s t : List α) :
    cut sep (s ++ t) = ((cut sep s).1 ++ (cut sep ((cut sep s).2 ++ t)).1,
      (cut sep ((cut sep s).2 ++ t)).2) := by
  induction s using frames_induction sep with
  | hopen s hs => rw [cut_open hs, List.nil_append]
  | hframe frame s hframe ih =>
    rw [List.append_assoc, List.cons_append, cut_frame hframe, cut_frame hframe, ih]
    rfl

/-- What is left has no separator. -/
theorem cut_rest (s : List α) : sep ∉ (cut sep s).2 := by
  induction s using frames_induction sep with
  | hopen s hs => rwa [cut_open hs]
  | hframe frame s hframe ih => rwa [cut_frame hframe]

/-- **A stream written frame by frame** is cut back into its frames with nothing pending, if no
frame holds the separator. -/
theorem cut_frames (h : ∀ frame ∈ frames, sep ∉ frame) : cut sep (write sep frames) = (frames, []) := by
  induction frames with
  | nil => rfl
  | cons frame frames ih =>
    have hfirst := h frame List.mem_cons_self
    have hrest := ih fun frame hmem => h frame (List.mem_cons_of_mem _ hmem)
    rw [write_cons, cut_frame hfirst, hrest]

end Framing
