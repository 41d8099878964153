import Mathlib.Data.List.Nodup
import Mathlib.Logic.Relation

/-!
# Depth-first walks

A walk over a list of edges, with an explicit stack: the top of the stack is taken off and,
unless it was seen before, it is recorded and the ends of its edges are pushed, so that the
end of the last edge is on top. Every edge is pushed at most once, which bounds the walk.

* `walk_nil`, `walk_seen`, `walk_new`: one turn of the loop.
* `mem_walk`: a walk from `a` sees exactly what can be reached from `a`.
* `search_iff`: the same walk, stopped at a goal, finds it exactly when it can be reached.
-/

namespace Walk

variable {κ : Type*} [DecidableEq κ]

/-- The ends of the edges that leave `x`. -/
def targets (edges : List (κ × κ)) (x : κ) : List κ :=
  (edges.filter fun e => e.1 = x).map Prod.snd

/-- How many edges leave something that is not seen yet. -/
def pending (edges : List (κ × κ)) (seen : List κ) : ℕ :=
  (edges.filter fun e => e.1 ∉ seen).length

/-- The loop, with a bound on its turns. -/
def visit (edges : List (κ × κ)) : ℕ → List κ → List κ → List κ
  | 0, seen, _ => seen
  | _ + 1, seen, [] => seen
  | n + 1, seen, x :: stack =>
    if x ∈ seen then visit edges n seen stack
    else visit edges n (seen ++ [x]) ((targets edges x).reverse ++ stack)

/-- The walk from a stack, with enough turns to empty it. -/
def walk (edges : List (κ × κ)) (seen stack : List κ) : List κ :=
  visit edges (stack.length + pending edges seen) seen stack

/-- The loop that stops with `true` at the goal. -/
def seek (edges : List (κ × κ)) (goal : κ) : ℕ → List κ → List κ → Bool
  | 0, _, _ => false
  | _ + 1, _, [] => false
  | n + 1, seen, x :: stack =>
    if x = goal then true
    else if x ∈ seen then seek edges goal n seen stack
    else seek edges goal n (seen ++ [x]) ((targets edges x).reverse ++ stack)

/-- The walk that looks for a goal. -/
def search (edges : List (κ × κ)) (goal : κ) (seen stack : List κ) : Bool :=
  seek edges goal (stack.length + pending edges seen) seen stack

variable {edges : List (κ × κ)} {seen stack : List κ} {x y a goal : κ}

theorem mem_targets : y ∈ targets edges x ↔ (x, y) ∈ edges := by
  simp [targets]

/-! ## One turn -/

/-- Recording `x` leaves the edges of `x` behind. -/
theorem pending_append (h : x ∉ seen) :
    pending edges seen = (targets edges x).length + pending edges (seen ++ [x]) := by
  unfold pending targets
  rw [List.length_map]
  induction edges with
  | nil => rfl
  | cons e edges ih =>
    by_cases hx : e.1 = x
    · simp [hx, h] at ih ⊢
      omega
    · by_cases hs : e.1 ∈ seen <;> simp [hx, hs] at ih ⊢ <;> omega

theorem walk_nil : walk edges seen [] = seen := by
  unfold walk
  cases [].length + pending edges seen <;> rfl

theorem walk_seen (h : x ∈ seen) : walk edges seen (x :: stack) = walk edges seen stack := by
  unfold walk
  rw [List.length_cons, Nat.add_right_comm, visit, if_pos h]

theorem walk_new (h : x ∉ seen) : walk edges seen (x :: stack) =
    walk edges (seen ++ [x]) ((targets edges x).reverse ++ stack) := by
  unfold walk
  rw [List.length_cons, Nat.add_right_comm, visit, if_neg h, pending_append h, List.length_append,
    List.length_reverse]
  congr 1
  omega

theorem search_nil : search edges goal seen [] = false := by
  unfold search
  cases [].length + pending edges seen <;> rfl

theorem search_goal : search edges goal seen (goal :: stack) = true := by
  unfold search
  rw [List.length_cons, Nat.add_right_comm, seek, if_pos rfl]

theorem search_seen (hx : x ≠ goal) (h : x ∈ seen) :
    search edges goal seen (x :: stack) = search edges goal seen stack := by
  unfold search
  rw [List.length_cons, Nat.add_right_comm, seek, if_neg hx, if_pos h]

theorem search_new (hx : x ≠ goal) (h : x ∉ seen) : search edges goal seen (x :: stack) =
    search edges goal (seen ++ [x]) ((targets edges x).reverse ++ stack) := by
  unfold search
  rw [List.length_cons, Nat.add_right_comm, seek, if_neg hx, if_neg h, pending_append h,
    List.length_append, List.length_reverse]
  congr 1
  omega

/-- **The induction of the loop**: a statement about all walks follows from its turns. There are
three of them: the stack is empty, its top was seen, or its top is new and its targets go on the
stack. -/
theorem walk_induction (edges : List (κ × κ)) {P : List κ → List κ → Prop} (hnil : ∀ seen, P seen [])
    (hseen : ∀ seen x stack, x ∈ seen → P seen stack → P seen (x :: stack))
    (hnew : ∀ seen x stack, x ∉ seen →
      P (seen ++ [x]) ((targets edges x).reverse ++ stack) → P seen (x :: stack))
    (seen stack : List κ) : P seen stack := by
  induction hn : stack.length + pending edges seen generalizing seen stack with
  | zero =>
    obtain rfl : stack = [] := List.length_eq_zero_iff.1 (by omega)
    exact hnil seen
  | succ n ih =>
    cases stack with
    | nil => exact hnil seen
    | cons x stack =>
      by_cases hx : x ∈ seen
      · exact hseen seen x stack hx (ih seen stack (by rw [List.length_cons] at hn; omega))
      · refine hnew seen x stack hx (ih _ _ ?_)
        have hpend : pending edges seen = _ := pending_append hx
        rw [List.length_cons] at hn
        rw [List.length_append, List.length_reverse]
        omega

/-! ## What a walk sees -/

/-- A path of edges. -/
def Reach (edges : List (κ × κ)) : κ → κ → Prop :=
  Relation.ReflTransGen fun x y => (x, y) ∈ edges

theorem subset_walk : ∀ z ∈ seen, z ∈ walk edges seen stack := by
  induction seen, stack using walk_induction edges with
  | hnil seen => rw [walk_nil]; exact fun z hz => hz
  | hseen seen x stack hx ih => rw [walk_seen hx]; exact ih
  | hnew seen x stack hx ih =>
    rw [walk_new hx]
    exact fun z hz => ih z (List.mem_append_left _ hz)

theorem stack_subset_walk : ∀ z ∈ stack, z ∈ walk edges seen stack := by
  induction seen, stack using walk_induction edges with
  | hnil seen => simp
  | hseen seen x stack hx ih =>
    rw [walk_seen hx]
    exact List.forall_mem_cons.2 ⟨subset_walk x hx, ih⟩
  | hnew seen x stack hx ih =>
    rw [walk_new hx]
    refine List.forall_mem_cons.2 ⟨subset_walk x (by simp), fun z hz => ih z ?_⟩
    exact List.mem_append_right _ hz

/-- What is seen was seen before or is reached from the stack. -/
theorem walk_sound : ∀ z ∈ walk edges seen stack, z ∈ seen ∨ ∃ w ∈ stack, Reach edges w z := by
  induction seen, stack using walk_induction edges with
  | hnil seen => rw [walk_nil]; exact fun z hz => Or.inl hz
  | hseen seen x stack hx ih =>
    rw [walk_seen hx]
    intro z hz
    rcases ih z hz with hz | ⟨w, hw, hwz⟩
    · exact Or.inl hz
    · exact Or.inr ⟨w, List.mem_cons_of_mem _ hw, hwz⟩
  | hnew seen x stack hx ih =>
    rw [walk_new hx]
    intro z hz
    rcases ih z hz with hz | ⟨w, hw, hwz⟩
    · rcases List.mem_append.1 hz with hz | hz
      · exact Or.inl hz
      · rw [List.mem_singleton.1 hz]
        exact Or.inr ⟨x, by simp, .refl⟩
    · rcases List.mem_append.1 hw with hw | hw
      · have hedge : (x, w) ∈ edges := mem_targets.1 (List.mem_reverse.1 hw)
        exact Or.inr ⟨x, by simp, Relation.ReflTransGen.head hedge hwz⟩
      · exact Or.inr ⟨w, List.mem_cons_of_mem _ hw, hwz⟩

/-- When the ends of the edges of what is seen are seen or on the stack, the walk is closed
under edges. -/
theorem walk_closed (h : ∀ z ∈ seen, ∀ w ∈ targets edges z, w ∈ seen ∨ w ∈ stack) :
    ∀ z ∈ walk edges seen stack, ∀ w ∈ targets edges z, w ∈ walk edges seen stack := by
  induction seen, stack using walk_induction edges with
  | hnil seen =>
    rw [walk_nil]
    intro z hz w hw
    simpa using h z hz w hw
  | hseen seen x stack hx ih =>
    rw [walk_seen hx]
    refine ih fun z hz w hw => ?_
    rcases h z hz w hw with hw | hw
    · exact Or.inl hw
    · rcases List.mem_cons.1 hw with rfl | hw
      · exact Or.inl hx
      · exact Or.inr hw
  | hnew seen x stack hx ih =>
    rw [walk_new hx]
    refine ih fun z hz w hw => ?_
    rcases List.mem_append.1 hz with hz | hz
    · rcases h z hz w hw with hw | hw
      · exact Or.inl (List.mem_append_left _ hw)
      · rcases List.mem_cons.1 hw with rfl | hw
        · exact Or.inl (by simp)
        · exact Or.inr (List.mem_append_right _ hw)
    · rw [List.mem_singleton.1 hz] at hw
      exact Or.inr (List.mem_append_left _ (List.mem_reverse.2 hw))

/-- **A walk sees what can be reached** from where it starts, and nothing else. The order in which
it sees the nodes is that of the source. -/
theorem mem_walk : y ∈ walk edges [] [a] ↔ Reach edges a y := by
  constructor
  · intro hy
    rcases walk_sound y hy with hy | ⟨w, hw, hwy⟩
    · simp at hy
    · rwa [List.mem_singleton.1 hw] at hwy
  · intro hy
    induction hy with
    | refl => exact stack_subset_walk a (by simp)
    | tail _ hedge ih =>
      exact walk_closed (by simp) _ ih _ (mem_targets.2 hedge)

theorem search_eq_mem (h : goal ∉ seen) :
    search edges goal seen stack = true ↔ goal ∈ walk edges seen stack := by
  induction seen, stack using walk_induction edges with
  | hnil seen => simp [search_nil, walk_nil, h]
  | hseen seen x stack hx ih =>
    have hne : x ≠ goal := by rintro rfl; exact h hx
    rw [search_seen hne hx, walk_seen hx, ih h]
  | hnew seen x stack hx ih =>
    by_cases hgoal : x = goal
    · rw [hgoal, search_goal]
      exact ⟨fun _ => stack_subset_walk goal (by simp), fun _ => rfl⟩
    · rw [search_new hgoal hx, walk_new hx, ih]
      simp [h, Ne.symm hgoal]

/-- **A search finds what can be reached**, although it stops at the first occurrence of its
goal. -/
theorem search_iff : search edges goal [] [a] = true ↔ Reach edges a goal := by
  rw [search_eq_mem (by simp), mem_walk]

end Walk
