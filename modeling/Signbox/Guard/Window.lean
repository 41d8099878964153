import Mathlib.Algebra.Order.BigOperators.Group.List
import Mathlib.Algebra.Order.Group.Basic
import Mathlib.Algebra.Order.Monoid.Canonical.Defs
import Mathlib.Tactic.Abel

/-!
# Sliding windows

A log of weighted events, newest first. An event is admitted when, together with all
events already in the log that are younger than the window, it fits under the cap. The
check looks at one trailing window, at one moment, and has no upper end, so it also counts
events stamped later than the new one.

* `Admitted.window`: then every window of that length, wherever it lies, holds at most the
  cap.
* `Admitted.sublist`: dropping events keeps the log admitted.
* `Admitted.apart`: under a cap of one event, any two events are a window apart.
-/

namespace Window

variable {T M : Type*}

section Total

variable [AddCommMonoid M]

/-- The weight of the events whose time satisfies `p`. -/
def total (p : T → Prop) [DecidablePred p] (l : List (T × M)) : M :=
  ((l.filter fun e => p e.1).map Prod.snd).sum

variable {p q : T → Prop} [DecidablePred p] [DecidablePred q]

@[simp] theorem total_nil : total p ([] : List (T × M)) = 0 := rfl

theorem total_cons (e : T × M) (l : List (T × M)) :
    total p (e :: l) = (if p e.1 then e.2 else 0) + total p l := by
  unfold total
  by_cases h : p e.1 <;> simp [h]

theorem total_append (l l' : List (T × M)) : total p (l ++ l') = total p l + total p l' := by
  induction l with
  | nil => simp
  | cons e l ih => rw [List.cons_append, total_cons, total_cons, ih, add_assoc]

theorem total_reverse (l : List (T × M)) : total p l.reverse = total p l := by
  induction l with
  | nil => rfl
  | cons e l ih =>
    rw [List.reverse_cons, total_append, ih, total_cons, total_cons, total_nil, add_zero, add_comm]

/-- Nothing that weighs something satisfies a condition under which nothing weighs. -/
theorem total_eq_zero {l : List (T × ℕ)} (h : total p l = 0) (hone : ∀ e ∈ l, e.2 = 1) :
    ∀ e ∈ l, ¬ p e.1 := by
  induction l with
  | nil => simp
  | cons e l ih =>
    rw [total_cons] at h
    obtain ⟨he, hl⟩ := Nat.add_eq_zero_iff.1 h
    refine List.forall_mem_cons.2 ⟨fun hp => ?_, ih hl fun y hy => hone y (by simp [hy])⟩
    rw [if_pos hp, hone e (by simp)] at he
    omega

variable [PartialOrder M] [IsOrderedAddMonoid M] [CanonicallyOrderedAdd M]

/-- A weaker condition counts no less. -/
theorem total_mono (h : ∀ t, p t → q t) (l : List (T × M)) : total p l ≤ total q l := by
  induction l with
  | nil => exact le_rfl
  | cons e l ih =>
    rw [total_cons, total_cons]
    refine add_le_add ?_ ih
    by_cases hp : p e.1
    · rw [if_pos hp, if_pos (h _ hp)]
    · rw [if_neg hp]
      exact zero_le

theorem total_sublist {l l' : List (T × M)} (h : l'.Sublist l) : total p l' ≤ total p l :=
  ((h.filter _).map _).sum_le_sum fun _ _ => zero_le

end Total

variable [AddCommGroup T] [LinearOrder T]
variable [AddCommMonoid M] [PartialOrder M] [IsOrderedAddMonoid M] [CanonicallyOrderedAdd M]
variable {W : T} {cap : M} {l l' : List (T × M)}

/-- Every event, when it was added, fitted under the cap with the events then younger than
the window. -/
def Admitted (W : T) (cap : M) : List (T × M) → Prop
  | [] => True
  | e :: l => total (e.1 - W < ·) l + e.2 ≤ cap ∧ Admitted W cap l

theorem Admitted.sublist (h : l'.Sublist l) (hl : Admitted W cap l) : Admitted W cap l' := by
  induction h with
  | slnil => exact hl
  | cons e _ ih => exact ih hl.2
  | cons_cons e hsub ih =>
    refine ⟨le_trans ?_ hl.1, ih hl.2⟩
    gcongr
    exact total_sublist hsub

/-- Under a cap of one event, a newer event is at least a window later than an older one. -/
theorem Admitted.apart {l : List (T × ℕ)} (hl : Admitted W 1 l) (hone : ∀ e ∈ l, e.2 = 1) :
    l.Pairwise fun e x => x.1 ≤ e.1 - W := by
  induction l with
  | nil => exact List.Pairwise.nil
  | cons e l ih =>
    have hrest : ∀ x ∈ l, x.2 = 1 := fun x hx => hone x (by simp [hx])
    refine List.pairwise_cons.2 ⟨fun x hx => ?_, ih hl.2 hrest⟩
    have hzero : total (e.1 - W < ·) l = 0 := by
      have := hl.1
      rw [hone e (by simp)] at this
      omega
    exact not_lt.1 (total_eq_zero hzero hrest x hx)

variable [IsOrderedAddMonoid T]

/-- **The sliding-window law.** In an admitted log, the events of any window `(a, a + W]`
weigh at most the cap: at the last of them that was added, the check saw all others. -/
theorem Admitted.window (hl : Admitted W cap l) (a : T) :
    total (fun t => a < t ∧ t ≤ a + W) l ≤ cap := by
  induction l with
  | nil => exact zero_le
  | cons e l ih =>
    rw [total_cons]
    by_cases hin : a < e.1 ∧ e.1 ≤ a + W
    · have hsee : ∀ t, (a < t ∧ t ≤ a + W) → e.1 - W < t := fun t ht =>
        lt_of_le_of_lt (sub_le_iff_le_add.2 hin.2) ht.1
      calc (if a < e.1 ∧ e.1 ≤ a + W then e.2 else 0) + total (fun t => a < t ∧ t ≤ a + W) l
          = total (fun t => a < t ∧ t ≤ a + W) l + e.2 := by rw [if_pos hin, add_comm]
        _ ≤ total (e.1 - W < ·) l + e.2 := by gcongr; exact total_mono hsee l
        _ ≤ cap := hl.1
    · rw [if_neg hin, zero_add]
      exact ih hl.2

end Window
