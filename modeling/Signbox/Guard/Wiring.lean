import Mathlib.Data.List.Nodup
import Mathlib.Data.List.Pairwise
import Mathlib.Order.Nat

/-!
# Wired graphs

Nodes with ids and kinds, and wires between their ports. A wire joins two different nodes whose
kinds fit its ports, and two wires into one input are the same, unless the input joins several.

* `Piece`: a part of such a graph, with the nodes it adds and the wires that come with them.
* `Piece.append`: parts that are added one after the other are a part.
* `Wired`: a whole graph; `connect`, `disconnect` and `remove`: what keeps it.
-/

namespace Wiring

/-- How wires meet the kinds of the nodes: the ids a wire leads from and to, the input it leads
to, the kinds whose ports it fits, and the inputs that join several wires. -/
structure Signature (K W P : Type*) where
  source : W → ℕ
  target : W → ℕ
  port : W → P
  fits : K → K → W → Prop
  multi : K → P → Prop

variable {K W P : Type*} (S : Signature K W P)

/-- The wire joins two different nodes. -/
def Joins (nodes : List (ℕ × K)) (w : W) : Prop :=
  S.source w ≠ S.target w ∧
    ∃ a ∈ nodes, ∃ b ∈ nodes, a.1 = S.source w ∧ b.1 = S.target w ∧ S.fits a.2 b.2 w

/-- The wire leads to an input that joins several. -/
def Multi (nodes : List (ℕ × K)) (w : W) : Prop :=
  ∃ b ∈ nodes, b.1 = S.target w ∧ S.multi b.2 (S.port w)

/-- The wires lead to the same input. -/
def Meets (w w' : W) : Prop := S.target w = S.target w' ∧ S.port w = S.port w'

/-- Nodes with ids from `lo` to `hi`, added to others, and the wires that come with them. -/
structure Piece (base nodes : List (ℕ × K)) (wires : List W) (lo hi : ℕ) : Prop where
  le : lo ≤ hi
  distinct : (nodes.map Prod.fst).Nodup
  range : ∀ n ∈ nodes, lo ≤ n.1 ∧ n.1 < hi
  joins : ∀ w ∈ wires, Joins S (base ++ nodes) w
  upper : ∀ w ∈ wires, S.source w < hi ∧ S.target w < hi
  touches : ∀ w ∈ wires, lo ≤ S.target w ∨ lo ≤ S.source w ∧ Multi S (base ++ nodes) w
  nodup : wires.Nodup
  alone : ∀ w ∈ wires, ∀ w' ∈ wires, Meets S w w' → w = w' ∨ Multi S (base ++ nodes) w

/-- A whole graph, whose ids are below `next`. -/
abbrev Wired (nodes : List (ℕ × K)) (wires : List W) (next : ℕ) : Prop :=
  Piece S [] nodes wires 0 next

instance [∀ a b w, Decidable (S.fits a b w)] (nodes : List (ℕ × K)) (w : W) :
    Decidable (Joins S nodes w) :=
  inferInstanceAs (Decidable (_ ∧ ∃ _ ∈ nodes, ∃ _ ∈ nodes, _))

instance [∀ b p, Decidable (S.multi b p)] (nodes : List (ℕ × K)) (w : W) :
    Decidable (Multi S nodes w) :=
  inferInstanceAs (Decidable (∃ _ ∈ nodes, _))

instance [DecidableEq P] (w w' : W) : Decidable (Meets S w w') :=
  inferInstanceAs (Decidable (_ ∧ _))

variable {S} {base nodes nodes' : List (ℕ × K)} {wires wires' : List W} {lo mid hi : ℕ}
variable {w w' : W}

theorem Joins.mono (h : Joins S nodes w) (hsub : nodes ⊆ nodes') : Joins S nodes' w := by
  obtain ⟨hne, a, ha, b, hb, hfits⟩ := h
  exact ⟨hne, a, hsub ha, b, hsub hb, hfits⟩

theorem Multi.mono (h : Multi S nodes w) (hsub : nodes ⊆ nodes') : Multi S nodes' w := by
  obtain ⟨b, hb, hmulti⟩ := h
  exact ⟨b, hsub hb, hmulti⟩

theorem Multi.meets (h : Multi S nodes w) (hmeets : Meets S w w') : Multi S nodes w' := by
  obtain ⟨b, hb, htarget, hmulti⟩ := h
  exact ⟨b, hb, htarget.trans hmeets.1, hmeets.2 ▸ hmulti⟩

/-! ## Adding -/

theorem Piece.nil : Piece S base [] [] lo lo where
  le := le_rfl
  distinct := List.nodup_nil
  range := by simp
  joins := by simp
  upper := by simp
  touches := by simp
  nodup := List.nodup_nil
  alone := by simp

/-- A node that is not wired. -/
theorem Piece.node (kind : K) : Piece S base [(lo, kind)] [] lo (lo + 1) where
  le := Nat.le_succ lo
  distinct := List.nodup_singleton _
  range := by simp
  joins := by simp
  upper := by simp
  touches := by simp
  nodup := List.nodup_nil
  alone := by simp

/-- A node with a wire into it. -/
theorem Piece.wired {kind : K} (hjoins : Joins S (base ++ [(lo, kind)]) w) (hsource : S.source w < lo)
    (htarget : S.target w = lo) : Piece S base [(lo, kind)] [w] lo (lo + 1) where
  le := Nat.le_succ lo
  distinct := List.nodup_singleton _
  range := by simp
  joins := by simpa using hjoins
  upper := by
    intro w' hw'
    rw [List.mem_singleton.1 hw', htarget]
    exact ⟨Nat.lt_succ_of_lt hsource, Nat.lt_succ_self lo⟩
  touches := by
    intro w' hw'
    rw [List.mem_singleton.1 hw', htarget]
    exact Or.inl le_rfl
  nodup := List.nodup_singleton _
  alone := by
    intro w₁ h₁ w₂ h₂ _
    rw [List.mem_singleton.1 h₁, List.mem_singleton.1 h₂]
    exact Or.inl rfl

/-- A wire that a piece does not have, from or into one of its nodes. -/
theorem Piece.link (h : Piece S base nodes wires lo hi) (hjoins : Joins S (base ++ nodes) w)
    (hupper : S.source w < hi ∧ S.target w < hi)
    (htouches : lo ≤ S.target w ∨ lo ≤ S.source w ∧ Multi S (base ++ nodes) w) (hnew : w ∉ wires)
    (halone : ∀ w' ∈ wires, Meets S w' w → Multi S (base ++ nodes) w) :
    Piece S base nodes (wires ++ [w]) lo hi where
  le := h.le
  distinct := h.distinct
  range := h.range
  joins := by
    intro w' hw'
    rcases List.mem_append.1 hw' with hw' | hw'
    · exact h.joins w' hw'
    · exact List.mem_singleton.1 hw' ▸ hjoins
  upper := by
    intro w' hw'
    rcases List.mem_append.1 hw' with hw' | hw'
    · exact h.upper w' hw'
    · exact List.mem_singleton.1 hw' ▸ hupper
  touches := by
    intro w' hw'
    rcases List.mem_append.1 hw' with hw' | hw'
    · exact h.touches w' hw'
    · exact List.mem_singleton.1 hw' ▸ htouches
  nodup := by
    rw [← List.concat_eq_append]
    exact h.nodup.concat hnew
  alone := by
    intro w₁ h₁ w₂ h₂ hmeets
    rcases List.mem_append.1 h₁ with h₁ | h₁
    · rcases List.mem_append.1 h₂ with h₂ | h₂
      · exact h.alone w₁ h₁ w₂ h₂ hmeets
      · have heq : w₂ = w := List.mem_singleton.1 h₂
        rw [heq] at hmeets
        exact Or.inr ((halone w₁ h₁ hmeets).meets ⟨hmeets.1.symm, hmeets.2.symm⟩)
    · have heq : w₁ = w := List.mem_singleton.1 h₁
      rw [heq] at hmeets ⊢
      rcases List.mem_append.1 h₂ with h₂ | h₂
      · exact Or.inr (halone w₂ h₂ ⟨hmeets.1.symm, hmeets.2.symm⟩)
      · exact Or.inl (List.mem_singleton.1 h₂).symm

/-- Wires into inputs that join several, all from or into nodes of the piece. -/
theorem Piece.links {ws : List W} (h : Piece S base nodes wires lo hi)
    (hjoins : ∀ w ∈ ws, Joins S (base ++ nodes) w)
    (hupper : ∀ w ∈ ws, S.source w < hi ∧ S.target w < hi) (hlo : ∀ w ∈ ws, lo ≤ S.target w)
    (hmulti : ∀ w ∈ ws, Multi S (base ++ nodes) w) (hnew : (wires ++ ws).Nodup) :
    Piece S base nodes (wires ++ ws) lo hi := by
  induction ws generalizing wires with
  | nil => simpa using h
  | cons w ws ih =>
    rw [List.forall_mem_cons] at hjoins hupper hlo hmulti
    have hsplit : wires ++ w :: ws = wires ++ [w] ++ ws := by simp
    have hfresh : w ∉ wires := by
      intro hmem
      exact (List.nodup_append.1 hnew).2.2 w hmem w List.mem_cons_self rfl
    rw [hsplit] at hnew ⊢
    exact ih (h.link hjoins.1 hupper.1 (Or.inl hlo.1) hfresh fun _ _ _ => hmulti.1) hjoins.2
      hupper.2 hlo.2 hmulti.2 hnew

/-- **Pieces one after the other.** The second is built over the nodes of the first. The ids keep
their wires apart: each piece wires only into its own band of ids. -/
theorem Piece.append (h : Piece S base nodes wires lo mid)
    (h' : Piece S (base ++ nodes) nodes' wires' mid hi) :
    Piece S base (nodes ++ nodes') (wires ++ wires') lo hi := by
  have hle : lo ≤ mid := h.le
  have hle' : mid ≤ hi := h'.le
  have hsub : base ++ nodes ⊆ base ++ (nodes ++ nodes') := by
    rw [← List.append_assoc]
    exact List.subset_append_left _ _
  have hsub' : base ++ nodes ++ nodes' ⊆ base ++ (nodes ++ nodes') := by
    rw [List.append_assoc]
    exact List.Subset.refl _
  -- a wire of the second piece is not one of the first, and meets none on an input of its own
  have hapart : ∀ w ∈ wires, ∀ w' ∈ wires', w ≠ w' ∧ (Meets S w w' →
      Multi S (base ++ (nodes ++ nodes')) w') := by
    intro w hw w' hw'
    have hup := h.upper w hw
    rcases h'.touches w' hw' with htarget | ⟨hsource, hmulti⟩
    · refine ⟨fun heq => ?_, fun hmeets => ?_⟩
      · rw [heq] at hup
        omega
      · have heq : S.target w = S.target w' := hmeets.1
        omega
    · refine ⟨fun heq => ?_, fun _ => hmulti.mono hsub'⟩
      rw [heq] at hup
      omega
  refine ⟨hle.trans hle', ?_, ?_, ?_, ?_, ?_, ?_, ?_⟩
  · rw [List.map_append]
    refine h.distinct.append h'.distinct ?_
    intro i hi hi'
    obtain ⟨n, hn, rfl⟩ := List.mem_map.1 hi
    obtain ⟨n', hn', heq⟩ := List.mem_map.1 hi'
    have hlt := h.range n hn
    have hge := h'.range n' hn'
    omega
  · intro n hn
    rcases List.mem_append.1 hn with hn | hn
    · have hrange := h.range n hn
      omega
    · have hrange := h'.range n hn
      omega
  · intro w hw
    rcases List.mem_append.1 hw with hw | hw
    · exact (h.joins w hw).mono hsub
    · exact (h'.joins w hw).mono hsub'
  · intro w hw
    rcases List.mem_append.1 hw with hw | hw
    · have hup := h.upper w hw
      omega
    · exact h'.upper w hw
  · intro w hw
    rcases List.mem_append.1 hw with hw | hw
    · exact (h.touches w hw).imp_right fun ht => ⟨ht.1, ht.2.mono hsub⟩
    · exact (h'.touches w hw).imp (fun ht => hle.trans ht)
        fun ht => ⟨hle.trans ht.1, ht.2.mono hsub'⟩
  · exact h.nodup.append h'.nodup fun w hw hw' => (hapart w hw w hw').1 rfl
  · intro w hw w' hw' hmeets
    have hmeets' : Meets S w' w := ⟨hmeets.1.symm, hmeets.2.symm⟩
    rcases List.mem_append.1 hw with hw | hw
    · rcases List.mem_append.1 hw' with hw' | hw'
      · exact (h.alone w hw w' hw' hmeets).imp_right fun hm => hm.mono hsub
      · exact Or.inr (((hapart w hw w' hw').2 hmeets).meets hmeets')
    · rcases List.mem_append.1 hw' with hw' | hw'
      · exact Or.inr ((hapart w' hw' w hw).2 hmeets')
      · exact (h'.alone w hw w' hw' hmeets).imp_right fun hm => hm.mono hsub'

/-! ## A whole graph -/

/-- Nodes without wires. -/
theorem Wired.unwired (hnodup : (nodes.map Prod.fst).Nodup) (hlt : ∀ n ∈ nodes, n.1 < hi) :
    Wired S nodes [] hi where
  le := Nat.zero_le hi
  distinct := hnodup
  range := fun n hn => ⟨Nat.zero_le _, hlt n hn⟩
  joins := by simp
  upper := by simp
  touches := by simp
  nodup := List.nodup_nil
  alone := by simp

/-- A graph that is added to. -/
theorem Wired.append (h : Wired S nodes wires mid) (h' : Piece S nodes nodes' wires' mid hi) :
    Wired S (nodes ++ nodes') (wires ++ wires') hi := Piece.append h h'

/-- Fewer wires. -/
theorem Wired.disconnect (h : Wired S nodes wires hi) (hsub : wires'.Sublist wires) :
    Wired S nodes wires' hi where
  le := h.le
  distinct := h.distinct
  range := h.range
  joins := fun w hw => h.joins w (hsub.subset hw)
  upper := fun w hw => h.upper w (hsub.subset hw)
  touches := fun w hw => h.touches w (hsub.subset hw)
  nodup := h.nodup.sublist hsub
  alone := fun w hw w' hw' => h.alone w (hsub.subset hw) w' (hsub.subset hw')

theorem lt_of_mem {n : ℕ × K} (h : Wired S nodes wires hi) (hmem : n ∈ nodes) : n.1 < hi :=
  (h.range n hmem).2

/-- A wire more. -/
theorem Wired.connect (h : Wired S nodes wires hi) (hjoins : Joins S nodes w) (hnew : w ∉ wires)
    (halone : ∀ w' ∈ wires, Meets S w' w → Multi S nodes w) : Wired S nodes (wires ++ [w]) hi := by
  obtain ⟨-, a, ha, b, hb, hsource, htarget, -⟩ := id hjoins
  have hlt : S.source w < hi := hsource ▸ lt_of_mem h ha
  have hlt' : S.target w < hi := htarget ▸ lt_of_mem h hb
  exact h.link hjoins ⟨hlt, hlt'⟩ (Or.inl (Nat.zero_le _)) hnew halone

/-- Without a node, and without its wires. -/
theorem Wired.remove (h : Wired S nodes wires hi) (id : ℕ) :
    Wired S (nodes.filter fun n => n.1 ≠ id)
      (wires.filter fun w => S.source w ≠ id ∧ S.target w ≠ id) hi := by
  have hwires : ∀ w ∈ wires.filter fun w => S.source w ≠ id ∧ S.target w ≠ id,
      w ∈ wires ∧ S.source w ≠ id ∧ S.target w ≠ id := by
    intro w hw
    simpa using hw
  have hmulti : ∀ w, S.target w ≠ id → Multi S ([] ++ nodes) w →
      Multi S ([] ++ nodes.filter fun n => n.1 ≠ id) w := by
    rintro w htarget ⟨b, hb, heq, hport⟩
    have hne : b.1 ≠ id := heq ▸ htarget
    exact ⟨b, List.mem_filter.2 ⟨hb, by simpa using hne⟩, heq, hport⟩
  refine ⟨h.le, ?_, ?_, ?_, ?_, ?_, h.nodup.filter _, ?_⟩
  · exact h.distinct.sublist (List.filter_sublist.map _)
  · intro n hn
    exact h.range n (List.mem_of_mem_filter hn)
  · intro w hw
    obtain ⟨hmem, hsource, htarget⟩ := hwires w hw
    obtain ⟨hne, a, ha, b, hb, heq, heq', hfits⟩ := h.joins w hmem
    have hne₁ : a.1 ≠ id := heq ▸ hsource
    have hne₂ : b.1 ≠ id := heq' ▸ htarget
    exact ⟨hne, a, List.mem_filter.2 ⟨ha, by simpa using hne₁⟩, b,
      List.mem_filter.2 ⟨hb, by simpa using hne₂⟩, heq, heq', hfits⟩
  · intro w hw
    exact h.upper w (hwires w hw).1
  · intro w hw
    exact Or.inl (Nat.zero_le _)
  · intro w hw w' hw' hmeets
    obtain ⟨hmem, -, htarget⟩ := hwires w hw
    exact (h.alone w hmem w' (hwires w' hw').1 hmeets).imp_right (hmulti w htarget)

end Wiring
