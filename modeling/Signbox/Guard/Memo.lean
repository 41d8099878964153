import Mathlib.Data.List.Nodup
import Mathlib.Data.List.Perm.Subperm
import Mathlib.Data.Set.Finite.List
import Mathlib.Logic.Relation
import Mathlib.Order.WellFounded

/-!
# Memoised evaluation of a graph

Every node of a graph is defined by what it reads and by what it makes of it. The evaluation goes
down from a node, keeps each value it has found, and stops where a node is met within its own
evaluation.

* `Yields`: the value the definitions give a node. A node that depends on itself has none.
* `visit_spec`: with a turn for each node and one more the evaluation ends, and where the
  definitions give a value it returns that one, whatever was evaluated before.
-/

namespace Memo

universe u

/-- A graph of definitions. An input that nothing is connected to reads as `missing`. -/
structure Graph (ν : Type*) (κ V : Type u) (ε : Type*) where
  key : ν → κ
  inputs : ν → List (Option ν)
  apply : ν → List V → Except ε V
  missing : V

variable {ν ε : Type*} {κ V : Type u}

/-- The inputs, one after another; each may add to the memo. -/
def gather (missing : V) (f : List (κ × V) → ν → Except ε (V × List (κ × V))) :
    List (κ × V) → List (Option ν) → Except ε (List V × List (κ × V))
  | memo, [] => .ok ([], memo)
  | memo, none :: inputs => do
    let (vs, memo) ← gather missing f memo inputs
    return (missing :: vs, memo)
  | memo, some n :: inputs => do
    let (v, memo) ← f memo n
    let (vs, memo) ← gather missing f memo inputs
    return (v :: vs, memo)

variable [DecidableEq κ]

/-- The value of a node, with a bound on the depth. `seen` are the nodes under evaluation. -/
def visit (G : Graph ν κ V ε) :
    ℕ → List κ → List (κ × V) → ν → Except ε (V × List (κ × V))
  | 0, _, memo, _ => .ok (G.missing, memo)
  | fuel + 1, seen, memo, n =>
    match memo.lookup (G.key n) with
    | some v => .ok (v, memo)
    | none =>
      if G.key n ∈ seen then .ok (G.missing, memo)
      else do
        let (vs, memo) ← gather G.missing (visit G fuel (G.key n :: seen)) memo (G.inputs n)
        let v ← G.apply n vs
        return (v, (G.key n, v) :: memo)

variable {G : Graph ν κ V ε}

/-! ## What the definitions give -/

omit [DecidableEq κ] in
mutual
/-- The value of a node. -/
inductive Yields (G : Graph ν κ V ε) : ν → V → Prop where
  | node {n : ν} {vs : List V} {v : V} (h : YieldsAll G (G.inputs n) vs)
      (happly : G.apply n vs = .ok v) : Yields G n v

/-- The values of a list of inputs. -/
inductive YieldsAll (G : Graph ν κ V ε) : List (Option ν) → List V → Prop where
  | nil : YieldsAll G [] []
  | unconnected {os : List (Option ν)} {vs : List V} (h : YieldsAll G os vs) :
      YieldsAll G (none :: os) (G.missing :: vs)
  | connected {n : ν} {v : V} {os : List (Option ν)} {vs : List V} (hn : Yields G n v)
      (h : YieldsAll G os vs) : YieldsAll G (some n :: os) (v :: vs)
end

omit [DecidableEq κ] in
mutual
/-- **A node has one value**, since a value is derived from the values of what the node reads, and
these are unique by induction on the derivation. -/
theorem Yields.unique {n : ν} : ∀ {v w : V}, Yields G n v → Yields G n w → v = w
  | _, _, .node h happly, .node h' happly' => by
    rw [YieldsAll.unique h h', happly'] at happly
    exact (Except.ok.inj happly).symm

theorem YieldsAll.unique : ∀ {os : List (Option ν)} {vs ws : List V}, YieldsAll G os vs →
    YieldsAll G os ws → vs = ws
  | _, _, _, .nil, .nil => rfl
  | _, _, _, .unconnected h, .unconnected h' => by rw [YieldsAll.unique h h']
  | _, _, _, .connected hn h, .connected hn' h' => by
    rw [Yields.unique hn hn', YieldsAll.unique h h']
end

/-- A node reads another. -/
def Reads (G : Graph ν κ V ε) (n m : ν) : Prop := some m ∈ G.inputs n

omit [DecidableEq κ] in
mutual
theorem Yields.acc : ∀ {n : ν} {v : V}, Yields G n v → Acc (fun m n => Reads G n m) n
  | _, _, .node h _ => Acc.intro _ fun m hm => YieldsAll.acc h m hm

theorem YieldsAll.acc : ∀ {os : List (Option ν)} {vs : List V}, YieldsAll G os vs →
    ∀ m, some m ∈ os → Acc (fun m n => Reads G n m) m
  | _, _, .nil, m, hm => absurd hm List.not_mem_nil
  | _, _, .unconnected h, m, hm => YieldsAll.acc h m (by simpa using hm)
  | _, _, .connected hn h, m, hm => by
    rcases List.mem_cons.1 hm with heq | hm
    · rw [Option.some.inj heq]
      exact hn.acc
    · exact YieldsAll.acc h m hm
end

omit [DecidableEq κ] in
/-- A node that has a value does not depend on itself. -/
theorem Yields.acyclic {n : ν} {v : V} (h : Yields G n v) :
    ¬ Relation.TransGen (Reads G) n n := by
  have hacc := h.acc
  clear h
  induction hacc with
  | intro n _ ih =>
    intro hcycle
    -- the node that is read first lies on the same cycle
    obtain ⟨m, hm, hback⟩ := Relation.TransGen.head'_iff.1 hcycle
    exact ih m hm (Relation.TransGen.tail' hback hm)

/-! ## The evaluation -/

variable {P : V → Prop} {dom : List ν} {memo : List (κ × V)} {seen : List κ}

/-- A set of nodes that reads only itself, without two nodes for a key, whose definitions make a
value with `P` of values with `P`. -/
structure Domain (G : Graph ν κ V ε) (P : V → Prop) (dom : List ν) : Prop where
  inputs : ∀ n ∈ dom, ∀ m, Reads G n m → m ∈ dom
  inj : ∀ n ∈ dom, ∀ m ∈ dom, G.key n = G.key m → n = m
  missing : P G.missing
  total : ∀ n ∈ dom, ∀ vs, (∀ v ∈ vs, P v) → ∃ v, G.apply n vs = .ok v ∧ P v

/-- A value that may be found for a node: the one the definitions give, if they give one. -/
def Fits (G : Graph ν κ V ε) (P : V → Prop) (n : ν) (v : V) : Prop :=
  P v ∧ ∀ w, Yields G n w → v = w

/-- What is kept fits. -/
def Consistent (G : Graph ν κ V ε) (P : V → Prop) (dom : List ν) (memo : List (κ × V)) : Prop :=
  ∀ n ∈ dom, ∀ v, memo.lookup (G.key n) = some v → Fits G P n v

omit [DecidableEq κ] in
theorem YieldsAll.mem {m : ν} : ∀ {os : List (Option ν)} {vs : List V}, YieldsAll G os vs →
    some m ∈ os → ∃ v ∈ vs, Yields G m v
  | _, _, .nil, hm => absurd hm List.not_mem_nil
  | _, _, .unconnected h, hm => by
    obtain ⟨v, hv, hmv⟩ := YieldsAll.mem h (by simpa using hm)
    exact ⟨v, List.mem_cons_of_mem _ hv, hmv⟩
  | _, _, .connected hn h, hm => by
    rcases List.mem_cons.1 hm with heq | hm
    · rw [Option.some.inj heq]
      exact ⟨_, List.mem_cons_self, hn⟩
    · obtain ⟨v, hv, hmv⟩ := YieldsAll.mem h hm
      exact ⟨v, List.mem_cons_of_mem _ hv, hmv⟩

omit [DecidableEq κ] in
/-- Nodes that all have one value. -/
theorem yieldsAll_replicate {ms : List ν} {v : V} (h : ∀ m ∈ ms, Yields G m v) :
    YieldsAll G (ms.map some) (List.replicate ms.length v) := by
  induction ms with
  | nil => exact .nil
  | cons m ms ih =>
    rw [List.forall_mem_cons] at h
    exact .connected h.1 (ih h.2)

omit [DecidableEq κ] in
/-- A node has a value when what it reads has. -/
theorem Domain.yields {n : ν} (hdom : Domain G P dom) (hn : n ∈ dom)
    (h : ∀ m, Reads G n m → ∃ v, Yields G m v ∧ P v) : ∃ v, Yields G n v ∧ P v := by
  have hall : ∀ os : List (Option ν), (∀ m, some m ∈ os → ∃ v, Yields G m v ∧ P v) →
      ∃ vs, YieldsAll G os vs ∧ ∀ v ∈ vs, P v := by
    intro os hos
    induction os with
    | nil => exact ⟨[], .nil, by simp⟩
    | cons o os ih =>
      obtain ⟨vs, hvs, hP⟩ := ih fun m hm => hos m (List.mem_cons_of_mem _ hm)
      cases o with
      | none => exact ⟨_, .unconnected hvs, List.forall_mem_cons.2 ⟨hdom.missing, hP⟩⟩
      | some m =>
        obtain ⟨v, hv, hvP⟩ := hos m List.mem_cons_self
        exact ⟨_, .connected hv hvs, List.forall_mem_cons.2 ⟨hvP, hP⟩⟩
  obtain ⟨vs, hvs, hP⟩ := hall _ h
  obtain ⟨v, happly, hv⟩ := hdom.total n hn vs hP
  exact ⟨v, .node hvs happly, hv⟩

omit [DecidableEq κ] in
/-- **Without a cycle every node has a value.** The nodes of a finite domain are well-founded under
reading when none reads itself, and the value of each is computed from those below it. -/
theorem Domain.yields_of_acyclic (hdom : Domain G P dom)
    (hacyclic : ∀ n ∈ dom, ¬ Relation.TransGen (Reads G) n n) {n : ν} (hn : n ∈ dom) :
    ∃ v, Yields G n v ∧ P v := by
  -- on the nodes of the set, being read, directly or not, is a well-founded order
  let r : {n // n ∈ dom} → {n // n ∈ dom} → Prop := fun m n => Relation.TransGen (Reads G) n.1 m.1
  have htrans : IsTrans {n // n ∈ dom} r := ⟨fun _ _ _ h h' => h'.trans h⟩
  have hirrefl : Std.Irrefl r := ⟨fun n h => hacyclic n.1 n.2 h⟩
  have hfinite : Finite {n // n ∈ dom} := dom.finite_toSet.to_subtype
  have hwf : WellFounded r := Finite.wellFounded_of_trans_of_irrefl r
  have hall : ∀ n : {n // n ∈ dom}, ∃ v, Yields G n.1 v ∧ P v := by
    intro n
    induction n using hwf.induction with
    | _ n ih =>
      refine hdom.yields n.2 fun m hm => ?_
      exact ih ⟨m, hdom.inputs n.1 n.2 m hm⟩ (.single hm)
  exact hall ⟨n, hn⟩

/-- The nodes under evaluation are different nodes, and each of them depends on `n`. -/
structure Active (G : Graph ν κ V ε) (dom : List ν) (seen : List κ) (n : ν) : Prop where
  nodup : seen.Nodup
  above : ∀ k ∈ seen, ∃ m ∈ dom, G.key m = k ∧ Relation.TransGen (Reads G) m n

theorem consistent_nil : Consistent G P dom [] := by
  intro n _ v h
  cases h

theorem Consistent.cons {n : ν} {v : V} (hdom : Domain G P dom) (h : Consistent G P dom memo)
    (hn : n ∈ dom) (hv : Fits G P n v) : Consistent G P dom ((G.key n, v) :: memo) := by
  intro m hm w hw
  rw [List.lookup_cons] at hw
  by_cases hkey : G.key m = G.key n
  · rw [hkey, BEq.rfl] at hw
    rw [hdom.inj m hm n hn hkey, ← Option.some.inj hw]
    exact hv
  · have hne : (G.key m == G.key n) = false := by simpa using hkey
    rw [hne] at hw
    exact h m hm w hw

omit [DecidableEq κ] in
theorem active_nil {n : ν} : Active G dom [] n := ⟨List.nodup_nil, by simp⟩

omit [DecidableEq κ] in
/-- Below a node, the node is under evaluation too. -/
theorem Active.below {n m : ν} (h : Active G dom seen n) (hn : n ∈ dom) (hnew : G.key n ∉ seen)
    (hm : Reads G n m) : Active G dom (G.key n :: seen) m where
  nodup := List.nodup_cons.2 ⟨hnew, h.nodup⟩
  above := by
    intro k hk
    rcases List.mem_cons.1 hk with rfl | hk
    · exact ⟨n, hn, rfl, .single hm⟩
    · obtain ⟨a, ha, hkey, hpath⟩ := h.above k hk
      exact ⟨a, ha, hkey, hpath.tail hm⟩

omit [DecidableEq κ] in
/-- There is a turn left. -/
theorem Active.turns {n : ν} {fuel : ℕ} (h : Active G dom seen n)
    (hfuel : dom.length + 1 ≤ fuel + seen.length) : 0 < fuel := by
  have hsub : seen ⊆ dom.map G.key := by
    intro k hk
    obtain ⟨m, hm, rfl, -⟩ := h.above k hk
    exact List.mem_map_of_mem hm
  have hle : seen.length ≤ (dom.map G.key).length := (h.nodup.subperm hsub).length_le
  rw [List.length_map] at hle
  omega

omit [DecidableEq κ] in
/-- A node that is met within its own evaluation has no value. -/
theorem Active.cyclic {n : ν} {v : V} (hdom : Domain G P dom) (h : Active G dom seen n)
    (hn : n ∈ dom) (hseen : G.key n ∈ seen) : ¬ Yields G n v := by
  obtain ⟨m, hm, hkey, hpath⟩ := h.above _ hseen
  rw [hdom.inj m hm n hn hkey] at hpath
  exact fun hv => hv.acyclic hpath

/-- The inputs, where each is evaluated as it should be. -/
theorem gather_spec {f : List (κ × V) → ν → Except ε (V × List (κ × V))} (hmissing : P G.missing) :
    ∀ {os : List (Option ν)} {memo : List (κ × V)},
    (∀ m, some m ∈ os → ∀ memo, Consistent G P dom memo →
      ∃ v memo', f memo m = .ok (v, memo') ∧ Fits G P m v ∧ Consistent G P dom memo') →
    Consistent G P dom memo →
    ∃ vs memo', gather G.missing f memo os = .ok (vs, memo') ∧ (∀ v ∈ vs, P v) ∧
      (∀ ws, YieldsAll G os ws → vs = ws) ∧ Consistent G P dom memo'
  | [], memo, _, hmemo => by
    refine ⟨[], memo, rfl, by simp, ?_, hmemo⟩
    intro ws hws
    cases hws
    rfl
  | none :: os, memo, hf, hmemo => by
    obtain ⟨vs, memo', hgather, hvs, hall, hmemo'⟩ :=
      gather_spec hmissing (fun m hm => hf m (List.mem_cons_of_mem _ hm)) hmemo
    refine ⟨G.missing :: vs, memo', ?_, ?_, ?_, hmemo'⟩
    · simp only [gather, hgather, bind, Except.bind, pure, Except.pure]
    · exact List.forall_mem_cons.2 ⟨hmissing, hvs⟩
    · intro ws hws
      cases hws with
      | unconnected h => rw [hall _ h]
  | some n :: os, memo, hf, hmemo => by
    obtain ⟨v, memo₁, hv, hfits, hmemo₁⟩ := hf n List.mem_cons_self memo hmemo
    obtain ⟨vs, memo₂, hgather, hvs, hall, hmemo₂⟩ :=
      gather_spec hmissing (fun m hm => hf m (List.mem_cons_of_mem _ hm)) hmemo₁
    refine ⟨v :: vs, memo₂, ?_, ?_, ?_, hmemo₂⟩
    · simp only [gather, hv, hgather, bind, Except.bind, pure, Except.pure]
    · exact List.forall_mem_cons.2 ⟨hfits.1, hvs⟩
    · intro ws hws
      cases hws with
      | connected hn h => rw [hall _ h, hfits.2 _ hn]

/-- **The evaluation of a node**, whatever was evaluated before. It always answers, with a value
that fits what is being evaluated, and it leaves a memo that holds only values of nodes. The fuel
counts the nodes that are not active yet. -/
theorem visit_spec (hdom : Domain G P dom) {fuel : ℕ} : ∀ {n : ν} {seen : List κ}
    {memo : List (κ × V)}, n ∈ dom → Active G dom seen n →
    dom.length + 1 ≤ fuel + seen.length → Consistent G P dom memo →
    ∃ v memo', visit G fuel seen memo n = .ok (v, memo') ∧ Fits G P n v ∧
      Consistent G P dom memo' := by
  induction fuel with
  | zero =>
    intro n seen memo _ hactive hfuel _
    exact absurd (hactive.turns hfuel) (Nat.lt_irrefl 0)
  | succ fuel ih =>
    intro n seen memo hn hactive hfuel hmemo
    unfold visit
    cases hlook : memo.lookup (G.key n) with
    | some v => exact ⟨v, memo, rfl, hmemo n hn v hlook, hmemo⟩
    | none =>
      by_cases hseen : G.key n ∈ seen
      · refine ⟨G.missing, memo, by simp only [if_pos hseen], ⟨hdom.missing, ?_⟩, hmemo⟩
        intro w hw
        exact absurd hw (hactive.cyclic hdom hn hseen)
      · have hinput : ∀ m, some m ∈ G.inputs n → ∀ memo, Consistent G P dom memo →
            ∃ v memo', visit G fuel (G.key n :: seen) memo m = .ok (v, memo') ∧ Fits G P m v ∧
              Consistent G P dom memo' := by
          intro m hm memo hmemo
          have hturns : dom.length + 1 ≤ fuel + (G.key n :: seen).length := by
            rw [List.length_cons]
            omega
          exact ih (hdom.inputs n hn m hm) (hactive.below hn hseen hm) hturns hmemo
        obtain ⟨vs, memo', hgather, hvs, hall, hmemo'⟩ := gather_spec hdom.missing hinput hmemo
        obtain ⟨v, happly, hv⟩ := hdom.total n hn vs hvs
        have hfits : Fits G P n v := by
          refine ⟨hv, fun w hw => ?_⟩
          cases hw with
          | node h happly' =>
            rw [hall _ h, happly'] at happly
            exact (Except.ok.inj happly).symm
        refine ⟨v, _, ?_, hfits, hmemo'.cons hdom hn hfits⟩
        simp only [if_neg hseen, hgather, bind, Except.bind, happly, pure, Except.pure]

end Memo
