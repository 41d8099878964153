import Signbox.Guard.Wiring
import Signbox.Spec.Scaffold

/-!
# What decompiling and scaffolding add to a graph

Both add nodes with the ids that come next, and each node is wired when it is added, to nodes
that are there. So what they add is a piece of a wired graph, and none of it is a transaction or
a policy.

* `decompileDocument_part`: the graph of a document, after the transaction and the policy.
* `routeBranches_part`: the branches of the routes of a transaction.
-/

namespace Signbox

open Wiring

/-- A wire of such keys leads from an out port to an in port, of compatible types, as the editor
demands of a new wire. -/
def PortsFit (a b : NodeType) (fromKey toKey : JsString) : Prop :=
  ∃ out ∈ a.ports, ∃ inp ∈ b.ports, out.side = .output ∧ out.key = fromKey ∧ inp.side = .input ∧
    inp.key = toKey ∧ portsCompatible out.type b inp.key inp.type = true

instance (a b : NodeType) (fromKey toKey : JsString) : Decidable (PortsFit a b fromKey toKey) :=
  inferInstanceAs (Decidable (∃ _ ∈ _, ∃ _ ∈ _, _))

/-- The wires of an editor graph: where they lead from and to, which of them fit, and which ports
take several. -/
def editorWiring : Signature NodeType Wire JsString where
  source w := w.fromPort.node
  target w := w.toPort.node
  port w := w.toPort.key
  fits a b w := PortsFit a b w.fromPort.key w.toPort.key
  multi type key := isMultiInput type key = true

def kinds (nodes : List GraphNode) : List (ℕ × NodeType) := nodes.map fun n => (n.id, n.type)

variable {base : List (ℕ × NodeType)} {nodes nodes' : List GraphNode} {wires wires' : List Wire}
variable {id : ℕ} {k k' : JsString}

theorem kinds_append : kinds (nodes ++ nodes') = kinds nodes ++ kinds nodes' := List.map_append

theorem mem_kinds {n : GraphNode} (h : n ∈ nodes) : (n.id, n.type) ∈ kinds nodes :=
  List.mem_map_of_mem h

theorem joins_mkWire {a b : GraphNode} (ha : (a.id, a.type) ∈ base) (hb : (b.id, b.type) ∈ base)
    (hne : a.id ≠ b.id) (hfit : PortsFit a.type b.type k k') :
    Joins editorWiring base (mkWire a k b k') := ⟨hne, _, ha, _, hb, rfl, rfl, hfit⟩

/-- Nodes with the ids from `id` on, none of them single, and the wires that come with them. A part
can be added to a wired graph. -/
structure Part (base : List (ℕ × NodeType)) (nodes : List GraphNode) (wires : List Wire)
    (id : ℕ) : Prop where
  piece : Piece editorWiring base (kinds nodes) wires id (id + nodes.length)
  plural : ∀ n ∈ nodes, n.type.single = false

theorem Part.nil : Part base [] [] id := ⟨Piece.nil, by simp⟩

theorem Part.append (h : Part base nodes wires id)
    (h' : Part (base ++ kinds nodes) nodes' wires' (id + nodes.length)) :
    Part base (nodes ++ nodes') (wires ++ wires') id where
  piece := by
    rw [kinds_append, List.length_append, ← Nat.add_assoc]
    exact h.piece.append h'.piece
  plural := by
    intro n hn
    rcases List.mem_append.1 hn with hn | hn
    · exact h.plural n hn
    · exact h'.plural n hn

/-- A node that a node of the graph is wired to. -/
theorem Part.wired {src n : GraphNode} (hsrc : (src.id, src.type) ∈ base) (hlt : src.id < n.id)
    (hfit : PortsFit src.type n.type k k') (hplural : n.type.single = false) :
    Part base [n] [mkWire src k n k'] n.id where
  piece := by
    have hmem : (src.id, src.type) ∈ base ++ kinds [n] := List.mem_append_left _ hsrc
    have hmem' : (n.id, n.type) ∈ base ++ kinds [n] := by simp [kinds]
    exact Piece.wired (joins_mkWire hmem hmem' hlt.ne hfit) hlt rfl
  plural := by simpa using hplural

/-- Nodes of one type that a node of the graph is wired to. -/
theorem Part.fan {src : GraphNode} {type : NodeType} (hsrc : (src.id, src.type) ∈ base)
    (hlt : src.id < id) (hfit : PortsFit src.type type k k') (hplural : type.single = false)
    (hids : nodes.map GraphNode.id = List.range' id nodes.length)
    (htypes : ∀ n ∈ nodes, n.type = type) :
    Part base nodes (nodes.map fun n => mkWire src k n k') id := by
  induction nodes generalizing id base with
  | nil => exact Part.nil
  | cons n nodes ih =>
    rw [List.map_cons, List.length_cons, List.range'_succ, List.cons.injEq] at hids
    obtain ⟨rfl, hids⟩ := hids
    rw [List.forall_mem_cons] at htypes
    obtain ⟨htype, htypes⟩ := htypes
    have hfirst : Part base [n] [mkWire src k n k'] n.id :=
      Part.wired hsrc hlt (htype ▸ hfit) (htype ▸ hplural)
    exact hfirst.append
      (ih (List.mem_append_left _ hsrc) (Nat.lt_succ_of_lt hlt) hids htypes)

/-! ## Decisions -/

/-- A decision on a route, wired to the policy, with its conditions. -/
theorem Part.decision {rif pol dec : GraphNode} {joined : List GraphNode} {into : List Wire}
    (hdec : dec.type = .decision)
    (hpart : Part base (dec :: joined) into dec.id)
    (hinto : ∀ w ∈ into, w.toPort = ⟨dec.id, js "cond"⟩ ∨ w.toPort = ⟨dec.id + 1, js "in"⟩)
    (hrif : (rif.id, rif.type) ∈ base) (hriftype : rif.type = .routeif)
    (hpol : (pol.id, pol.type) ∈ base) (hpoltype : pol.type = .policy)
    (hrifid : rif.id < dec.id) (hpolid : pol.id < dec.id) :
    Part base (dec :: joined)
      (into ++ [mkWire rif (js "out") dec (js "tx"), mkWire dec (js "out") pol (js "in")])
      dec.id where
  plural := hpart.plural
  piece := by
    have hmem : (dec.id, dec.type) ∈ base ++ kinds (dec :: joined) := by simp [kinds]
    have hle : dec.id < dec.id + (dec :: joined).length := by simp
    have hfit : PortsFit rif.type dec.type (js "out") (js "tx") := by
      rw [hriftype, hdec]
      decide
    have hfit' : PortsFit dec.type pol.type (js "out") (js "in") := by
      rw [hdec, hpoltype]
      decide
    have hjoined : isMultiInput pol.type (js "in") = true := by
      rw [hpoltype]
      decide
    have hmulti : Multi editorWiring (base ++ kinds (dec :: joined))
        (mkWire dec (js "out") pol (js "in")) :=
      ⟨_, List.mem_append_left _ hpol, rfl, hjoined⟩
    have hkeys : js "tx" ≠ js "cond" := by decide
    have hroute : Piece editorWiring base (kinds (dec :: joined))
        (into ++ [mkWire rif (js "out") dec (js "tx")]) dec.id
        (dec.id + (dec :: joined).length) := by
      -- the wires into the decision so far end at its condition
      have hfree : ∀ w ∈ into, w.toPort ≠ ⟨dec.id, js "tx"⟩ := by
        intro w hw heq
        rcases hinto w hw with hport | hport
        · rw [heq, PortRef.mk.injEq] at hport
          exact hkeys hport.2
        · rw [heq, PortRef.mk.injEq] at hport
          omega
      refine hpart.piece.link ?_ ⟨hrifid.trans hle, hle⟩ (Or.inl le_rfl) ?_ ?_
      · exact joins_mkWire (List.mem_append_left _ hrif) hmem hrifid.ne hfit
      · intro hw
        exact hfree _ hw rfl
      · intro w hw hmeets
        have hport : w.toPort = ⟨dec.id, js "tx"⟩ := congrArg₂ PortRef.mk hmeets.1 hmeets.2
        exact absurd hport (hfree w hw)
    have hsplit : into ++ [mkWire rif (js "out") dec (js "tx"), mkWire dec (js "out") pol (js "in")] =
        into ++ [mkWire rif (js "out") dec (js "tx")] ++ [mkWire dec (js "out") pol (js "in")] := by
      simp
    rw [hsplit]
    refine hroute.link ?_ ⟨hle, hpolid.trans hle⟩ (Or.inr ⟨le_rfl, hmulti⟩) ?_ fun _ _ _ => hmulti
    · exact joins_mkWire hmem (List.mem_append_left _ hpol) hpolid.ne' hfit'
    · intro hw
      have htarget : ∀ w ∈ into ++ [mkWire rif (js "out") dec (js "tx")], dec.id ≤ w.toPort.node := by
        intro w hw
        rcases List.mem_append.1 hw with hw | hw
        · rcases hinto w hw with hport | hport <;> rw [hport]
          exact Nat.le_succ _
        · rw [List.mem_singleton.1 hw]
          exact le_rfl
      exact absurd (htarget _ hw) (Nat.not_le.2 hpolid)

/-! ## The conditions of a rule -/

/-- A condition can be wired to a decision, and to an AND. -/
def IsCondition (type : NodeType) : Prop := type = .compare ∨ type = .inlist ∨ type = .contains

/-- A step of the decompiler: what it adds, and the conditions among it, which are wired to the
decision later. -/
structure Drawn (base : List (ℕ × NodeType)) (sketch : Sketch) (id : ℕ) : Prop where
  part : Part base sketch.nodes sketch.wires id
  bools : sketch.bools.Sublist sketch.nodes
  conditions : ∀ b ∈ sketch.bools, IsCondition b.type

variable {sketch sketch' : Sketch} {gf routeif txn pol dec : GraphNode} {label path : JsString} {y : ℚ}

theorem Drawn.append (h : Drawn base sketch id)
    (h' : Drawn (base ++ kinds sketch.nodes) sketch' (id + sketch.nodes.length)) :
    Drawn base (sketch.append sketch') id where
  part := h.part.append h'.part
  bools := h.bools.append h'.bools
  conditions := by
    intro b hb
    rcases List.mem_append.1 hb with hb | hb
    · exact h.conditions b hb
    · exact h'.conditions b hb

/-- Nothing but warnings. -/
theorem drawn_warned (warnings : List JsString) : Drawn base ⟨[], [], [], warnings⟩ id :=
  ⟨Part.nil, List.Sublist.refl _, by simp⟩

/-- A node that a node of the graph is wired to, and that is not a condition. -/
theorem drawn_node {src n : GraphNode} (hsrc : (src.id, src.type) ∈ base) (hlt : src.id < n.id)
    (hfit : PortsFit src.type n.type k k') (hplural : n.type.single = false) :
    Drawn base ⟨[n], [mkWire src k n k'], [], []⟩ n.id :=
  ⟨Part.wired hsrc hlt hfit hplural, List.nil_sublist _, by simp⟩

/-- A condition that a field is wired to. -/
theorem drawn_condition {n : GraphNode} (hgf : (gf.id, gf.type) ∈ base) (hlt : gf.id < n.id)
    (htype : gf.type = .getfield) (hcond : IsCondition n.type) :
    Drawn base ⟨[n], [mkWire gf (js "out") n (js "a")], [n], []⟩ n.id where
  part := by
    refine Part.wired hgf hlt ?_ ?_
    · rw [htype]
      rcases hcond with h | h | h <;> rw [h] <;> decide
    · rcases hcond with h | h | h <;> rw [h] <;> rfl
  bools := List.Sublist.refl _
  conditions := by simpa using hcond

theorem matchCondition_drawn (spec : Json) (hgf : (gf.id, gf.type) ∈ base) (hlt : gf.id < id)
    (htype : gf.type = .getfield) : Drawn base (matchCondition gf spec id y label path) id := by
  have hcond : ∀ type fields, IsCondition type →
      Drawn base ⟨[mkNode id type 700 y fields],
        [mkWire gf (js "out") (mkNode id type 700 y fields) (js "a")],
        [mkNode id type 700 y fields], []⟩ id := by
    intro type fields h
    exact drawn_condition (n := mkNode id type 700 y fields) hgf hlt htype h
  have hcompare : IsCondition .compare := Or.inl rfl
  have hinlist : IsCondition .inlist := Or.inr (Or.inl rfl)
  cases spec with
  | str s => exact hcond _ _ hcompare
  | obj proto o =>
    simp only [matchCondition]
    split
    · exact hcond _ _ hcompare
    · exact hcond _ _ hcompare
    · exact hcond _ _ hcompare
    · split
      · exact hcond _ _ hinlist
      · exact hcond _ _ hinlist
      · exact drawn_warned _
  | null => exact drawn_warned _
  | bool b => exact drawn_warned _
  | num n => exact drawn_warned _
  | arr items => exact drawn_warned _

theorem matchField_drawn (entry : JsString × Json) (hrif : (routeif.id, routeif.type) ∈ base)
    (hlt : routeif.id < id) (htype : routeif.type = .routeif) :
    Drawn base (matchField routeif label id y entry).1 id := by
  obtain ⟨path, spec⟩ := entry
  simp only [matchField]
  split
  · exact drawn_warned _
  · split
    · exact drawn_warned _
    · have hfit : PortsFit routeif.type .getfield (js "out") (js "in") := by
        rw [htype]
        decide
      have hfield := drawn_node (n := mkNode id .getfield 470 y [(js "path", .str path)]) hrif
        hlt hfit rfl
      refine hfield.append (matchCondition_drawn _ ?_ (Nat.lt_succ_self id) rfl)
      exact List.mem_append_right _ (mem_kinds List.mem_cons_self)

theorem matchFields_drawn (entries : List (JsString × Json))
    (hrif : (routeif.id, routeif.type) ∈ base) (hlt : routeif.id < id)
    (htype : routeif.type = .routeif) :
    Drawn base (matchFields routeif label id y entries).1 id := by
  induction entries generalizing base id y with
  | nil => exact drawn_warned _
  | cons entry entries ih =>
    have hfirst : Drawn base (matchField routeif label id y entry).1 id :=
      matchField_drawn entry hrif hlt htype
    exact hfirst.append (ih (List.mem_append_left _ hrif) (Nat.lt_add_right _ hlt))

/-- A lookup, a field of its row and a condition on it. -/
theorem drawn_lookup {look row last : GraphNode} (htxn : (txn.id, txn.type) ∈ base)
    (hlt : txn.id < look.id) (htype : txn.type = .transaction) (hlook : look.type = .lookup)
    (hrow : row.type = .getfield) (hlast : last.type = .contains) (hrowid : row.id = look.id + 1)
    (hlastid : last.id = look.id + 2) :
    Drawn base ⟨[look, row, last], [mkWire txn (js "tx") look (js "tx"),
      mkWire look (js "out") row (js "in"), mkWire row (js "out") last (js "a")], [last], []⟩
      look.id := by
  have hfirst : Drawn base ⟨[look], [mkWire txn (js "tx") look (js "tx")], [], []⟩ look.id := by
    refine drawn_node htxn hlt ?_ ?_
    · rw [htype, hlook]
      decide
    · rw [hlook]
      rfl
  have hfield : Drawn (base ++ kinds [look]) ⟨[row], [mkWire look (js "out") row (js "in")], [], []⟩
      (look.id + 1) := by
    rw [← hrowid]
    refine drawn_node (List.mem_append_right _ (mem_kinds List.mem_cons_self)) (by omega) ?_ ?_
    · rw [hlook, hrow]
      decide
    · rw [hrow]
      rfl
  have hcond : Drawn (base ++ kinds [look, row])
      ⟨[last], [mkWire row (js "out") last (js "a")], [last], []⟩ (look.id + 2) := by
    rw [← hlastid]
    refine drawn_condition (List.mem_append_right _ (mem_kinds (by simp))) (by omega) hrow ?_
    exact Or.inr (Or.inr hlast)
  exact (hfirst.append hfield).append hcond

theorem providerNodes_drawn (p : Json) (htxn : (txn.id, txn.type) ∈ base) (hlt : txn.id < id)
    (htype : txn.type = .transaction) : Drawn base (providerNodes txn label id y p).1 id := by
  simp only [providerNodes]
  split
  · exact drawn_warned _
  · exact drawn_lookup htxn hlt htype rfl rfl rfl rfl rfl

theorem providersNodes_drawn (ps : List Json) (htxn : (txn.id, txn.type) ∈ base) (hlt : txn.id < id)
    (htype : txn.type = .transaction) : Drawn base (providersNodes txn label id y ps).1 id := by
  induction ps generalizing base id y with
  | nil => exact drawn_warned _
  | cons p ps ih =>
    have hfirst : Drawn base (providerNodes txn label id y p).1 id :=
      providerNodes_drawn p htxn hlt htype
    exact hfirst.append (ih (List.mem_append_left _ htxn) (Nat.lt_add_right _ hlt))

/-! ## Bands -/

theorem Part.node {n : GraphNode} (hplural : n.type.single = false) : Part base [n] [] n.id :=
  ⟨Piece.node n.type, by simpa using hplural⟩

theorem joinConditions_targets {bools : List GraphNode} :
    ∀ w ∈ (joinConditions bools dec y).wires,
      w.toPort = ⟨dec.id, js "cond"⟩ ∨ w.toPort = ⟨dec.id + 1, js "in"⟩ := by
  intro w hw
  cases bools with
  | nil => simp [joinConditions, Sketch.empty] at hw
  | cons b bools =>
    cases bools with
    | nil =>
      left
      rw [List.mem_singleton.1 hw]
      rfl
    | cons b' bools =>
      rcases List.mem_append.1 hw with hw | hw
      · right
        obtain ⟨c, -, rfl⟩ := List.mem_map.1 hw
        rfl
      · left
        rw [List.mem_singleton.1 hw]
        rfl

/-- A decision, and an AND of its conditions. -/
theorem Part.conjunction {conj : GraphNode} {bools : List GraphNode} (hdec : dec.type = .decision)
    (hconj : conj.type = .booland) (hid : conj.id = dec.id + 1)
    (hmem : ∀ b ∈ bools, (b.id, b.type) ∈ base) (hlt : ∀ b ∈ bools, b.id < dec.id)
    (hcond : ∀ b ∈ bools, IsCondition b.type) (hnodup : (bools.map GraphNode.id).Nodup) :
    Part base [dec, conj] (bools.map (fun b => mkWire b (js "out") conj (js "in")) ++
      [mkWire conj (js "out") dec (js "cond")]) dec.id := by
  have hdecmem : (dec.id, dec.type) ∈ base ++ kinds [dec, conj] := by simp [kinds]
  have hconjmem : (conj.id, conj.type) ∈ base ++ kinds [dec, conj] := by simp [kinds]
  have hnodes : Part base [dec, conj] [] dec.id := by
    have hfirst : Part base [dec] [] dec.id := Part.node (by rw [hdec]; rfl)
    have hlast : Part (base ++ kinds [dec]) [conj] [] conj.id := Part.node (by rw [hconj]; rfl)
    rw [hid] at hlast
    exact hfirst.append hlast
  have hmulti : isMultiInput conj.type (js "in") = true := by
    rw [hconj]
    decide
  have hfit : ∀ b ∈ bools, PortsFit b.type conj.type (js "out") (js "in") := by
    intro b hb
    rw [hconj]
    rcases hcond b hb with h | h | h <;> rw [h] <;> decide
  -- the conditions are different nodes
  have hfresh : ([] ++ bools.map fun b => mkWire b (js "out") conj (js "in")).Nodup := by
    refine List.Nodup.of_map (fun w : Wire => w.fromPort.node) ?_
    rw [List.nil_append, List.map_map]
    exact hnodup
  have hjoined : Piece editorWiring base (kinds [dec, conj])
      ([] ++ bools.map fun b => mkWire b (js "out") conj (js "in")) dec.id (dec.id + 2) := by
    refine hnodes.piece.links ?_ ?_ ?_ ?_ hfresh <;> rw [List.forall_mem_map] <;> intro b hb
    · have hlow : b.id < dec.id := hlt b hb
      exact joins_mkWire (List.mem_append_left _ (hmem b hb)) hconjmem (by omega) (hfit b hb)
    · have hlow : b.id < dec.id := hlt b hb
      exact ⟨show b.id < dec.id + 2 by omega, show conj.id < dec.id + 2 by omega⟩
    · exact show dec.id ≤ conj.id by omega
    · exact ⟨_, hconjmem, rfl, hmulti⟩
  -- the AND is not the decision, so its wire meets none of those into it
  have hapart : ∀ w ∈ bools.map fun b => mkWire b (js "out") conj (js "in"),
      w.toPort.node ≠ dec.id := by
    rw [List.forall_mem_map]
    intro b hb
    exact show conj.id ≠ dec.id by omega
  refine ⟨hjoined.link ?_ ?_ (Or.inl le_rfl) ?_ ?_, hnodes.plural⟩
  · refine joins_mkWire hconjmem hdecmem (by omega) ?_
    rw [hdec, hconj]
    decide
  · exact ⟨show conj.id < dec.id + 2 by omega, show dec.id < dec.id + 2 by omega⟩
  · intro hw
    exact hapart _ hw rfl
  · intro w hw hmeets
    exact absurd hmeets.1 (hapart w hw)

/-- **A decision and what joins its conditions**: nothing for one condition and a conjunction for
more, wired within the ids of the part. -/
theorem joinConditions_part {bools : List GraphNode} (hdec : dec.type = .decision)
    (hmem : ∀ b ∈ bools, (b.id, b.type) ∈ base) (hlt : ∀ b ∈ bools, b.id < dec.id)
    (hcond : ∀ b ∈ bools, IsCondition b.type) (hnodup : (bools.map GraphNode.id).Nodup) :
    Part base (dec :: (joinConditions bools dec y).nodes) (joinConditions bools dec y).wires
      dec.id := by
  have hplural : dec.type.single = false := by
    rw [hdec]
    rfl
  cases bools with
  | nil => exact Part.node hplural
  | cons b bools =>
    cases bools with
    | nil =>
      refine Part.wired (hmem b (by simp)) (hlt b (by simp)) ?_ hplural
      rw [hdec]
      rcases hcond b (by simp) with h | h | h <;> rw [h] <;> decide
    | cons b' bools => exact Part.conjunction hdec rfl rfl hmem hlt hcond hnodup

/-- **A branch**, from a Route If over nodes after it to a decision and what joins its conditions,
all in one band of ids. -/
theorem Part.branch {rif : GraphNode} {joined : List GraphNode} {into : List Wire}
    (hrif : rif.type = .routeif) (hdec : dec.type = .decision)
    (htxn : (txn.id, txn.type) ∈ base) (htxntype : txn.type = .transaction)
    (hpol : (pol.id, pol.type) ∈ base) (hpoltype : pol.type = .policy) (hlow : txn.id < rif.id)
    (hlow' : pol.id < rif.id) (hnodes : Part (base ++ kinds [rif]) nodes wires (rif.id + 1))
    (hid : dec.id = rif.id + 1 + nodes.length)
    (hjoined : Part (base ++ kinds ([rif] ++ nodes)) (dec :: joined) into dec.id)
    (hinto : ∀ w ∈ into, w.toPort = ⟨dec.id, js "cond"⟩ ∨ w.toPort = ⟨dec.id + 1, js "in"⟩) :
    Part base ([rif] ++ nodes ++ dec :: joined)
      ([mkWire txn (js "tx") rif (js "tx")] ++ wires ++
        (into ++ [mkWire rif (js "out") dec (js "tx"), mkWire dec (js "out") pol (js "in")]))
      rif.id := by
  have hroute : Part base [rif] [mkWire txn (js "tx") rif (js "tx")] rif.id := by
    refine Part.wired htxn hlow ?_ ?_ <;> rw [hrif]
    · rw [htxntype]
      decide
    · rfl
  have hrifmem : (rif.id, rif.type) ∈ base ++ kinds ([rif] ++ nodes) :=
    List.mem_append_right _ (mem_kinds (by simp))
  have hpolmem : (pol.id, pol.type) ∈ base ++ kinds ([rif] ++ nodes) :=
    List.mem_append_left _ hpol
  have hdecision := hjoined.decision hdec hinto hrifmem hrif hpolmem hpoltype (by omega) (by omega)
  have hlength : rif.id + ([rif] ++ nodes).length = dec.id := by
    simp only [List.length_append, List.length_singleton]
    omega
  rw [← hlength] at hdecision
  exact (hroute.append hnodes).append hdecision

/-- The conditions of a rule, after its Route If. -/
theorem conditions_drawn {rif : GraphNode} {y' : ℚ} (entries : List (JsString × Json))
    (ps : List Json) (hrif : rif.type = .routeif) (htxn : (txn.id, txn.type) ∈ base)
    (htxntype : txn.type = .transaction) (hlow : txn.id < rif.id) :
    Drawn (base ++ kinds [rif])
      ((matchFields rif label (rif.id + 1) y entries).1.append
        (providersNodes txn label
          (rif.id + 1 + (matchFields rif label (rif.id + 1) y entries).1.nodes.length) y' ps).1)
      (rif.id + 1) := by
  have hmem : (rif.id, rif.type) ∈ base ++ kinds [rif] :=
    List.mem_append_right _ (mem_kinds List.mem_cons_self)
  have hfields : Drawn (base ++ kinds [rif]) (matchFields rif label (rif.id + 1) y entries).1
      (rif.id + 1) := matchFields_drawn entries hmem (Nat.lt_succ_self _) hrif
  refine hfields.append (providersNodes_drawn ps ?_ (by omega) htxntype)
  exact List.mem_append_left _ (List.mem_append_left _ htxn)

/-- The band of a rule, from its parts. -/
theorem band_part {rif : GraphNode} (hrif : rif.type = .routeif) (hdec : dec.type = .decision)
    (htxn : (txn.id, txn.type) ∈ base) (htxntype : txn.type = .transaction)
    (hpol : (pol.id, pol.type) ∈ base) (hpoltype : pol.type = .policy) (hlow : txn.id < rif.id)
    (hlow' : pol.id < rif.id) (hdrawn : Drawn (base ++ kinds [rif]) sketch (rif.id + 1))
    (hid : dec.id = rif.id + 1 + sketch.nodes.length) :
    Part base ([rif] ++ sketch.nodes ++ [dec] ++ (joinConditions sketch.bools dec y).nodes)
      ([mkWire txn (js "tx") rif (js "tx")] ++ sketch.wires ++
        (joinConditions sketch.bools dec y).wires ++
        [mkWire rif (js "out") dec (js "tx"), mkWire dec (js "out") pol (js "in")]) rif.id := by
  have hbools : ∀ b ∈ sketch.bools, (b.id, b.type) ∈ base ++ kinds ([rif] ++ sketch.nodes) := by
    intro b hb
    exact List.mem_append_right _ (mem_kinds (List.mem_append_right _ (hdrawn.bools.subset hb)))
  have hlt : ∀ b ∈ sketch.bools, b.id < dec.id := by
    intro b hb
    have hrange := (hdrawn.part.piece.range _ (mem_kinds (hdrawn.bools.subset hb))).2
    exact show b.id < dec.id by omega
  have hnodup : (sketch.bools.map GraphNode.id).Nodup := by
    have hids : ((kinds sketch.nodes).map Prod.fst).Nodup := hdrawn.part.piece.distinct
    rw [kinds, List.map_map] at hids
    exact hids.sublist (hdrawn.bools.map _)
  have hjoined := joinConditions_part (y := y) hdec hbools hlt hdrawn.conditions hnodup
  have hbranch := Part.branch hrif hdec htxn htxntype hpol hpoltype hlow hlow' hdrawn.part hid
    hjoined joinConditions_targets
  simpa using hbranch

theorem ruleBand_part (ri : ℕ) (rule : Json) (htxn : (txn.id, txn.type) ∈ base)
    (htxntype : txn.type = .transaction) (hpol : (pol.id, pol.type) ∈ base)
    (hpoltype : pol.type = .policy) (hlow : txn.id < id) (hlow' : pol.id < id) :
    Part base (ruleBand txn pol id ri rule).nodes (ruleBand txn pol id ri rule).wires id := by
  simp only [ruleBand]
  split
  · exact Part.nil
  · refine band_part rfl rfl htxn htxntype hpol hpoltype hlow hlow'
      (conditions_drawn _ _ rfl htxn htxntype hlow) ?_
    rw [Sketch.append, List.length_append, ← Nat.add_assoc]
    rfl

theorem ruleBands_part (rules : List Json) (ri : ℕ) (htxn : (txn.id, txn.type) ∈ base)
    (htxntype : txn.type = .transaction) (hpol : (pol.id, pol.type) ∈ base)
    (hpoltype : pol.type = .policy) (hlow : txn.id < id) (hlow' : pol.id < id) :
    Part base (ruleBands txn pol id ri rules).nodes (ruleBands txn pol id ri rules).wires id := by
  induction rules generalizing base id ri with
  | nil => exact Part.nil
  | cons rule rules ih =>
    have hband := ruleBand_part ri rule htxn htxntype hpol hpoltype hlow hlow'
    exact hband.append (ih (ri + 1) (List.mem_append_left _ htxn) (List.mem_append_left _ hpol)
      (Nat.lt_add_right _ hlow) (Nat.lt_add_right _ hlow'))

/-! ## Routes -/

theorem routeBranch_nextId (a b : Option GraphNode) (y : ℚ) (r : RouteStub) :
    (routeBranch a b id y r).nextId = id + (routeBranch a b id y r).nodes.length := by
  simp only [routeBranch, List.length_append, List.length_map, List.length_zipIdx,
    List.length_singleton]
  omega

/-- The Get Field stubs of a route. -/
theorem stubs_part {rif : GraphNode} (hrif : rif.type = .routeif)
    (hmem : (rif.id, rif.type) ∈ base) (paths : List JsString) {f : JsString × ℕ → GraphNode}
    (hids : ∀ e, (f e).id = rif.id + 1 + e.2) (htypes : ∀ e, (f e).type = .getfield) :
    Part base (paths.zipIdx.map f)
      ((paths.zipIdx.map f).map fun gf => mkWire rif (js "out") gf (js "in")) (rif.id + 1) := by
  have hfit : PortsFit rif.type .getfield (js "out") (js "in") := by
    rw [hrif]
    decide
  refine Part.fan hmem (Nat.lt_succ_self _) hfit rfl ?_ ?_
  · have hall : (paths.zipIdx.map f).map GraphNode.id =
        (paths.zipIdx.map Prod.snd).map (rif.id + 1 + ·) := by
      rw [List.map_map, List.map_map]
      exact List.map_congr_left fun e _ => hids e
    rw [hall, List.zipIdx_map_snd, List.map_add_range', List.length_map, List.length_zipIdx]
  · rw [List.forall_mem_map]
    exact fun e _ => htypes e

/-- The branch of a route, from its parts. -/
theorem stubbed_part {rif : GraphNode} (paths : List JsString) {f : JsString × ℕ → GraphNode}
    (hrif : rif.type = .routeif) (hdec : dec.type = .decision)
    (hids : ∀ e, (f e).id = rif.id + 1 + e.2) (htypes : ∀ e, (f e).type = .getfield)
    (hid : dec.id = rif.id + 1 + paths.length) (htxn : (txn.id, txn.type) ∈ base)
    (htxntype : txn.type = .transaction) (hpol : (pol.id, pol.type) ∈ base)
    (hpoltype : pol.type = .policy) (hlow : txn.id < rif.id) (hlow' : pol.id < rif.id) :
    Part base ([rif] ++ paths.zipIdx.map f ++ [dec])
      ([mkWire txn (js "tx") rif (js "tx")] ++
        (paths.zipIdx.map f).map (fun gf => mkWire rif (js "out") gf (js "in")) ++
        [mkWire rif (js "out") dec (js "tx")] ++ [mkWire dec (js "out") pol (js "in")]) rif.id := by
  have hmem : (rif.id, rif.type) ∈ base ++ kinds [rif] :=
    List.mem_append_right _ (mem_kinds List.mem_cons_self)
  have hlength : dec.id = rif.id + 1 + (paths.zipIdx.map f).length := by
    simpa using hid
  have hlone : Part (base ++ kinds ([rif] ++ paths.zipIdx.map f)) [dec] [] dec.id :=
    Part.node (by rw [hdec]; rfl)
  have hbranch := Part.branch hrif hdec htxn htxntype hpol hpoltype hlow hlow'
    (stubs_part hrif hmem paths hids htypes) hlength hlone (by simp)
  simpa using hbranch

theorem routeBranch_part (r : RouteStub) (htxn : (txn.id, txn.type) ∈ base)
    (htxntype : txn.type = .transaction) (hpol : (pol.id, pol.type) ∈ base)
    (hpoltype : pol.type = .policy) (hlow : txn.id < id) (hlow' : pol.id < id) :
    Part base (routeBranch (some txn) (some pol) id y r).nodes
      (routeBranch (some txn) (some pol) id y r).wires id :=
  stubbed_part r.paths rfl rfl (fun _ => rfl) (fun _ => rfl) rfl htxn htxntype hpol hpoltype hlow
    hlow'

theorem routeBranches_nextId (a b : Option GraphNode) (rs : List RouteStub) :
    (routeBranches a b id y rs).nextId = id + (routeBranches a b id y rs).nodes.length := by
  induction rs generalizing id y with
  | nil => rfl
  | cons r rs ih =>
    simp only [routeBranches, List.length_append]
    rw [ih, routeBranch_nextId]
    omega

/-- **The branches of the routes of a transaction**, one after the other, each in a band of ids of
its own. -/
theorem routeBranches_part (rs : List RouteStub) (htxn : (txn.id, txn.type) ∈ base)
    (htxntype : txn.type = .transaction) (hpol : (pol.id, pol.type) ∈ base)
    (hpoltype : pol.type = .policy) (hlow : txn.id < id) (hlow' : pol.id < id) :
    Part base (routeBranches (some txn) (some pol) id y rs).nodes
      (routeBranches (some txn) (some pol) id y rs).wires id := by
  induction rs generalizing base id y with
  | nil => exact Part.nil
  | cons r rs ih =>
    have hbranch := routeBranch_part (y := y) r htxn htxntype hpol hpoltype hlow hlow'
    simp only [routeBranches, routeBranch_nextId]
    exact hbranch.append (ih (List.mem_append_left _ htxn) (List.mem_append_left _ hpol)
      (Nat.lt_add_right _ hlow) (Nat.lt_add_right _ hlow'))

end Signbox
