import Signbox.Proof.PolicyText
import Signbox.Proof.TextFields

/-!
# The parts of a decompiled graph

The nodes of a part are numbered one after another and its wires stay in it, except for those
into the policy node. What the compiler sees of a part is then the same in every graph that
holds the part, and the parts of a rule can be compiled one by one.

* `Sketch.At`, `Held`: a part from a number on, and a graph that holds it.
* `Sketch.Compiles`: what the walk of the compiler collects from the conditions of a part.
* `matchFields_compiles`, `providersNodes_compiles`: the conditions of a rule.
-/

namespace Signbox

variable {nodes : List GraphNode} {wires : List Wire} {a b s : Sketch} {lo i : ℕ}

/-! ## Parts -/

/-- The number of the policy node. -/
def policyId : ℕ := 2

/-- The wires into a node. -/
def wiresInto (wires : List Wire) (i : ℕ) : List Wire := wires.filter fun w => w.toPort.node = i

/-- A part whose first node has the number `lo`: its nodes are numbered on from there, and its
wires stay inside or lead to the policy. -/
structure Sketch.At (s : Sketch) (lo : ℕ) : Prop where
  low : policyId < lo
  ids : s.nodes.map (·.id) = List.range' lo s.nodes.length
  inside : ∀ w ∈ s.wires, w.toPort.node = policyId ∨
    lo ≤ w.toPort.node ∧ w.toPort.node < lo + s.nodes.length

/-- A graph that holds a part: its nodes, and into them no other wires. So what the compiler walks
from them is the part. -/
structure Held (nodes : List GraphNode) (wires : List Wire) (s : Sketch) (lo : ℕ) : Prop where
  nodes : ∀ n ∈ s.nodes, nodeById nodes n.id = some n
  wires : ∀ i, lo ≤ i → i < lo + s.nodes.length → wiresInto wires i = wiresInto s.wires i

theorem wiresInto_append (ws vs : List Wire) (i : ℕ) :
    wiresInto (ws ++ vs) i = wiresInto ws i ++ wiresInto vs i := List.filter_append ..

namespace Sketch

@[simp] theorem append_nodes : (a.append b).nodes = a.nodes ++ b.nodes := rfl

@[simp] theorem append_wires : (a.append b).wires = a.wires ++ b.wires := rfl

@[simp] theorem append_bools : (a.append b).bools = a.bools ++ b.bools := rfl

@[simp] theorem append_warnings : (a.append b).warnings = a.warnings ++ b.warnings := rfl

theorem At.empty (h : policyId < lo) : Sketch.empty.At lo := ⟨h, rfl, by simp [Sketch.empty]⟩

theorem At.append (ha : a.At lo) (hb : b.At (lo + a.nodes.length)) : (a.append b).At lo := by
  refine ⟨ha.low, ?_, ?_⟩
  · rw [append_nodes, List.map_append, ha.ids, hb.ids, List.length_append, List.range'_append_1]
  · intro w hw
    rw [append_nodes, List.length_append]
    rcases List.mem_append.1 hw with hw | hw
    · have hin := ha.inside w hw
      omega
    · have hin := hb.inside w hw
      omega

/-- No wire leads into a part from outside. -/
theorem At.wiresInto_nil (h : s.At lo) (hi : i < lo ∨ lo + s.nodes.length ≤ i)
    (hne : i ≠ policyId) : wiresInto s.wires i = [] := by
  rw [wiresInto, List.filter_eq_nil_iff]
  intro w hw hto
  have hin := h.inside w hw
  rw [decide_eq_true_eq] at hto
  omega

end Sketch

theorem Held.left (ha : a.At lo) (hb : b.At (lo + a.nodes.length))
    (h : Held nodes wires (a.append b) lo) : Held nodes wires a lo := by
  refine ⟨fun n hn => h.nodes n (List.mem_append_left _ hn), fun i hlo hhi => ?_⟩
  have hlow := ha.low
  have hall := h.wires i hlo (by rw [Sketch.append_nodes, List.length_append]; omega)
  rw [hall, Sketch.append_wires, wiresInto_append, hb.wiresInto_nil (by omega) (by omega),
    List.append_nil]

theorem Held.right (ha : a.At lo) (h : Held nodes wires (a.append b) lo) :
    Held nodes wires b (lo + a.nodes.length) := by
  refine ⟨fun n hn => h.nodes n (List.mem_append_right _ hn), fun i hlo hhi => ?_⟩
  have hlow := ha.low
  have hall := h.wires i (by omega) (by rw [Sketch.append_nodes, List.length_append]; omega)
  rw [hall, Sketch.append_wires, wiresInto_append, ha.wiresInto_nil (by omega) (by omega),
    List.nil_append]

/-! ## Walks through a part -/

/-- The edges the compiler walks along: from a node to what is wired into it. -/
def upEdges (wires : List Wire) : List (ℕ × ℕ) :=
  wires.map fun w => (w.toPort.node, w.fromPort.node)

theorem targets_upEdges :
    Walk.targets (upEdges wires) i = (wiresInto wires i).map fun w => w.fromPort.node := by
  rw [Walk.targets, upEdges, wiresInto, List.filter_map, List.map_map]
  rfl

/-- Behind a new node with one wire into it, the walk goes on at the start of that wire. -/
theorem walk_single {seen : List ℕ} {w : Wire} (stack : List ℕ) (hnew : i ∉ seen)
    (h : wiresInto wires i = [w]) : Walk.walk (upEdges wires) seen (i :: stack) =
      Walk.walk (upEdges wires) (seen ++ [i]) (w.fromPort.node :: stack) := by
  rw [Walk.walk_new hnew, targets_upEdges, h]
  rfl

/-- The nodes wired into a port. -/
theorem inboundNodes_into (key : JsString) : inboundNodes nodes wires i key =
    ((wiresInto wires i).filter fun w => w.toPort.key = key).filterMap
      fun w => nodeById nodes w.fromPort.node := by
  rw [inboundNodes, wiresInto, List.filter_filter]
  congr 2
  funext w
  obtain ⟨-, ⟨node, k⟩⟩ := w
  simp [Bool.and_comm]

/-- What the compiler collects from the nodes it walked to, one clause after the other. -/
def collect (nodes : List GraphNode) (wires : List Wire) (ids : List ℕ) (d : Draft) : Draft :=
  (ids.filterMap (nodeById nodes)).foldl (fun d n => d.add (compileNode nodes wires n)) d

theorem collect_append (ids js : List ℕ) (d : Draft) :
    collect nodes wires (ids ++ js) d = collect nodes wires js (collect nodes wires ids d) := by
  rw [collect, List.filterMap_append, List.foldl_append]
  rfl

theorem collect_cons {n : GraphNode} (h : nodeById nodes i = some n) (ids : List ℕ) (d : Draft) :
    collect nodes wires (i :: ids) d =
      collect nodes wires ids (d.add (compileNode nodes wires n)) := by
  rw [collect, List.filterMap_cons_some h, List.foldl_cons]
  rfl

/-- **The conditions of a part, compiled.** From a stack with the conditions of the part on top,
the walk sees nodes of the part only, from which the clauses are collected, the last one first.
The nodes in `roots` are seen before. -/
structure Sketch.Compiles (s : Sketch) (lo : ℕ) (roots : List ℕ) (clauses : List Clause) :
    Prop where
  at' : s.At lo
  bools : ∀ n ∈ s.bools, n ∈ s.nodes
  types : ∀ n ∈ s.nodes, n.type ≠ .decision
  walk : ∀ {nodes : List GraphNode} {wires : List Wire} {seen stack : List ℕ},
    Held nodes wires s lo → (∀ i ∈ roots, i ∈ seen) →
    (∀ i ∈ seen, i < lo ∨ lo + s.nodes.length ≤ i) →
    ∃ ids, Walk.walk (upEdges wires) seen ((s.bools.map (·.id)).reverse ++ stack) =
        Walk.walk (upEdges wires) (seen ++ ids) stack ∧
      (∀ i ∈ ids, lo ≤ i ∧ i < lo + s.nodes.length) ∧
      ∀ d, collect nodes wires ids d = clauses.reverse.foldl Draft.add d

namespace Sketch.Compiles

variable {roots : List ℕ} {cs ds : List Clause}

theorem empty (h : policyId < lo) : Sketch.empty.Compiles lo roots [] := by
  refine ⟨.empty h, by simp [Sketch.empty], by simp [Sketch.empty], ?_⟩
  intro nodes wires seen stack _ _ _
  exact ⟨[], by simp [Sketch.empty], by simp, fun d => rfl⟩

theorem append (ha : a.Compiles lo roots cs) (hb : b.Compiles (lo + a.nodes.length) roots ds) :
    (a.append b).Compiles lo roots (cs ++ ds) := by
  refine ⟨ha.at'.append hb.at', ?_, ?_, ?_⟩
  · intro n hn
    rcases List.mem_append.1 hn with hn | hn
    · exact List.mem_append_left _ (ha.bools n hn)
    · exact List.mem_append_right _ (hb.bools n hn)
  · intro n hn
    rcases List.mem_append.1 hn with hn | hn
    · exact ha.types n hn
    · exact hb.types n hn
  · intro nodes wires seen stack hheld hroots hseen
    rw [append_nodes, List.length_append] at hseen
    -- the conditions of `b` are on top of those of `a`
    obtain ⟨js, hwalkb, hjs, hcollectb⟩ := @Compiles.walk _ _ _ _ hb _ _ seen
      ((a.bools.map (·.id)).reverse ++ stack) (hheld.right ha.at') hroots
      fun i hi => by
        have hout := hseen i hi
        omega
    obtain ⟨is, hwalka, his, hcollecta⟩ := @Compiles.walk _ _ _ _ ha _ _ (seen ++ js) stack
      (hheld.left ha.at' hb.at') (fun i hi => List.mem_append_left _ (hroots i hi)) fun i hi => by
        rcases List.mem_append.1 hi with hi | hi
        · have hout := hseen i hi
          omega
        · have hin := hjs i hi
          omega
    refine ⟨js ++ is, ?_, ?_, fun d => ?_⟩
    · rw [append_bools, List.map_append, List.reverse_append, List.append_assoc, hwalkb, hwalka,
        List.append_assoc]
    · intro i hi
      rw [append_nodes, List.length_append]
      rcases List.mem_append.1 hi with hi | hi
      · have hin := hjs i hi
        omega
      · have hin := his i hi
        omega
    · rw [collect_append, hcollectb, hcollecta, List.reverse_append, List.foldl_append]

end Sketch.Compiles

/-! ## One condition -/

/-- The node that stands for a match value. -/
def condType : MatchValue → NodeType
  | .lit _ | .eq _ | .lte _ | .gte _ => .compare
  | .isIn _ | .notIn _ => .inlist

def condFields : MatchValue → Fields
  | .lit t | .eq t => [(js "op", .str (js "eq")), (js "value", .str t)]
  | .lte bound => [(js "op", .str (js "lte")), (js "value", .str bound)]
  | .gte bound => [(js "op", .str (js "gte")), (js "value", .str bound)]
  | .isIn vs => [(js "mode", .str (js "in")), (js "list", .str (joinList (vs.map .str)))]
  | .notIn vs => [(js "mode", .str (js "notin")), (js "list", .str (joinList (vs.map .str)))]

theorem matchCondition_doc (gf : GraphNode) (p : Proto) (x : MatchValue) (id : ℕ) (y : ℚ)
    (label path : JsString) : matchCondition gf (Schema.matchDoc p x) id y label path =
      ⟨[mkNode id (condType x) 700 y (condFields x)],
        [mkWire gf (js "out") (mkNode id (condType x) 700 y (condFields x)) (js "a")],
        [mkNode id (condType x) 700 y (condFields x)], []⟩ := by
  cases x <;> rfl

/-- The match value the compiler writes: an equality becomes a literal. -/
def MatchValue.plain : MatchValue → MatchValue
  | .eq t => .lit t
  | x => x

/-- The texts of the list of a match value. -/
def MatchValue.items : MatchValue → List JsString
  | .isIn vs | .notIn vs => vs
  | _ => []

/-- A list that comes back from a text field: no item is blank, has a comma in it, or white space
at an end. -/
def MatchValue.ListKept (x : MatchValue) : Prop :=
  listOf (joinList (x.items.map .str)) = x.items

theorem condition_fields (id : ℕ) (y : ℚ) (x : MatchValue) :
    (mkNode id (condType x) 700 y (condFields x)).fields = condFields x := by
  cases x <;> rfl

/-- The condition of a match value, fed by the field it is about. -/
theorem compile_condition {gf cond : GraphNode} {x : MatchValue} {path : JsString}
    (htype : cond.type = condType x) (hfields : cond.fields = condFields x)
    (hsource : fieldSource nodes wires cond = some gf) (hpath : gf.fields.text (js "path") = path)
    (hvalid : MATCH_PATH_PATTERN path = true) (hlist : x.ListKept) :
    compileNode nodes wires cond = .field path (Schema.matchDoc .ordinary x.plain) := by
  unfold compileNode
  rw [htype]
  cases x with
  | lit t =>
    simp only [condType, compileCompare, hsource, hpath, hvalid, hfields]
    rfl
  | eq t =>
    simp only [condType, compileCompare, hsource, hpath, hvalid, hfields]
    rfl
  | lte bound =>
    simp only [condType, compileCompare, hsource, hpath, hvalid, hfields]
    rfl
  | gte bound =>
    simp only [condType, compileCompare, hsource, hpath, hvalid, hfields]
    rfl
  | isIn vs =>
    have hitems : listOf ((condFields (.isIn vs)).text (js "list")) = vs := hlist
    simp only [condType, compileInList, hsource, hpath, hvalid, hfields, hitems]
    rfl
  | notIn vs =>
    have hitems : listOf ((condFields (.notIn vs)).text (js "list")) = vs := hlist
    simp only [condType, compileInList, hsource, hpath, hvalid, hfields, hitems]
    rfl

/-- The part of one match field. -/
def fieldPart (routeif : GraphNode) (id : ℕ) (y : ℚ) (path : JsString) (x : MatchValue) :
    Sketch :=
  let gf := mkNode id .getfield 470 y [(js "path", .str path)]
  let cond := mkNode (id + 1) (condType x) 700 y (condFields x)
  ⟨[gf, cond], [mkWire routeif (js "out") gf (js "in"), mkWire gf (js "out") cond (js "a")],
    [cond], []⟩

theorem fieldPart_compiles {routeif : GraphNode} {path : JsString} {x : MatchValue} {y : ℚ}
    (hlow : policyId < lo) (hvalid : MATCH_PATH_PATTERN path = true) (hlist : x.ListKept) :
    (fieldPart routeif lo y path x).Compiles lo [1, routeif.id]
      [.field path (Schema.matchDoc .ordinary x.plain)] := by
  -- as for a lookup, with one node less: the field and the condition on it
  refine ⟨⟨hlow, rfl, ?_⟩, ?_, ?_, ?_⟩
  · intro w hw
    simp only [fieldPart, List.mem_cons, List.not_mem_nil, or_false] at hw
    rcases hw with rfl | rfl
    · exact Or.inr ⟨le_rfl, Nat.lt_add_of_pos_right Nat.two_pos⟩
    · exact Or.inr ⟨Nat.le_succ lo, Nat.lt_succ_self (lo + 1)⟩
  · intro n hn
    exact List.mem_cons_of_mem _ hn
  · intro n hn
    simp only [fieldPart, List.mem_cons, List.not_mem_nil, or_false] at hn
    rcases hn with rfl | rfl
    · simp [mkNode]
    · cases x <;> simp [mkNode, condType]
  · intro nodes wires seen stack hheld hroots hseen
    have hlen : (fieldPart routeif lo y path x).nodes.length = 2 := rfl
    rw [hlen] at hseen ⊢
    set gf := mkNode lo .getfield 470 y [(js "path", .str path)]
    set cond := mkNode (lo + 1) (condType x) 700 y (condFields x)
    have hgf : nodeById nodes lo = some gf := hheld.nodes gf (List.mem_cons_self ..)
    have hcond : nodeById nodes (lo + 1) = some cond :=
      hheld.nodes cond (List.mem_cons_of_mem _ (List.mem_singleton_self _))
    have hgfwires : wiresInto wires lo = [mkWire routeif (js "out") gf (js "in")] := by
      rw [hheld.wires lo le_rfl (by omega)]
      simp [wiresInto, fieldPart, mkWire, mkNode, gf]
    have hcondwires : wiresInto wires (lo + 1) = [mkWire gf (js "out") cond (js "a")] := by
      rw [hheld.wires (lo + 1) (by omega) (by omega)]
      simp [wiresInto, fieldPart, mkWire, mkNode, gf, cond]
    have hsource : fieldSource nodes wires cond = some gf := by
      rw [fieldSource, inboundNodes_into, show cond.id = lo + 1 from rfl, hcondwires]
      simp [mkWire, gf, hgf, mkNode]
    have hclause := compile_condition rfl (condition_fields (lo + 1) y x) hsource rfl hvalid hlist
    have hnew : lo + 1 ∉ seen := fun hmem => by
      have hout := hseen (lo + 1) hmem
      omega
    have hnewgf : lo ∉ seen ++ [lo + 1] := by
      rw [List.mem_append, not_or, List.mem_singleton]
      refine ⟨fun hmem => ?_, by omega⟩
      have hout := hseen lo hmem
      omega
    -- the walk goes down from the condition to the Route If, which was seen before
    refine ⟨[lo + 1, lo], ?_, ?_, fun d => ?_⟩
    · have hroot : routeif.id ∈ seen ++ [lo + 1] ++ [lo] :=
        List.mem_append_left _ (List.mem_append_left _ (hroots _ (by simp)))
      have hfirst := walk_single stack hnew hcondwires
      have hsecond := walk_single stack hnewgf hgfwires
      refine (hfirst.trans (hsecond.trans ?_))
      rw [show (mkWire routeif (js "out") gf (js "in")).fromPort.node = routeif.id from rfl,
        Walk.walk_seen hroot, List.append_assoc]
      rfl
    · intro i hi
      simp only [List.mem_cons, List.not_mem_nil, or_false] at hi
      omega
    · rw [collect_cons hcond, collect_cons hgf, hclause]
      rfl

/-! ## The match of a rule -/

/-- The entries of a `match` that is read as these fields. -/
def Entries (entries : List (JsString × Json)) (fields : List (JsString × MatchValue)) : Prop :=
  List.Forall₂ (fun e f => e.1 = f.1 ∧ ∃ p, e.2 = Schema.matchDoc p f.2) entries fields

/-- A field that gets a condition of its own; the others go to the Route If. -/
def onData (f : JsString × MatchValue) : Bool :=
  decide (f.1 ≠ js "contract") && decide (f.1 ≠ js "action")

def fieldClause (f : JsString × MatchValue) : Clause :=
  .field f.1 (Schema.matchDoc .ordinary f.2.plain)

theorem fieldPath_valid : ∀ path ∈ FIELD_PATHS, MATCH_PATH_PATTERN path = true := by decide

variable {entries : List (JsString × Json)} {fields : List (JsString × MatchValue)}
  {routeif : GraphNode} {label : JsString}

theorem matchField_routed {e : JsString × Json} (id : ℕ) (y : ℚ)
    (h : e.1 = js "contract" ∨ e.1 = js "action") :
    matchField routeif label id y e = (.empty, false) := by
  rw [matchField]
  exact if_pos h

theorem matchField_data {f : JsString × MatchValue} (id : ℕ) (y : ℚ) (p : Proto)
    (h : onData f = true) (hpath : f.1 ∈ FIELD_PATHS) :
    matchField routeif label id y (f.1, Schema.matchDoc p f.2) =
      (fieldPart routeif id y f.1 f.2, true) := by
  simp only [onData, Bool.and_eq_true, decide_eq_true_eq] at h
  rw [matchField]
  simp only [h.1, h.2, or_self, if_false, hpath, not_true_eq_false, matchCondition_doc]
  rfl

/-- **The match of a rule, compiled**: the clauses of its fields, apart from contract and
action. -/
theorem matchFields_compiles (h : Entries entries fields)
    (hpaths : ∀ f ∈ fields, f.1 ∈ FIELD_PATHS)
    (hlists : ∀ f ∈ fields, onData f = true → f.2.ListKept) :
    ∀ {lo : ℕ} {y : ℚ}, policyId < lo →
      (matchFields routeif label lo y entries).1.Compiles lo [1, routeif.id]
        ((fields.filter onData).map fieldClause) := by
  induction h with
  | nil => exact fun hlow => .empty hlow
  | @cons e f entries fields hef _ ih =>
    intro lo y hlow
    obtain ⟨hkey, p, hdoc⟩ := hef
    have hrest := @ih (fun g hg => hpaths g (List.mem_cons_of_mem f hg))
      fun g hg => hlists g (List.mem_cons_of_mem f hg)
    have he : e = (f.1, Schema.matchDoc p f.2) := Prod.ext hkey hdoc
    rw [matchFields]
    cases hdata : onData f with
    | false =>
      have hrouted : e.1 = js "contract" ∨ e.1 = js "action" := by
        rw [hkey]
        by_contra hnot
        rw [not_or] at hnot
        simp [onData, hnot.1, hnot.2] at hdata
      have hskip : (f :: fields).filter onData = fields.filter onData :=
        List.filter_cons_of_neg (by simp [hdata])
      rw [matchField_routed lo y hrouted, hskip]
      have hempty : Sketch.empty.Compiles lo [1, routeif.id] [] := .empty hlow
      exact hempty.append (hrest hlow)
    | true =>
      have hpath := hpaths f (List.mem_cons_self ..)
      have hkeep : (f :: fields).filter onData = f :: fields.filter onData :=
        List.filter_cons_of_pos hdata
      rw [he, matchField_data lo y p hdata hpath, hkeep]
      exact (fieldPart_compiles hlow (fieldPath_valid _ hpath)
        (hlists f (List.mem_cons_self ..) hdata)).append (hrest (by omega))

/-- A `match` without a warning has no other paths. -/
theorem matchFields_paths : ∀ {entries : List (JsString × Json)} {lo : ℕ} {y : ℚ},
    (matchFields routeif label lo y entries).1.warnings = [] → ∀ e ∈ entries, e.1 ∈ FIELD_PATHS
  | [], _, _, _, e, he => absurd he (List.not_mem_nil)
  | d :: entries, lo, y, h, e, he => by
    rw [matchFields] at h
    simp only [Sketch.append_warnings, List.append_eq_nil_iff] at h
    rcases List.mem_cons.1 he with rfl | he
    · by_contra hpath
      have hcontract : js "contract" ∈ FIELD_PATHS := by decide
      have haction : js "action" ∈ FIELD_PATHS := by decide
      have hrouted : ¬ (e.1 = js "contract" ∨ e.1 = js "action") := by
        rintro (heq | heq)
        · exact hpath (heq ▸ hcontract)
        · exact hpath (heq ▸ haction)
      have hwarned := h.1
      rw [matchField] at hwarned
      simp only [if_neg hrouted, if_pos hpath] at hwarned
      simp at hwarned
    · exact matchFields_paths h.2 e he

/-! ## Providers -/

/-- The document of a table-row requirement, as the compiler writes it. -/
def rowDoc (q : TableRowProvider) : Json :=
  .obj .ordinary [(js "provider", .str (js "xpr.rpc.tableRow")),
    (js "args", .obj .ordinary [(js "contract", .str q.args.contract),
      (js "scope", .str q.args.contract), (js "table", .str q.args.table),
      (js "key", .str q.args.key)]),
    (js "select", .str q.select), (js "op", .str (js "contains")), (js "value", .str q.value)]

/-- The part of one requirement. -/
def lookupPart (txn : GraphNode) (id : ℕ) (y : ℚ) (q : TableRowProvider) : Sketch :=
  let look := mkNode id .lookup 240 (y + 40) [(js "provider", .str (js "xpr.rpc.tableRow")),
    (js "contract", .str q.args.contract), (js "table", .str q.args.table),
    (js "key", .str q.args.key)]
  let gf := mkNode (id + 1) .getfield 470 (y + 40) [(js "path", .str q.select)]
  let contains := mkNode (id + 2) .contains 700 (y + 40) [(js "value", .str q.value)]
  ⟨[look, gf, contains],
    [mkWire txn (js "tx") look (js "tx"), mkWire look (js "out") gf (js "in"),
      mkWire gf (js "out") contains (js "a")], [contains], []⟩

variable {txn : GraphNode} {d : Json} {q : TableRowProvider}

theorem get_obj (p : Proto) (ms : List (JsString × Json)) (key : JsString) :
    (Json.obj p ms).get key = ms.lookup key := rfl

/-- What a requirement becomes in the editor. -/
theorem providerNodes_row (id : ℕ) (y : ℚ) (h : Schema.provider xprDialect d = some q)
    (hop : q.op = .contains) : providerNodes txn label id y d = (lookupPart txn id y q, true) := by
  obtain ⟨-, p, ms, rfl, -, hname, hargs, hselect, hopdoc, hvalue⟩ := Schema.provider_iff.1 h
  obtain ⟨n, hn, hnconst⟩ := Schema.required_some hname
  obtain ⟨args, hargsdoc, hargsome⟩ := Schema.required_some hargs
  obtain ⟨p', ns, rfl, -, hcontract, -, htable, hkey⟩ := Schema.providerArgs_iff.1 hargsome
  obtain ⟨sel, hsel, hselpat⟩ := Schema.required_some hselect
  obtain ⟨o, ho, hosome⟩ := Schema.required_some hopdoc
  have hnamedoc : n = .str (js "xpr.rpc.tableRow") := Schema.const_eq hnconst
  have hopeq : o = .str (js "contains") := by rw [Schema.providerOp_eq hosome, hop]; rfl
  subst hnamedoc hopeq
  rw [(Schema.pattern_eq hselpat).1] at hsel
  simp only [providerNodes, Json.getText, get_obj, hn, ho, hargsdoc, hsel,
    Schema.required_text hcontract, Schema.required_text htable, Schema.required_text hkey,
    Schema.required_text hvalue, Option.bind_some, Json.str?, Option.getD_some, ne_eq,
    not_true_eq_false, or_self, if_false]
  rfl

/-- A requirement that is not skipped asks for `contains`. -/
theorem providerNodes_contains {id : ℕ} {y : ℚ} (h : Schema.provider xprDialect d = some q)
    (hwarn : (providerNodes txn label id y d).1.warnings = []) : q.op = .contains := by
  obtain ⟨-, p, ms, rfl, -, -, -, -, hopdoc, -⟩ := Schema.provider_iff.1 h
  obtain ⟨o, ho, hosome⟩ := Schema.required_some hopdoc
  cases hop : q.op with
  | contains => rfl
  | eq =>
    have hopeq : o = .str (js "eq") := by rw [Schema.providerOp_eq hosome, hop]; rfl
    subst hopeq
    have hne : some (js "eq") ≠ some (js "contains") := by decide
    simp only [providerNodes, get_obj, ho, Option.bind_some, Json.str?, hne, ne_eq,
      not_false_eq_true, or_true, if_true] at hwarn
    simp at hwarn

theorem lookupPart_compiles {y : ℚ} (hlow : policyId < lo) (htxn : txn.id = 1)
    (hselect : SELECT_FIELD_PATTERN q.select = true) (root : ℕ) :
    (lookupPart txn lo y q).Compiles lo [1, root] [.provider (rowDoc q)] := by
  -- the part stands in its own ids and has no conjunction and no decision in it
  refine ⟨⟨hlow, rfl, ?_⟩, ?_, ?_, ?_⟩
  · intro w hw
    simp only [lookupPart, List.mem_cons, List.not_mem_nil, or_false] at hw
    have hlen : (lookupPart txn lo y q).nodes.length = 3 := rfl
    rw [hlen]
    rcases hw with rfl | rfl | rfl <;> simp only [mkWire, mkNode] <;> omega
  · intro n hn
    exact List.mem_cons_of_mem _ (List.mem_cons_of_mem _ hn)
  · intro n hn
    simp only [lookupPart, List.mem_cons, List.not_mem_nil, or_false] at hn
    rcases hn with rfl | rfl | rfl <;> simp [mkNode]
  · intro nodes wires seen stack hheld hroots hseen
    have hlen : (lookupPart txn lo y q).nodes.length = 3 := rfl
    rw [hlen] at hseen ⊢
    -- its three nodes, as the graph that holds the part finds them
    set look := mkNode lo .lookup 240 (y + 40) [(js "provider", .str (js "xpr.rpc.tableRow")),
      (js "contract", .str q.args.contract), (js "table", .str q.args.table),
      (js "key", .str q.args.key)]
    set gf := mkNode (lo + 1) .getfield 470 (y + 40) [(js "path", .str q.select)]
    set contains := mkNode (lo + 2) .contains 700 (y + 40) [(js "value", .str q.value)]
    have hlook : nodeById nodes lo = some look := hheld.nodes look (by simp [lookupPart, look])
    have hgf : nodeById nodes (lo + 1) = some gf := hheld.nodes gf (by simp [lookupPart, gf])
    have hcontains : nodeById nodes (lo + 2) = some contains :=
      hheld.nodes contains (by simp [lookupPart, contains])
    -- into each of them goes one wire, from the node below it
    have hlookwires : wiresInto wires lo = [mkWire txn (js "tx") look (js "tx")] := by
      rw [hheld.wires lo le_rfl (by omega)]
      simp [wiresInto, lookupPart, mkWire, mkNode, look]
    have hgfwires : wiresInto wires (lo + 1) = [mkWire look (js "out") gf (js "in")] := by
      rw [hheld.wires (lo + 1) (by omega) (by omega)]
      simp [wiresInto, lookupPart, mkWire, mkNode, look, gf]
    have hcontainswires : wiresInto wires (lo + 2) = [mkWire gf (js "out") contains (js "a")] := by
      rw [hheld.wires (lo + 2) (by omega) (by omega)]
      simp [wiresInto, lookupPart, mkWire, mkNode, gf, contains]
    have hsource : fieldSource nodes wires contains = some gf := by
      rw [fieldSource, inboundNodes_into, show contains.id = lo + 2 from rfl, hcontainswires]
      simp [mkWire, gf, hgf, mkNode]
    have hrow : lookupSource nodes wires gf = some look := by
      rw [lookupSource, inboundNodes_into, show gf.id = lo + 1 from rfl, hgfwires]
      simp [mkWire, look, hlook, mkNode]
    have hpath : gf.fields.text (js "path") = q.select := rfl
    -- only the Contains has a clause, and it is the whole provider
    have hclause : compileNode nodes wires contains = .provider (rowDoc q) := by
      change compileContains nodes wires contains = _
      simp only [compileContains, hsource, hrow, hpath, hselect]
      rfl
    have hout : ∀ j, lo ≤ j → j < lo + 3 → j ∉ seen := by
      intro j hlo hhi hmem
      have h := hseen j hmem
      omega
    have hnewgf : lo + 1 ∉ seen ++ [lo + 2] := by
      rw [List.mem_append, not_or, List.mem_singleton]
      exact ⟨hout _ (by omega) (by omega), by omega⟩
    have hnewlook : lo ∉ seen ++ [lo + 2] ++ [lo + 1] := by
      rw [List.mem_append, not_or, List.mem_append, not_or, List.mem_singleton,
        List.mem_singleton]
      exact ⟨⟨hout _ le_rfl (by omega), by omega⟩, by omega⟩
    -- so the walk goes down from the Contains to the transaction, which was seen before
    refine ⟨[lo + 2, lo + 1, lo], ?_, ?_, fun d => ?_⟩
    · have hroot : txn.id ∈ seen ++ [lo + 2] ++ [lo + 1] ++ [lo] := by
        rw [htxn]
        exact List.mem_append_left _ (List.mem_append_left _ (List.mem_append_left _
          (hroots _ (by simp))))
      have hfirst := walk_single stack (hout (lo + 2) (by omega) (by omega))
        hcontainswires
      have hsecond := walk_single stack hnewgf hgfwires
      have hthird := walk_single stack hnewlook hlookwires
      refine hfirst.trans (hsecond.trans (hthird.trans ?_))
      rw [show (mkWire txn (js "tx") look (js "tx")).fromPort.node = txn.id from rfl,
        Walk.walk_seen hroot]
      simp only [List.append_assoc]
      rfl
    · intro i hi
      simp only [List.mem_cons, List.not_mem_nil, or_false] at hi
      omega
    · rw [collect_cons hcontains, collect_cons hgf, collect_cons hlook, hclause]
      rfl

/-- **The providers of a rule, compiled.** Each gets a Lookup and a Contains of its own; an
operator that the editor does not know is shown with a warning instead. -/
theorem providersNodes_compiles {docs : List Json} {qs : List TableRowProvider} {root : ℕ}
    (h : List.Forall₂ (fun d q => Schema.provider xprDialect d = some q) docs qs)
    (hop : ∀ q ∈ qs, q.op = .contains) (htxn : txn.id = 1) :
    ∀ {lo : ℕ} {y : ℚ}, policyId < lo →
      (providersNodes txn label lo y docs).1.Compiles lo [1, root]
        (qs.map fun q => .provider (rowDoc q)) := by
  induction h with
  | nil => exact fun hlow => .empty hlow
  | @cons d q docs qs hdq _ ih =>
    intro lo y hlow
    have hrest := @ih fun r hr => hop r (List.mem_cons_of_mem q hr)
    obtain ⟨-, p, ms, rfl, -, -, -, hselect, -, -⟩ := Schema.provider_iff.1 hdq
    obtain ⟨sel, -, hpattern⟩ := Schema.required_some hselect
    rw [providersNodes, providerNodes_row lo y hdq (hop q (List.mem_cons_self ..))]
    exact (lookupPart_compiles hlow htxn (Schema.pattern_eq hpattern).2 root).append
      (hrest (by omega))

theorem providersNodes_contains {docs : List Json} {qs : List TableRowProvider}
    (h : List.Forall₂ (fun d q => Schema.provider xprDialect d = some q) docs qs) :
    ∀ {lo : ℕ} {y : ℚ}, (providersNodes txn label lo y docs).1.warnings = [] →
      ∀ q ∈ qs, q.op = .contains := by
  induction h with
  | nil => simp
  | cons hdq _ ih =>
    intro lo y hwarn r hr
    rw [providersNodes] at hwarn
    simp only [Sketch.append_warnings, List.append_eq_nil_iff] at hwarn
    rcases List.mem_cons.1 hr with rfl | hr
    · exact providerNodes_contains hdq hwarn.1
    · exact ih hwarn.2 r hr

end Signbox
