import Signbox.Proof.Assigned
import Signbox.Spec.Compile

/-!
# What the compiler leaves out

A rule is left out when a node of its cone drops it, or when nothing puts an entry into its
`match`. A node without a declarative form that only warns drops nothing: the rule comes out
without the node's condition.

* `mem_coneOf`: the cone of a node is what feeds it along the wires.
* `compileNode_dropped`, `compileNode_field`: the two clauses that decide, read off the graph.
* `unbounded_left_out`: exactly when an allow decision over a node without a declarative form
  gets no rule.
* `LessThan.compiled_without`: a Compare with `lt` under an allow decision that gets one.
-/

namespace Signbox

variable {nodes : List GraphNode} {wires : List Wire} {n : GraphNode} {id : ℕ}

/-! ## Cones -/

/-- A path of wires, of any length. It is what the walk of the editor follows. -/
def Feeds (wires : List Wire) : ℕ → ℕ → Prop :=
  Relation.ReflTransGen fun a b => ∃ w ∈ wires, w.fromPort.node = a ∧ w.toPort.node = b

/-- The walk along the wires reaches what they feed, -/
theorem reach_forward {a b : ℕ} :
    Walk.Reach (wires.map fun w => (w.fromPort.node, w.toPort.node)) a b ↔ Feeds wires a b := by
  have hstep : (fun x y => (x, y) ∈ wires.map fun w => (w.fromPort.node, w.toPort.node)) =
      fun a b => ∃ w ∈ wires, w.fromPort.node = a ∧ w.toPort.node = b := by
    funext x y
    simp
  rw [Walk.Reach, Feeds, hstep]

/-- and the walk against them reaches what feeds a node. -/
theorem reach_backward {a b : ℕ} :
    Walk.Reach (wires.map fun w => (w.toPort.node, w.fromPort.node)) a b ↔ Feeds wires b a := by
  have hstep : (fun x y => (x, y) ∈ wires.map fun w => (w.toPort.node, w.fromPort.node)) =
      Function.swap fun a b => ∃ w ∈ wires, w.fromPort.node = a ∧ w.toPort.node = b := by
    funext x y
    simp [Function.swap, and_comm]
  rw [Walk.Reach, Feeds, hstep, Relation.reflTransGen_swap]

/-- The nodes upstream of another are those that feed it. -/
theorem mem_upstream {a b : ℕ} : a ∈ upstream wires b ↔ Feeds wires a b := by
  rw [upstream, Walk.mem_walk, reach_backward]

/-- The compiler's reachability is that relation. -/
theorem reaches_iff {a b : ℕ} : reaches wires a b = true ↔ Feeds wires a b := by
  rw [reaches, Walk.search_iff, reach_forward]

/-- What is found under an id has that id. -/
theorem nodeById_id (h : nodeById nodes id = some n) : n.id = id := by
  have hid := List.find?_some h
  simpa using hid

/-- The cone of a decision holds the nodes that feed it, each found under its own id. -/
theorem mem_coneOf : n ∈ coneOf nodes wires id ↔
    nodeById nodes n.id = some n ∧ Feeds wires n.id id := by
  rw [coneOf, List.mem_filterMap]
  constructor
  · rintro ⟨a, ha, hn⟩
    have hid := nodeById_id hn
    rw [hid]
    exact ⟨hn, mem_upstream.1 ha⟩
  · rintro ⟨hn, hfeeds⟩
    exact ⟨n.id, mem_upstream.2 hfeeds, hn⟩

/-- The decisions of a policy are those that feed it. -/
theorem mem_decisionsOf {policyNode decision : GraphNode} :
    decision ∈ decisionsOf nodes wires policyNode ↔ decision ∈ nodes ∧
      decision.type = .decision ∧ Feeds wires decision.id policyNode.id := by
  rw [decisionsOf, List.mem_insertionSort, List.mem_filter, Bool.and_eq_true, decide_eq_true_eq,
    reaches_iff]

/-! ## The clause of a node -/

variable (nodes wires)

/-- The Get Field wired into a node reads a path of the daemon's vocabulary, so the condition can
be put into `match`. -/
def ReadsPath (n : GraphNode) : Prop :=
  ∃ src, fieldSource nodes wires n = some src ∧
    MATCH_PATH_PATTERN (src.fields.text (js "path")) = true

/-- The Get Field wired into a node reads another path. -/
def ReadsBadPath (n : GraphNode) : Prop :=
  ∃ src, fieldSource nodes wires n = some src ∧
    MATCH_PATH_PATTERN (src.fields.text (js "path")) = false

/-- A Lookup and a Get Field on its row are wired into a node, and the daemon can enforce the
lookup (`ok`) or not. -/
def ReadsRow (n : GraphNode) (ok : Bool) : Prop :=
  ∃ gf lk, fieldSource nodes wires n = some gf ∧ lookupSource nodes wires gf = some lk ∧
    (!lk.fields.isText (js "mode") (js "http") &&
      SELECT_FIELD_PATTERN (gf.fields.text (js "path"))) = ok

/-- The operators with a bounded form. -/
def boundedOps : List JsString := [js "eq", js "lte", js "gte"]

/-- **A node without a bounded declarative form**: the engine could not evaluate it as a rule, so
the compiler is to warn and not to approximate. -/
def Unbounded (n : GraphNode) : Prop :=
  match n.type with
  | .compare => n.fields.text (js "op") ∉ boundedOps ∨ ¬ ReadsPath nodes wires n
  | .inlist => ¬ ReadsPath nodes wires n
  | .contains => ¬ ReadsRow nodes wires n true
  | .boolor | .boolnot => True
  | .lookup => n.fields.isText (js "mode") (js "http") = true
  | _ => False

/-- The nodes that drop the rule: those that read a path or a row which the daemon could not. -/
def Rejects (n : GraphNode) : Prop :=
  match n.type with
  | .compare | .inlist => ReadsBadPath nodes wires n
  | .contains => ReadsRow nodes wires n false
  | _ => False

/-- The nodes that put an entry into `match`: a bounded comparison, or a list. -/
def Constrains (n : GraphNode) : Prop :=
  match n.type with
  | .compare => n.fields.text (js "op") ∈ boundedOps ∧ ReadsPath nodes wires n
  | .inlist => ReadsPath nodes wires n
  | _ => False

variable {nodes wires}

/-- A node drops its rule exactly when it has no bounded form. -/
theorem compileNode_dropped :
    (∃ w, compileNode nodes wires n = .dropped w) ↔ Rejects nodes wires n := by
  unfold compileNode Rejects
  cases htype : n.type
  case compare =>
    cases hsrc : fieldSource nodes wires n with
    | none => simp [compileCompare, ReadsBadPath, hsrc]
    | some src =>
      simp only [compileCompare, ReadsBadPath, hsrc, Option.some.injEq, exists_eq_left']
      cases hpath : MATCH_PATH_PATTERN (src.fields.text (js "path")) with
      | false => simp
      | true =>
        simp only [not_true_eq_false, if_false]
        split_ifs <;> simp
  case inlist =>
    cases hsrc : fieldSource nodes wires n with
    | none => simp [compileInList, ReadsBadPath, hsrc]
    | some src =>
      simp only [compileInList, ReadsBadPath, hsrc, Option.some.injEq, exists_eq_left']
      cases hpath : MATCH_PATH_PATTERN (src.fields.text (js "path")) with
      | false => simp
      | true =>
        simp only [not_true_eq_false, if_false]
        split_ifs <;> simp
  case contains =>
    cases hgf : fieldSource nodes wires n with
    | none => simp [compileContains, ReadsRow, hgf]
    | some gf =>
      cases hlk : lookupSource nodes wires gf with
      | none => simp [compileContains, ReadsRow, hgf, hlk]
      | some lk =>
        simp only [compileContains, ReadsRow, hgf, hlk, Option.some.injEq, exists_and_left,
          exists_eq_left']
        cases hhttp : lk.fields.isText (js "mode") (js "http") <;>
          cases hselect : SELECT_FIELD_PATTERN (gf.fields.text (js "path")) <;> simp
  all_goals simp

/-- A node adds to the match exactly when it has one on a field. -/
theorem compileNode_field :
    (∃ path v, compileNode nodes wires n = .field path v) ↔ Constrains nodes wires n := by
  unfold compileNode Constrains
  cases htype : n.type
  case compare =>
    cases hsrc : fieldSource nodes wires n with
    | none => simp [compileCompare, ReadsPath, hsrc]
    | some src =>
      simp only [compileCompare, ReadsPath, hsrc, Option.some.injEq, exists_eq_left', boundedOps,
        List.mem_cons, List.not_mem_nil, or_false]
      cases hpath : MATCH_PATH_PATTERN (src.fields.text (js "path")) with
      | false => simp
      | true =>
        simp only [not_true_eq_false, if_false, and_true]
        split_ifs with heq hlte hgte <;> simp [*]
  case inlist =>
    cases hsrc : fieldSource nodes wires n with
    | none => simp [compileInList, ReadsPath, hsrc]
    | some src =>
      simp only [compileInList, ReadsPath, hsrc, Option.some.injEq, exists_eq_left']
      cases hpath : MATCH_PATH_PATTERN (src.fields.text (js "path")) with
      | false => simp
      | true =>
        simp only [not_true_eq_false, if_false, iff_true]
        split_ifs
        · exact ⟨_, _, rfl⟩
        · exact ⟨_, _, rfl⟩
  case contains =>
    cases hgf : fieldSource nodes wires n with
    | none => simp [compileContains, hgf]
    | some gf =>
      cases hlk : lookupSource nodes wires gf with
      | none => simp [compileContains, hgf, hlk]
      | some lk =>
        simp only [compileContains, hgf, hlk]
        split_ifs <;> simp
  all_goals simp

/-! ## The rule of a decision -/

/-- A draft is dropped once any clause drops it, -/
theorem add_drop (d : Draft) (c : Clause) :
    (d.add c).drop = true ↔ d.drop = true ∨ ∃ w, c = .dropped w := by
  cases c <;> simp [Draft.add]

/-- and has a match once any clause adds to it. -/
theorem add_matchOn (d : Draft) (c : Clause) :
    (d.add c).matchOn = [] ↔ d.matchOn = [] ∧ ¬ ∃ path v, c = .field path v := by
  cases c <;> simp [Draft.add, mapSet_ne_nil]

/-- So over a whole cone the rule is dropped exactly when one of the nodes rejects it, -/
theorem foldl_drop (l : List GraphNode) (d : Draft) :
    (l.foldl (fun d n => d.add (compileNode nodes wires n)) d).drop = true ↔
      d.drop = true ∨ ∃ n ∈ l, Rejects nodes wires n := by
  induction l generalizing d with
  | nil => simp
  | cons m l ih =>
    rw [List.foldl_cons, ih, add_drop, compileNode_dropped, List.exists_mem_cons_iff, or_assoc]

/-- and its match is empty exactly when none of them constrains it. -/
theorem foldl_matchOn (l : List GraphNode) (d : Draft) :
    (l.foldl (fun d n => d.add (compileNode nodes wires n)) d).matchOn = [] ↔
      d.matchOn = [] ∧ ∀ n ∈ l, ¬ Constrains nodes wires n := by
  induction l generalizing d with
  | nil => simp
  | cons m l ih =>
    rw [List.foldl_cons, ih, add_matchOn, compileNode_field, List.forall_mem_cons, and_assoc]

/-- The Route If of a decision names a contract or an action, which then is in `match`. -/
def Routed (nodes : List GraphNode) (wires : List Wire) (id : ℕ) : Prop :=
  ∃ r, routeOf nodes wires id = some r ∧
    ((r.fields.truthy (js "contract")).isSome ∨ (r.fields.truthy (js "action")).isSome)

/-- The route adds nothing exactly when it is not set. -/
theorem routeMatch_nil : routeMatch (routeOf nodes wires id) = [] ↔ ¬ Routed nodes wires id := by
  unfold Routed
  cases hroute : routeOf nodes wires id with
  | none => simp [routeMatch]
  | some r =>
    cases hc : r.fields.truthy (js "contract") <;>
      cases ha : r.fields.truthy (js "action") <;> simp [routeMatch, hc, ha]

/-- **When a decision gets no rule**: a node of its cone drops it, or its `match` is empty, because
neither its route nor any node of the cone puts an entry into it. -/
theorem compileDecision_none {decision : GraphNode} :
    (compileDecision nodes wires decision).1 = none ↔
      (∃ n ∈ coneOf nodes wires decision.id, Rejects nodes wires n) ∨
        ¬ Routed nodes wires decision.id ∧
          ∀ n ∈ coneOf nodes wires decision.id, ¬ Constrains nodes wires n := by
  have hdrop : (compileRule nodes wires decision).2.2 = true ↔
      ∃ n ∈ coneOf nodes wires decision.id, Rejects nodes wires n := by
    refine (foldl_drop _ _).trans ?_
    simp
  have hmatch : (compileRule nodes wires decision).1.matchOn = [] ↔
      ¬ Routed nodes wires decision.id ∧
        ∀ n ∈ coneOf nodes wires decision.id, ¬ Constrains nodes wires n := by
    refine (foldl_matchOn _ _).trans ?_
    rw [routeMatch_nil]
  rw [← hdrop, ← hmatch]
  unfold compileDecision
  cases hd : (compileRule nodes wires decision).2.2 with
  | true => simp [hd]
  | false =>
    cases hm : (compileRule nodes wires decision).1.matchOn with
    | nil => simp [hd, hm]
    | cons m ms => simp [hd, hm]

/-- A decision without a compiled rule is one that the compiler left out. -/
theorem no_compiledRule {policyNode decision : GraphNode}
    (h : decision ∈ decisionsOf nodes wires policyNode) :
    (∀ rule, (decision, rule) ∉ compiledRules nodes wires policyNode) ↔
      (compileDecision nodes wires decision).1 = none := by
  unfold compiledRules
  constructor
  · intro hnone
    cases hrule : (compileDecision nodes wires decision).1 with
    | none => rfl
    | some rule =>
      refine absurd (List.mem_filterMap.2 ⟨decision, h, ?_⟩) (hnone rule)
      rw [hrule]
      rfl
  · intro hnone rule hmem
    obtain ⟨dn, -, hdn⟩ := List.mem_filterMap.1 hmem
    obtain ⟨rule', hrule', heq⟩ := Option.map_eq_some_iff.1 hdn
    rw [Prod.mk.injEq] at heq
    rw [heq.1, hnone] at hrule'
    simp at hrule'

/-- **Fail-closed authoring.** Over a node without a declarative form, an allow decision that
reaches the policy node gets no rule exactly when a node of its cone drops the rule or nothing
puts an entry into its `match`. -/
theorem unbounded_left_out {chainId : JsString} {policyNode decision : GraphNode}
    {result : CompileResult} (hpolicy : nodes.find? (fun n => n.type = .policy) = some policyNode)
    (hmem : decision ∈ nodes) (htype : decision.type = .decision)
    (_ : decision.fields.isText (js "effect") (js "allow") = true)
    (hreach : Feeds wires decision.id policyNode.id)
    (_ : ∃ n, nodeById nodes n.id = some n ∧ Feeds wires n.id decision.id ∧
      Unbounded nodes wires n)
    (hresult : compilePolicy nodes wires chainId = some result) :
    result.policy.rules = (compiledRules nodes wires policyNode).map Prod.snd ∧
      ((∀ rule, (decision, rule) ∉ compiledRules nodes wires policyNode) ↔
        (∃ n ∈ coneOf nodes wires decision.id, Rejects nodes wires n) ∨
          ¬ Routed nodes wires decision.id ∧
            ∀ n ∈ coneOf nodes wires decision.id, ¬ Constrains nodes wires n) := by
  rw [compilePolicy, hpolicy, Option.map_some, Option.some.injEq] at hresult
  refine ⟨by rw [← hresult], ?_⟩
  rw [no_compiledRule (mem_decisionsOf.2 ⟨hmem, htype, hreach⟩), compileDecision_none]

/-! ## An amount bound -/

namespace LessThan

/-- A node at the origin. -/
def node (id : ℕ) (type : NodeType) (fields : Fields) : GraphNode :=
  ⟨id, type, 0, 0, type.defaults.spread fields⟩

/-- A wire between two ports. -/
def wire (a : ℕ) (out : String) (b : ℕ) (port : String) : Wire := ⟨⟨a, js out⟩, ⟨b, js port⟩⟩

/-- The decision of the example, -/
def decision : GraphNode := node 5 .decision []

/-- its policy -/
def policy : GraphNode := node 6 .policy []

/-- A Compare of the field `path` with `1.0000`. -/
def compare (op : String) : GraphNode := node 4 .compare [(js "op", .str (js op))]

/-- Transfers of `eosio.token` are allowed when the comparison holds. -/
def graph (path op : String) : List GraphNode :=
  [node 1 .transaction [], node 2 .routeif [], node 3 .getfield [(js "path", .str (js path))],
    compare op, decision, policy]

/-- and its wires. -/
def links : List Wire :=
  [wire 1 "tx" 2 "tx", wire 2 "out" 3 "in", wire 3 "out" 4 "a", wire 4 "out" 5 "cond",
    wire 2 "out" 5 "tx", wire 5 "out" 6 "in"]

/-- **A condition left out.** The comparison `lt` has no declarative form, yet the decision gets
a rule, which allows every transfer. -/
theorem compiled_without :
    decision ∈ decisionsOf (graph "data.quantity.amount" "lt") links policy ∧
      decision.fields.isText (js "effect") (js "allow") = true ∧
      compare "lt" ∈ coneOf (graph "data.quantity.amount" "lt") links decision.id ∧
      Unbounded (graph "data.quantity.amount" "lt") links (compare "lt") ∧
      ∃ rule, (decision, rule) ∈ compiledRules (graph "data.quantity.amount" "lt") links policy ∧
        rule.effect = js "allow" ∧ rule.matchOn = [(js "contract", .str (js "eosio.token")),
          (js "action", .str (js "transfer"))] := by
  refine ⟨by decide, by decide, by decide, Or.inl (by decide), ⟨js "allow-eosio-token-transfer",
    js "allow", _, none, none⟩, List.mem_filterMap.2 ⟨decision, by decide, ?_⟩, rfl, rfl⟩
  rfl

/-- A memo compared with a bound leaves its decision out of the policy. -/
theorem unbounded_left_out_path :
    ¬ ∃ rule, (decision, rule) ∈ compiledRules (graph "memo" "lt") links policy := by
  have hresult : compilePolicy (graph "memo" "lt") links [] = some _ := rfl
  have hleft := (@unbounded_left_out (graph "memo" "lt") links [] policy decision _ rfl (by decide)
    rfl (by decide) (reaches_iff.1 (by decide)) ⟨compare "lt", by decide,
      reaches_iff.1 (by decide), Or.inl (by decide)⟩ hresult).2.2
        (Or.inl ⟨compare "lt", by decide, ⟨node 3 .getfield [(js "path", .str (js "memo"))],
          by decide, by decide⟩⟩)
  rintro ⟨rule, hmem⟩
  exact hleft rule hmem

end LessThan

end Signbox
