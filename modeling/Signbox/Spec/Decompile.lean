import Signbox.Spec.Graph
import Signbox.Spec.Number
import Signbox.Spec.Text

/-!
# Decompiling a policy to a graph

`web/src/editor/decompile.ts`, the inverse of the compiler: every rule becomes a band of nodes
between the transaction and the policy. What the node set cannot represent is reported as a
warning and left out. The documents are those of the policy schema. Nodes are numbered in the
order they are added, so a part of the graph takes the id of its first node.
-/

namespace Signbox

/-- A member of an object. -/
def Json.get (v : Json) (key : JsString) : Option Json := v.members?.bind fun ms => ms.lookup key

/-- A string member, or what `??` puts in its place. -/
def Json.getText (v : Json) (key default : JsString) : JsString :=
  ((v.get key).bind Json.str?).getD default

/-- An array member, or none of its items. -/
def Json.getList (v : Json) (key : JsString) : List Json :=
  match v.get key with
  | some (.arr items) => items
  | _ => []

/-- `String(value)`, of a value that has one. -/
def Json.string (v : Json) : JsString :=
  match v.toText with
  | .ok s => s
  | .error _ => []

def FIELD_PATHS : List JsString :=
  [js "contract", js "action", js "data.from", js "data.to", js "data.quantity.amount",
    js "data.quantity.symbol"]

/-- What one step of `decompilePolicy` adds, and the condition nodes among it. The conditions are
joined at the decision of the rule. -/
structure Sketch where
  nodes : List GraphNode
  wires : List Wire
  bools : List GraphNode
  warnings : List JsString

namespace Sketch

def empty : Sketch := ⟨[], [], [], []⟩

def append (a b : Sketch) : Sketch :=
  ⟨a.nodes ++ b.nodes, a.wires ++ b.wires, a.bools ++ b.bools, a.warnings ++ b.warnings⟩

end Sketch

def mkNode (id : ℕ) (type : NodeType) (x y : ℚ) (fields : Fields) : GraphNode :=
  ⟨id, type, x, y, type.defaults.spread fields⟩

def mkWire (src : GraphNode) (fromKey : JsString) (dst : GraphNode) (toKey : JsString) : Wire :=
  ⟨⟨src.id, fromKey⟩, ⟨dst.id, toKey⟩⟩

/-! ## Conditions -/

/-- `[...].join(", ")`. -/
def joinList (items : List Json) : JsString :=
  match joinItems items with
  | .ok texts => JsString.join (js ", ") texts
  | .error _ => []

/-- The condition node of one match value: a Compare or an In List on the field, or a warning where
there is no such node. -/
def matchCondition (gf : GraphNode) (spec : Json) (id : ℕ) (y : ℚ) (label path : JsString) :
    Sketch :=
  let condition (type : NodeType) (fields : Fields) : Sketch :=
    let cond := mkNode id type 700 y fields
    ⟨[cond], [mkWire gf (js "out") cond (js "a")], [cond], []⟩
  let compare (op value : JsString) : Sketch :=
    condition .compare [(js "op", .str op), (js "value", .str value)]
  let inlist (mode : JsString) (items : List Json) : Sketch :=
    condition .inlist [(js "mode", .str mode), (js "list", .str (joinList items))]
  let warned : Sketch :=
    ⟨[], [], [], [label ++ js ": operator on “" ++ path ++ js "” isn't representable → skipped"]⟩
  match spec with
  | .str s => compare (js "eq") s
  | .obj _ o =>
    let text (op : JsString) : Option JsString := (o.lookup op).bind Json.str?
    match text (js "eq"), text (js "lte"), text (js "gte") with
    | some s, _, _ => compare (js "eq") s
    | none, some s, _ => compare (js "lte") s
    | none, none, some s => compare (js "gte") s
    | none, none, none =>
      match o.lookup (js "in"), o.lookup (js "notIn") with
      | some (.arr items), _ => inlist (js "in") items
      | _, some (.arr items) => inlist (js "notin") items
      | _, _ => warned
  | _ => warned

/-- One entry of `match`, and whether it takes room in the band. The contract and the action are
fields of the Route If. -/
def matchField (routeif : GraphNode) (label : JsString) (id : ℕ) (y : ℚ)
    (entry : JsString × Json) : Sketch × Bool :=
  let (path, spec) := entry
  if path = js "contract" ∨ path = js "action" then (.empty, false)
  else if path ∉ FIELD_PATHS then
    (⟨[], [], [], [label ++ js ": match path “" ++ path ++
      js "” isn't representable in the editor → skipped"]⟩, false)
  else
    let gf := mkNode id .getfield 470 y [(js "path", .str path)]
    (Sketch.append ⟨[gf], [mkWire routeif (js "out") gf (js "in")], [], []⟩
      (matchCondition gf spec (id + 1) y label path), true)

/-- The loop over `match`, from the first free id and the first free height. -/
def matchFields (routeif : GraphNode) (label : JsString) :
    ℕ → ℚ → List (JsString × Json) → Sketch × ℚ
  | _, y, [] => (.empty, y)
  | id, y, entry :: entries =>
    let (part, placed) := matchField routeif label id y entry
    let (rest, y') := matchFields routeif label (id + part.nodes.length)
      (if placed then y + 90 else y) entries
    (part.append rest, y')

/-- One provider: a lookup, a field of its row and a Contains. What it does not name is filled in
with the defaults of the nodes. -/
def providerNodes (txn : GraphNode) (label : JsString) (id : ℕ) (y : ℚ) (p : Json) :
    Sketch × Bool :=
  let name := (p.get (js "provider")).bind Json.str?
  let op := (p.get (js "op")).bind Json.str?
  if name ≠ some (js "xpr.rpc.tableRow") ∨ op ≠ some (js "contains") then
    (⟨[], [], [], [label ++ js ": provider “" ++ name.getD (js "undefined") ++ js "/" ++
      op.getD (js "undefined") ++ js "” isn't representable → skipped"]⟩, false)
  else
    let args := (p.get (js "args")).getD .null
    let look := mkNode id .lookup 240 (y + 40) [(js "provider", .str (js "xpr.rpc.tableRow")),
      (js "contract",
        .str (args.getText (js "contract") (args.getText (js "scope") (js "whitelister")))),
      (js "table", .str (args.getText (js "table") (js "lists"))),
      (js "key", .str (args.getText (js "key") (js "$agent")))]
    let gf := mkNode (id + 1) .getfield 470 (y + 40)
      [(js "path", .str (p.getText (js "select") (js "allowed")))]
    let contains := mkNode (id + 2) .contains 700 (y + 40)
      [(js "value", .str (p.getText (js "value") (js "$data.to")))]
    (⟨[look, gf, contains],
      [mkWire txn (js "tx") look (js "tx"), mkWire look (js "out") gf (js "in"),
        mkWire gf (js "out") contains (js "a")], [contains], []⟩, true)

/-- The loop over `providers`. -/
def providersNodes (txn : GraphNode) (label : JsString) :
    ℕ → ℚ → List Json → Sketch × ℚ
  | _, y, [] => (.empty, y)
  | id, y, p :: ps =>
    let (part, placed) := providerNodes txn label id y p
    let (rest, y') := providersNodes txn label (id + part.nodes.length)
      (if placed then y + 130 else y) ps
    (part.append rest, y')

/-! ## Decisions -/

def supportedLimits : List JsString :=
  [js "maxPerTransaction", js "cooldownPerRecipientMs", js "maxCountPerRecipientPerHour",
    js "maxCountPerHour", js "maxCountPerDay"]

/-- A number among the limits. -/
def limitNumber (limits : List (JsString × Json)) (key : JsString) : Option JsNumber :=
  match limits.lookup key with
  | some (.num n) => some n
  | _ => none

/-- The limits a Decision can carry. The three counts share one widget, so only the first of them
is carried. -/
def limitFields (limits : List (JsString × Json)) : Fields :=
  let cap : Fields :=
    match limits.lookup (js "maxPerTransaction") with
    | some (.str s) => [(js "maxPerTx", .str s)]
    | _ => []
  let cooldown : Fields :=
    match limitNumber limits (js "cooldownPerRecipientMs") with
    | some n => [(js "cooldownH", .str (n.toDouble.divBy 3600000).toText)]
    | none => []
  let rate (n : JsNumber) (perRecipient : Bool) (period : JsString) : Fields :=
    [(js "rlCount", .str n.toText), (js "rlPerRecipient", .bool perRecipient),
      (js "rlPeriod", .str period)]
  let count : Fields :=
    match limitNumber limits (js "maxCountPerRecipientPerHour"),
        limitNumber limits (js "maxCountPerDay"), limitNumber limits (js "maxCountPerHour") with
    | some n, _, _ => rate n true (js "hour")
    | none, some n, _ => rate n false (js "day")
    | none, none, some n => rate n false (js "hour")
    | none, none, none => []
  cap ++ cooldown ++ count

/-- `decisionFields`: the fields, and a warning for each limit without a widget. Such a limit is
not in the graph. -/
def decisionFields (rule : Json) (label : JsString) : Fields × List JsString :=
  let limits := ((rule.get (js "limits")).bind Json.members?).getD []
  let effect := if rule.getText (js "effect") [] = js "deny" then js "deny" else js "allow"
  let carried := limitFields limits
  ([(js "effect", .str effect)] ++ carried ++ [(js "useLimit", .bool (decide (carried ≠ [])))],
    (limits.filter fun m => m.1 ∉ supportedLimits).map fun m =>
      label ++ js ": limit “" ++ m.1 ++ js "” isn't representable in the editor → kept off-graph")

/-! ## Rules -/

/-- A string member of `match`, or the default of the Route If. No warning says that the default
was taken. -/
def routeText (entries : List (JsString × Json)) (key default : JsString) : JsString :=
  ((entries.lookup key).bind Json.str?).getD default

/-- Join the conditions of a rule at its decision: none, the one itself, or an And of all of
them. -/
def joinConditions (bools : List GraphNode) (decision : GraphNode) (y : ℚ) : Sketch :=
  match bools with
  | [] => .empty
  | [b] => ⟨[], [mkWire b (js "out") decision (js "cond")], [], []⟩
  | bs =>
    let conj := mkNode (decision.id + 1) .booland 920 y []
    ⟨[conj], bs.map (fun b => mkWire b (js "out") conj (js "in")) ++
      [mkWire conj (js "out") decision (js "cond")], [], []⟩

/-- The band of one rule, whose first node gets `id`. A rule with an empty match would apply to
everything, and gets none. -/
def ruleBand (txn policyNode : GraphNode) (id ri : ℕ) (rule : Json) : Sketch :=
  let baseY : ℚ := 40 + ri * 300
  let entries := ((rule.get (js "match")).bind Json.members?).getD []
  let label := rule.getText (js "id") (js "rule " ++ digitsOf (ri + 1))
  if entries = [] then
    ⟨[], [], [], [label ++ js (": empty match (would apply to every action) → dropped; add a " ++
      "Route If or a condition if this rule was intended")]⟩
  else
    let routeif := mkNode id .routeif 240 baseY
      [(js "contract", .str (routeText entries (js "contract") (js "eosio.token"))),
        (js "action", .str (routeText entries (js "action") (js "transfer")))]
    let (fields, y) := matchFields routeif label (id + 1) (baseY + 40) entries
    let (lookups, y) := providersNodes txn label (id + 1 + fields.nodes.length) y
      (rule.getList (js "providers"))
    let (carried, limitWarnings) := decisionFields rule label
    let decision :=
      mkNode (id + 1 + fields.nodes.length + lookups.nodes.length) .decision 1130 baseY carried
    let conditions := fields.append lookups
    let join := joinConditions conditions.bools decision (baseY + (y - baseY) / 2)
    ⟨[routeif] ++ conditions.nodes ++ [decision] ++ join.nodes,
      [mkWire txn (js "tx") routeif (js "tx")] ++ conditions.wires ++ join.wires ++
        [mkWire routeif (js "out") decision (js "tx"),
          mkWire decision (js "out") policyNode (js "in")],
      [], conditions.warnings ++ limitWarnings⟩

/-- The loop over the rules. -/
def ruleBands (txn policyNode : GraphNode) : ℕ → ℕ → List Json → Sketch
  | _, _, [] => .empty
  | id, ri, rule :: rules =>
    let band := ruleBand txn policyNode id ri rule
    band.append (ruleBands txn policyNode (id + band.nodes.length) (ri + 1) rules)

/-! ## Policies -/

structure DecompileResult where
  nodes : List GraphNode
  wires : List Wire
  warnings : List JsString

def transactionNode : GraphNode := mkNode 1 .transaction 20 300 []

def policyNodeOf (policy : Json) : GraphNode :=
  mkNode 2 .policy 1370 300
    [(js "default", .str (if policy.getText (js "default") [] = js "allow" then js "allow"
        else js "deny")),
      (js "maxActions", .str (((policy.get (js "maxActionsPerTransaction")).map Json.string).getD
        (js "1")))]

def decompileDocument (policy : Json) : DecompileResult :=
  let policyNode := policyNodeOf policy
  let bands := ruleBands transactionNode policyNode 3 0 (policy.getList (js "rules"))
  ⟨[transactionNode, policyNode] ++ bands.nodes, bands.wires, bands.warnings⟩

/-- `decompilePolicy`; `none` where it throws, which is where the text is not JSON. -/
def decompilePolicy (nearest : Decimal → JsNumber) (policyJson : JsString) :
    Option DecompileResult :=
  (Json.parse nearest policyJson).map decompileDocument

end Signbox
