import Signbox.Guard.Walk
import Signbox.Spec.Nonce
import Mathlib.Data.Rat.Defs

/-!
# Editor graphs

`web/src/editor/types.ts`, the default fields of `nodeSpecs.ts` and the graph functions of
`eval.ts`: the nodes and wires a policy is authored with.
-/

namespace Signbox

inductive NodeType where
  | transaction
  | routeif
  | getfield
  | constant
  | compare
  | inlist
  | contains
  | booland
  | boolor
  | boolnot
  | lookup
  | decision
  | aggregate
  | policy
  deriving DecidableEq

/-- Node field values are all strings or booleans. -/
inductive FieldValue where
  | str (s : JsString)
  | bool (b : Bool)
  deriving DecidableEq

/-- `String(value)`. -/
def FieldValue.toText : FieldValue → JsString
  | .str s => s
  | .bool b => if b then js "true" else js "false"

def FieldValue.toJson : FieldValue → Json
  | .str s => .str s
  | .bool b => .bool b

/-- `Record<string, string | boolean>`. -/
abbrev Fields := List (JsString × FieldValue)

namespace Fields

/-- `String(fields[key])`. -/
def text (f : Fields) (key : JsString) : JsString :=
  match f.lookup key with
  | some v => v.toText
  | none => js "undefined"

/-- `String(fields[key] ?? "")`. -/
def textOrEmpty (f : Fields) (key : JsString) : JsString :=
  match f.lookup key with
  | some v => v.toText
  | none => []

/-- The field, where it is truthy. -/
def truthy (f : Fields) (key : JsString) : Option FieldValue :=
  match f.lookup key with
  | some (.str (u :: us)) => some (.str (u :: us))
  | some (.bool true) => some (.bool true)
  | _ => none

/-- `fields[key] === value`. -/
def isText (f : Fields) (key value : JsString) : Bool := f.lookup key = some (.str value)

/-- `fields[key] === true`. -/
def isTrue (f : Fields) (key : JsString) : Bool := f.lookup key = some (.bool true)

/-- `{ ...f, ...g }`. -/
def spread (f g : Fields) : Fields := g.foldl (fun acc m => mapSet m.1 m.2 acc) f

end Fields

structure GraphNode where
  id : ℕ
  type : NodeType
  x : ℚ
  y : ℚ
  fields : Fields
  deriving DecidableEq

structure PortRef where
  node : ℕ
  key : JsString
  deriving DecidableEq

/-- A wire, from an out port to an in port. -/
structure Wire where
  fromPort : PortRef
  toPort : PortRef
  deriving DecidableEq

/-! ## `SPECS[type].defaults()` -/

def NodeType.defaults : NodeType → Fields
  | .transaction | .booland | .boolor | .boolnot => []
  | .routeif => [(js "contract", .str (js "eosio.token")), (js "action", .str (js "transfer"))]
  | .getfield => [(js "path", .str (js "data.quantity.amount"))]
  | .constant => [(js "value", .str (js "1.0000"))]
  | .compare => [(js "op", .str (js "lte")), (js "value", .str (js "1.0000"))]
  | .inlist => [(js "mode", .str (js "in")), (js "list", .str (js "alice, bob"))]
  | .contains => [(js "value", .str (js "$data.to"))]
  | .lookup => [(js "provider", .str (js "xpr.rpc.tableRow")), (js "mode", .str (js "table")),
      (js "contract", .str (js "whitelister")), (js "table", .str (js "lists")),
      (js "key", .str (js "$agent")), (js "url", .str []), (js "httpPath", .str [])]
  | .decision => [(js "effect", .str (js "allow")), (js "useLimit", .bool false),
      (js "maxPerTx", .str (js "1.0000 XPR")), (js "rlCount", .str []),
      (js "rlPeriod", .str (js "day")), (js "rlPerRecipient", .bool true), (js "cooldownH", .str [])]
  | .aggregate => [(js "maxTotal", .str (js "10.0000 XPR"))]
  | .policy => [(js "default", .str (js "deny")), (js "maxActions", .str (js "1"))]

/-! ## Graph functions -/

/-- `nodes.find((n) => n.id === id)`. -/
def nodeById (nodes : List GraphNode) (id : ℕ) : Option GraphNode := nodes.find? fun n => n.id = id

/-- The nodes wired into one port. -/
def inboundNodes (nodes : List GraphNode) (wires : List Wire) (id : ℕ) (key : JsString) :
    List GraphNode :=
  (wires.filter fun w => w.toPort = ⟨id, key⟩).filterMap fun w => nodeById nodes w.fromPort.node

/-- Everything a node depends on, itself included, in the order the walk finds it. A node that was
found is not walked again. -/
def upstream (wires : List Wire) (id : ℕ) : List ℕ :=
  Walk.walk (wires.map fun w => (w.toPort.node, w.fromPort.node)) [] [id]

/-- Does a path of wires lead from one node to another? A node reaches itself. -/
def reaches (wires : List Wire) (fromId toId : ℕ) : Bool :=
  Walk.search (wires.map fun w => (w.fromPort.node, w.toPort.node)) toId [] [fromId]

end Signbox
