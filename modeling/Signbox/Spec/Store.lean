import Signbox.Spec.Decompile

/-!
# The editor store

`web/src/editor/store.tsx`, with the ports of `nodeSpecs.ts`: the state of the editor and the
reducer every mutation of the graph goes through. A wire is added only between ports of the same
type, and an input takes one wire unless it joins several.
-/

namespace Signbox

/-! ## Ports -/

inductive PortType where
  | tx
  | val
  | bool
  | verdict
  deriving DecidableEq

inductive PortSide where
  | input
  | output
  deriving DecidableEq

structure PortSpec where
  side : PortSide
  key : JsString
  type : PortType
  deriving DecidableEq

/-- `SPECS[type].ports`. -/
def NodeType.ports : NodeType → List PortSpec
  | .transaction => [⟨.output, js "tx", .tx⟩]
  | .routeif => [⟨.input, js "tx", .tx⟩, ⟨.output, js "out", .tx⟩]
  | .getfield => [⟨.input, js "in", .val⟩, ⟨.output, js "out", .val⟩]
  | .constant => [⟨.output, js "out", .val⟩]
  | .compare | .inlist | .contains => [⟨.input, js "a", .val⟩, ⟨.output, js "out", .bool⟩]
  | .booland | .boolor | .boolnot => [⟨.input, js "in", .bool⟩, ⟨.output, js "out", .bool⟩]
  | .lookup => [⟨.input, js "tx", .tx⟩, ⟨.output, js "out", .val⟩]
  | .decision => [⟨.input, js "tx", .tx⟩, ⟨.input, js "cond", .bool⟩, ⟨.output, js "out", .verdict⟩]
  | .aggregate => [⟨.input, js "in", .verdict⟩, ⟨.output, js "out", .verdict⟩]
  | .policy => [⟨.input, js "in", .verdict⟩]

/-- `SPECS[type].single`: one instance is allowed, which can be neither added again nor deleted. -/
def NodeType.single : NodeType → Bool
  | .transaction | .policy => true
  | _ => false

def isMultiInput (type : NodeType) (key : JsString) : Bool :=
  (type = .booland || type = .boolor || type = .policy) && key = js "in"

/-- A Get Field takes a routed transaction as well as the value of a lookup. All other wires join
ports of one type. -/
def portsCompatible (fromType : PortType) (toNode : NodeType) (toKey : JsString)
    (toType : PortType) : Bool :=
  fromType = toType || (toNode = .getfield && toKey = js "in" && fromType = .tx && toType = .val)

/-! ## The state -/

structure ViewTransform where
  x : ℚ
  y : ℚ
  z : ℚ
  deriving DecidableEq

structure GraphState where
  nodes : List GraphNode
  wires : List Wire
  selected : Option ℕ
  view : ViewTransform
  nextId : ℕ
  fitNonce : ℕ
  deriving DecidableEq

inductive GraphAction where
  | addNode (nodeType : NodeType) (x y : ℚ)
  | moveNode (id : ℕ) (x y : ℚ)
  | deleteNode (id : ℕ)
  | setField (id : ℕ) (key : JsString) (value : FieldValue)
  | addWire (fromPort toPort : PortRef)
  | deleteWire (wire : Wire)
  | addScaffold (nodes : List GraphNode) (wires : List Wire) (nextId : ℕ)
  | select (id : Option ℕ)
  | setView (view : ViewTransform)
  | resetDemo

/-! ## The reducer -/

def addNode (state : GraphState) (nodeType : NodeType) (x y : ℚ) : GraphState :=
  match nodeType.single, state.nodes.find? (fun n => n.type = nodeType) with
  | true, some existing => { state with selected := some existing.id }
  | _, _ =>
    { state with
      nodes := state.nodes ++ [⟨state.nextId, nodeType, x, y, nodeType.defaults⟩]
      selected := some state.nextId
      nextId := state.nextId + 1 }

/-- The ports a wire would join, if the nodes have them. A node is not wired to itself. -/
def portsOf (nodes : List GraphNode) (fromPort toPort : PortRef) :
    Option (PortSpec × GraphNode × PortSpec) := do
  let fromNode ← nodeById nodes fromPort.node
  let toNode ← nodeById nodes toPort.node
  guard (fromPort.node ≠ toPort.node)
  let outPort ← fromNode.type.ports.find? fun p => p.side = .output ∧ p.key = fromPort.key
  let inPort ← toNode.type.ports.find? fun p => p.side = .input ∧ p.key = toPort.key
  return (outPort, toNode, inPort)

def addWire (state : GraphState) (fromPort toPort : PortRef) : GraphState :=
  match portsOf state.nodes fromPort toPort with
  | none => state
  | some (outPort, toNode, inPort) =>
    if ¬ portsCompatible outPort.type toNode.type inPort.key inPort.type then state
    else
      let wires :=
        if isMultiInput toNode.type toPort.key then state.wires
        else state.wires.filter fun w => w.toPort ≠ toPort
      if ⟨fromPort, toPort⟩ ∈ wires then { state with wires := wires }
      else { state with wires := wires ++ [⟨fromPort, toPort⟩] }

/-- Change the nodes with an id. In a well-formed graph there is one at most. -/
def mapNode (nodes : List GraphNode) (id : ℕ) (f : GraphNode → GraphNode) : List GraphNode :=
  nodes.map fun n => if n.id = id then f n else n

def demoNodes : List GraphNode :=
  [mkNode 1 .transaction 30 300 [], mkNode 2 .routeif 250 120 [],
    mkNode 3 .getfield 250 300 [(js "path", .str (js "data.quantity.amount"))],
    mkNode 4 .compare 470 300 [(js "op", .str (js "lte")), (js "value", .str (js "1.0000"))],
    mkNode 5 .lookup 250 470 [],
    mkNode 6 .getfield 470 470 [(js "path", .str (js "allowed"))],
    mkNode 7 .contains 670 470 [(js "value", .str (js "$data.to"))],
    mkNode 8 .booland 860 380 [],
    mkNode 9 .decision 1050 240 [(js "effect", .str (js "allow")), (js "useLimit", .bool true),
      (js "maxPerTx", .str (js "1.0000 XPR")), (js "rlCount", .str (js "1")),
      (js "rlPeriod", .str (js "day")), (js "rlPerRecipient", .bool true)],
    mkNode 10 .routeif 250 650 [(js "contract", .str (js "xtokens")),
      (js "action", .str (js "transfer"))],
    mkNode 11 .getfield 470 650 [(js "path", .str (js "data.quantity.symbol"))],
    mkNode 12 .compare 670 650 [(js "op", .str (js "eq")), (js "value", .str (js "XUSDC"))],
    mkNode 13 .decision 1050 640 [(js "effect", .str (js "deny"))],
    mkNode 14 .policy 1320 400 [(js "default", .str (js "deny")), (js "maxActions", .str (js "1"))]]

def demoWires : List Wire :=
  [⟨⟨1, js "tx"⟩, ⟨2, js "tx"⟩⟩, ⟨⟨1, js "tx"⟩, ⟨5, js "tx"⟩⟩, ⟨⟨1, js "tx"⟩, ⟨10, js "tx"⟩⟩,
    ⟨⟨2, js "out"⟩, ⟨3, js "in"⟩⟩, ⟨⟨3, js "out"⟩, ⟨4, js "a"⟩⟩, ⟨⟨4, js "out"⟩, ⟨8, js "in"⟩⟩,
    ⟨⟨5, js "out"⟩, ⟨6, js "in"⟩⟩, ⟨⟨6, js "out"⟩, ⟨7, js "a"⟩⟩, ⟨⟨7, js "out"⟩, ⟨8, js "in"⟩⟩,
    ⟨⟨8, js "out"⟩, ⟨9, js "cond"⟩⟩, ⟨⟨2, js "out"⟩, ⟨9, js "tx"⟩⟩, ⟨⟨9, js "out"⟩, ⟨14, js "in"⟩⟩,
    ⟨⟨10, js "out"⟩, ⟨11, js "in"⟩⟩, ⟨⟨11, js "out"⟩, ⟨12, js "a"⟩⟩,
    ⟨⟨12, js "out"⟩, ⟨13, js "cond"⟩⟩, ⟨⟨10, js "out"⟩, ⟨13, js "tx"⟩⟩,
    ⟨⟨13, js "out"⟩, ⟨14, js "in"⟩⟩]

/-- The demo graph: a whitelisted transfer, and a token that is denied. It is what the editor
starts with and resets to. -/
def demoState : GraphState := ⟨demoNodes, demoWires, some 1, ⟨0, 0, 1⟩, 15, 0⟩

def reducer (state : GraphState) : GraphAction → GraphState
  | .addNode nodeType x y => addNode state nodeType x y
  | .moveNode id x y =>
    { state with nodes := mapNode state.nodes id fun n => { n with x := x, y := y } }
  | .deleteNode id =>
    match nodeById state.nodes id with
    | none => state
    | some node =>
      if node.type.single then state
      else
        { state with
          nodes := state.nodes.filter fun n => n.id ≠ id
          wires := state.wires.filter fun w => w.fromPort.node ≠ id ∧ w.toPort.node ≠ id
          selected := if state.selected = some id then none else state.selected }
  | .setField id key value =>
    { state with
      nodes := mapNode state.nodes id fun n => { n with fields := mapSet key value n.fields } }
  | .addWire fromPort toPort => addWire state fromPort toPort
  | .deleteWire wire => { state with wires := state.wires.filter fun w => w ≠ wire }
  | .addScaffold [] _ _ => state
  | .addScaffold (n :: ns) wires nextId =>
    { state with
      nodes := state.nodes ++ n :: ns
      wires := state.wires ++ wires
      nextId := nextId
      selected := some n.id
      fitNonce := state.fitNonce + 1 }
  | .select id => { state with selected := id }
  | .setView view => { state with view := view }
  | .resetDemo => demoState

end Signbox
