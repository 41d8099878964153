import Signbox.Spec.Store

/-!
# Scaffolding and editor sessions

`web/src/editor/scaffold.ts` with `txToRoutes` of `testTx.ts`: the branches that govern a
transaction, added to the graph in one action. A session opens a policy, or the demo, and
dispatches actions; an `add-scaffold` is dispatched with the scaffold of the current state.
-/

namespace Signbox

/-! ## The routes of a transaction -/

structure RouteStub where
  contract : JsString
  action : JsString
  paths : List JsString
  deriving DecidableEq

/-- A member, where it is not nullish. -/
def Json.given (v : Json) (key : JsString) : Option Json :=
  match v.get key with
  | some .null => none
  | member => member

/-- `v[a] ?? v[b]`. -/
def Json.either (v : Json) (a b : JsString) : Option Json := v.given a <|> v.given b

/-- The actions of a transaction, of an array of actions or of one action. Anything else has
none. -/
def extractActions (tx : Json) : Option (List Json) :=
  match tx with
  | .arr items => some items
  | .obj .. =>
    match tx.get (js "actions") with
    | some (.arr actions) => some actions
    | _ =>
      if ((tx.either (js "account") (js "contract")).bind Json.str?).isSome then some [tx]
      else none
  | _ => none

/-- `Object.entries`. -/
def Json.entries : Json → List (JsString × Json)
  | .obj _ members => members
  | .arr items => items.zipIdx.map fun e => (digitsOf e.2, e.1)
  | .str s => s.zipIdx.map fun e => (digitsOf e.2, .str [e.1])
  | _ => []

/-- `/^\d+(\.\d+)?\s+[A-Z]{1,7}$/`, of the trimmed text. -/
def isAssetString (s : JsString) : Bool :=
  let t := JsString.trim s
  (matchBareAmount (t.takeWhile fun u => !isWhite u)).isSome &&
    (t.dropWhile fun u => !isWhite u) ≠ [] &&
    matchesClass isUpper 1 7 ((t.dropWhile fun u => !isWhite u).dropWhile isWhite)

/-- The loop of `dataLeafPaths`: at most six paths, and none for an empty text. It stops at the
sixth. -/
def leafPaths (expand : JsString → Json → List JsString) (path : JsString) :
    List JsString → List (JsString × Json) → List JsString
  | out, [] => out.take 6
  | out, (key, value) :: entries =>
    if out.length ≥ 6 then out.take 6
    else
      match value with
      | .str [] => leafPaths expand path out entries
      | _ => leafPaths expand path (out ++ expand (path ++ js "." ++ key) value) entries

/-- The paths of a value that is not opened: an asset has an amount and a symbol. -/
def leafOf (path : JsString) : Json → List JsString
  | .str s =>
    if isAssetString s then [path ++ js ".amount", path ++ js ".symbol"] else [path]
  | _ => [path]

/-- The paths of a member of `data`: an object is opened, one level deep, so a path has two
segments at most below `data`. -/
def memberPaths (path : JsString) : Json → List JsString
  | .obj _ members => leafPaths leafOf path [] members
  | value => leafOf path value

def dataLeafPaths (data : Json) : List JsString := leafPaths memberPaths (js "data") [] data.entries

/-- `String(value ?? "")`. -/
def textOf : Option Json → Except JsError JsString
  | some v => v.toText
  | none => .ok []

/-- The loop of `txToRoutes`: the first action of each pair of contract and name. An action without
either has no route. -/
def collectRoutes : List RouteStub → List Json → Except JsError (List RouteStub)
  | seen, [] => .ok seen
  | _, .null :: _ => .error .type
  | seen, a :: actions => do
    let contract ← textOf (a.either (js "account") (js "contract"))
    let action ← textOf (a.either (js "name") (js "action"))
    if contract = [] ∨ action = [] then collectRoutes seen actions
    else if seen.any fun r => r.contract ++ js "::" ++ r.action = contract ++ js "::" ++ action then
      collectRoutes seen actions
    else
      collectRoutes (seen ++ [⟨contract, action,
        dataLeafPaths ((a.given (js "data")).getD (.obj .ordinary []))⟩]) actions

def txToRoutes (tx : Json) : Except JsError (List RouteStub) :=
  collectRoutes [] ((extractActions tx).getD [])

/-! ## The scaffold -/

structure Scaffold where
  nodes : List GraphNode
  wires : List Wire
  nextId : ℕ

/-- The branch of one route, whose first node gets `id`: a Route If, its fields, and a decision
that allows it. -/
def routeBranch (txNode polNode : Option GraphNode) (id : ℕ) (branchY : ℚ) (r : RouteStub) :
    Scaffold :=
  let rif := mkNode id .routeif 250 branchY
    [(js "contract", .str r.contract), (js "action", .str r.action)]
  let fields := r.paths.zipIdx.map fun e =>
    mkNode (id + 1 + e.2) .getfield 480 (branchY + e.2 * 78) [(js "path", .str e.1)]
  let dec := mkNode (id + 1 + r.paths.length) .decision 760 branchY [(js "effect", .str (js "allow"))]
  ⟨[rif] ++ fields ++ [dec],
    (txNode.map fun n => mkWire n (js "tx") rif (js "tx")).toList ++
      fields.map (fun gf => mkWire rif (js "out") gf (js "in")) ++
      [mkWire rif (js "out") dec (js "tx")] ++
      (polNode.map fun n => mkWire dec (js "out") n (js "in")).toList,
    id + 1 + r.paths.length + 1⟩

/-- The loop over the routes, each branch below the one before it. -/
def routeBranches (txNode polNode : Option GraphNode) : ℕ → ℚ → List RouteStub → Scaffold
  | id, _, [] => ⟨[], [], id⟩
  | id, branchY, r :: routes =>
    let branch := routeBranch txNode polNode id branchY r
    let rest := routeBranches txNode polNode branch.nextId
      (branchY + max 150 (r.paths.length * 78 + 70)) routes
    ⟨branch.nodes ++ rest.nodes, branch.wires ++ rest.wires, rest.nextId⟩

/-- The route a Route If is for. -/
def routeKey (n : GraphNode) : JsString :=
  n.fields.text (js "contract") ++ js "::" ++ n.fields.text (js "action")

/-- The branches for the routes of a transaction that the graph has none for. They are placed below
what is there. -/
def buildScaffold (state : GraphState) (tx : Json) : Except JsError Scaffold := do
  let existing := (state.nodes.filter fun n => n.type = .routeif).map routeKey
  let fresh := (← txToRoutes tx).filter fun r => r.contract ++ js "::" ++ r.action ∉ existing
  return routeBranches (state.nodes.find? fun n => n.type = .transaction)
    (state.nodes.find? fun n => n.type = .policy) state.nextId
    (state.nodes.foldl (fun m n => max m n.y) 0 + 170) fresh

/-! ## Sessions -/

/-- `decompilePolicy(policyjson).state`: the state the editor opens a policy in. -/
def DecompileResult.state (d : DecompileResult) : GraphState :=
  ⟨d.nodes, d.wires, some transactionNode.id, ⟨0, 0, 1⟩, d.nodes.length + 1, 0⟩

/-- The editor opens a policy, or the demo. A session starts in one of these states. -/
inductive Opened : GraphState → Prop where
  | policy {text : JsString} {d : DecompileResult}
      (h : decompilePolicy JsNumber.ofLiteral text = some d) : Opened d.state
  | demo : Opened demoState

/-- The nodes of an `add-scaffold` are the scaffold of the current state and some transaction. The
other actions come with any arguments. -/
def Dispatched (state : GraphState) : GraphAction → Prop
  | .addScaffold nodes wires nextId => ∃ tx, buildScaffold state tx = .ok ⟨nodes, wires, nextId⟩
  | _ => True

/-- The states a session can reach: from a state it opened, by actions it dispatches. -/
inductive Reachable : GraphState → Prop where
  | opened {state : GraphState} (h : Opened state) : Reachable state
  | step {state : GraphState} {action : GraphAction} (h : Reachable state)
      (hact : Dispatched state action) : Reachable (reducer state action)

end Signbox
