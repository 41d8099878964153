import Signbox.Guard.Memo
import Signbox.Spec.Policy
import Signbox.Spec.Scaffold

/-!
# The simulator

`web/src/editor/eval.ts`, with `txToSampleActions` of `testTx.ts` and `queryFor` of `lookups.ts`:
the graph is evaluated on each action of a test transaction, and the verdicts and the limits
decide. What is only shown (the reason, the values and the path that are highlighted) is left out.
-/

namespace Signbox

/-! ## Properties -/

/-- The functions `Array.prototype` holds, next to its `constructor`. -/
def arrayFunctions : List JsString :=
  [js "at", js "concat", js "copyWithin", js "entries", js "every", js "fill", js "filter",
    js "find", js "findIndex", js "findLast", js "findLastIndex", js "flat", js "flatMap",
    js "forEach", js "includes", js "indexOf", js "join", js "keys", js "lastIndexOf", js "map",
    js "pop", js "push", js "reduce", js "reduceRight", js "reverse", js "shift", js "slice",
    js "some", js "sort", js "splice", js "toLocaleString", js "toReversed", js "toSorted",
    js "toSpliced", js "toString", js "unshift", js "values", js "with"]

/-- Read a property of an array: an item, the length, or what it inherits. `Array.prototype` is
itself an array without items. -/
def readArray (items : List Json) (key : JsString) : JsValue :=
  match (Json.arr items).entries.lookup key with
  | some v => .json v
  | none =>
    if key = js "length" then .json (.num (.finite (.ofNat items.length)))
    else if key = js "__proto__" then .json (.arr [])
    else if key = js "constructor" then .function (js "Array")
    else if key ∈ arrayFunctions then .function key
    else prototypeMember key

/-- Read a property of an object or an array; anything else reads as `undefined`. A missing member
may still be inherited. -/
def JsValue.property (key : JsString) : JsValue → JsValue
  | .json (.arr items) => readArray items key
  | v => v.readObject key

namespace Eval

def getPath (v : JsValue) (path : JsString) : JsValue :=
  (JsString.split (unit '.') path).foldl (fun v seg => v.property seg) v

/-! ## Test transactions -/

structure SampleAction where
  contract : JsString
  action : JsString
  data : List (JsString × Json)

def SampleAction.value (a : SampleAction) : JsValue :=
  .json (.obj .ordinary [(js "contract", .str a.contract), (js "action", .str a.action),
    (js "data", .obj .ordinary a.data)])

/-- A text of the data: `from`, `to` and `quantity` are always present. -/
def SampleAction.text (a : SampleAction) (path : JsString) : JsString :=
  (getPath a.value path).str?.getD []

/-- The first two words of an asset, such as `1.0000 XPR`: its amount and its symbol. Either may be
empty. -/
def splitAsset (s : JsString) : JsString × JsString :=
  let t := JsString.trim s
  (t.takeWhile fun u => !isWhite u,
    ((t.dropWhile fun u => !isWhite u).dropWhile isWhite).takeWhile fun u => !isWhite u)

def normalizeQuantity : Option Json → Except JsError (JsString × JsString)
  | some (.str s) => .ok (splitAsset s)
  | some (.obj proto ms) => do
    let q := Json.obj proto ms
    return (← textOf (q.given (js "amount")), ← textOf (q.given (js "symbol")))
  | _ => .ok ([], [])

def normalizeData (d : Json) : Except JsError (List (JsString × Json)) := do
  let quantity ← normalizeQuantity (d.get (js "quantity"))
  let sender ← textOf (d.given (js "from"))
  let recipient ← textOf (d.given (js "to"))
  return mapSet (js "quantity")
    (.obj .ordinary [(js "amount", .str quantity.1), (js "symbol", .str quantity.2)])
    (mapSet (js "to") (.str recipient) (mapSet (js "from") (.str sender) d.entries))

def sampleAction : Json → Except JsError SampleAction
  | .null => .error .type
  | a => return {
      contract := ← textOf (a.either (js "account") (js "contract"))
      action := ← textOf (a.either (js "name") (js "action"))
      data := ← normalizeData ((a.given (js "data")).getD (.obj .ordinary [])) }

def txToSampleActions (tx : Json) : Except JsError (List SampleAction) :=
  ((extractActions tx).getD []).mapM sampleAction

/-! ## Values -/

/-- What a node evaluates to: nothing, for a transaction that is not routed, or a value. The list
of verdicts of the policy node is read by no node. -/
inductive Value where
  | skip
  | of (v : JsValue)
  | verdicts (vs : List Value)

namespace Value

def bool (b : Bool) : Value := .of (.json (.bool b))

/-- `value === undefined || value === null`. -/
def isNullish : Value → Bool
  | .of v => v.isNullish
  | _ => false

/-- `value === true`. -/
def isTrue : Value → Bool
  | .of (.json (.bool true)) => true
  | _ => false

/-- A transaction that is routed: not `SKIP`, and there. -/
def isRouted : Value → Bool
  | .of v => !v.isNullish
  | .skip => false
  | .verdicts _ => true

/-- `String(value)`. -/
def toText : Value → Except JsError JsString
  | .skip => .ok (js "Symbol(skip)")
  | .of v => v.toText
  | .verdicts _ => .error .type

def property (key : JsString) : Value → JsValue
  | .of v => v.property key
  | _ => .undefined

end Value

/-- `$agent` is the sender of the transaction. Any other variable is a path, and stays as it is
when there is no text at the path. -/
def substitute (value : JsString) (action : SampleAction) : JsString :=
  if value = js "$agent" then action.text (js "data.from")
  else if (js "$").isPrefixOf value then
    ((getPath action.value (value.drop 1)).str?).getD value
  else value

end Eval

namespace Double

/-- `x <= y`. -/
def le : Double → Double → Bool
  | .nan, _ => false
  | _, .nan => false
  | .infinite true, _ => true
  | _, .infinite false => true
  | .infinite false, _ => false
  | _, .infinite true => false
  | .finite x, .finite y => decide (x ≤ y)

/-- `x < y`. -/
def lt (x y : Double) : Bool := le x y && !le y x

/-- `x + y`. -/
def add : Double → Double → Double
  | .finite x, .finite y => nearest (x + y)
  | .infinite s, .infinite t => if s = t then .infinite s else .nan
  | .infinite s, .finite _ => .infinite s
  | .finite _, .infinite s => .infinite s
  | _, _ => .nan

end Double

namespace Eval

def compare (actual : Value) (op expected : JsString) : Except JsError Bool :=
  if actual.isNullish then .ok false
  else do
    let text ← actual.toText
    if op = js "eq" then return text = expected
    else if op = js "neq" then return text ≠ expected
    else
      let x := parseFloat text
      if op = js "between" then
        match (JsString.split (unit ',') expected).map parseFloat with
        | lo :: hi :: _ => return lo.le x && x.le hi
        | _ => return false
      else
        let y := parseFloat expected
        if op = js "lte" then return x.le y
        else if op = js "gte" then return y.le x
        else if op = js "lt" then return x.lt y
        else if op = js "gt" then return y.lt x
        else return false

/-! ## Lookups -/

/-- What a Lookup node reads for an action. The evaluation is the same for the rows of the demo and
for those of a chain. -/
abbrev LookupResolver := Fields → SampleAction → JsValue

inductive LookupQuery where
  | http (url httpPath : JsString)
  | table (contract table key : JsString)

def queryFor (fields : Fields) (action : SampleAction) : LookupQuery :=
  if fields.isText (js "mode") (js "http") then
    .http (fields.textOrEmpty (js "url")) (fields.textOrEmpty (js "httpPath"))
  else
    let key := match fields.lookup (js "key") with
      | some v => v.toText
      | none => js "$agent"
    .table (substitute (fields.textOrEmpty (js "contract")) action)
      (substitute (fields.textOrEmpty (js "table")) action) (substitute key action)

/-- The rows the simulator shows where no table is read. -/
def mockLookup : LookupResolver := fun fields _ =>
  let table := fields.textOrEmpty (js "table")
  .json (.obj .ordinary
    (if table.includes (js "list") then
      [(js "allowed", .arr [.str (js "alice"), .str (js "bob"), .str (js "carol")]),
        (js "owner", .str (js "rockerone"))]
    else if table.includes (js "tier") then [(js "tier", .str (js "gold"))]
    else [(js "found", .bool true)]))

/-- The on-chain tables: what they answer to a query. They do not change during an evaluation. -/
abbrev Tables := ProviderArgs → ProviderEvidence

/-- Lookups that read the tables: a row, or `null`. A lookup over HTTP reads no table. -/
def tableLookup (tables : Tables) : LookupResolver := fun fields action =>
  match queryFor fields action with
  | .http _ _ => .json .null
  | .table contract table key =>
    match tables ⟨contract, contract, table, key⟩ with
    | .row members => .json (.obj .ordinary members)
    | _ => .json .null

/-! ## Nodes -/

section
variable (nodes : List GraphNode) (wires : List Wire)

/-- The first node wired into a port. Ports with a single input have no other. -/
def one (id : ℕ) (key : JsString) : Option GraphNode := (inboundNodes nodes wires id key).head?

/-- The inputs a node reads, in this order. A single port that nothing is wired into is an input
without a node. -/
def inputs (n : GraphNode) : List (Option GraphNode) :=
  match n.type with
  | .transaction | .constant => []
  | .routeif | .lookup => [one nodes wires n.id (js "tx")]
  | .getfield | .boolnot | .aggregate => [one nodes wires n.id (js "in")]
  | .compare | .inlist | .contains => [one nodes wires n.id (js "a")]
  | .booland | .boolor | .policy => (inboundNodes nodes wires n.id (js "in")).map some
  | .decision => one nodes wires n.id (js "tx") ::
      -- a decision without a condition fires on routing alone
      if inboundNodes nodes wires n.id (js "cond") = [] then [] else [one nodes wires n.id (js "cond")]

end

/-- `value === field`. -/
def strictEquals : JsValue → Option FieldValue → Bool
  | .undefined, none => true
  | .json (.str s), some (.str t) => s = t
  | .json (.bool b), some (.bool c) => b = c
  | _, _ => false

/-- The condition of a Route If; one without an action takes every action. The contract is always
compared. -/
def routes (f : Fields) (tx : Value) : Bool :=
  tx.isRouted && strictEquals (tx.property (js "contract")) (f.lookup (js "contract")) &&
    ((f.truthy (js "action")).isNone ||
      strictEquals (tx.property (js "action")) (f.lookup (js "action")))

/-- The items of an In List, trimmed, with their variables substituted. An empty item is no
item. -/
def listItems (f : Fields) (action : SampleAction) : List JsString :=
  ((JsString.split (unit ',') (f.text (js "list"))).map fun s =>
    substitute (JsString.trim s) action).filter fun s => s ≠ []

/-- `a !== undefined && a !== null && list.includes(String(a))`. -/
def includedIn (list : List JsString) (a : Value) : Except JsError Bool :=
  if a.isNullish then .ok false else return list.contains (← a.toText)

/-- `{ effect, rule }`: what a decision that fires evaluates to. The rule is the id of its node. -/
def verdict (n : GraphNode) : JsValue :=
  .json (.obj .ordinary (((n.fields.lookup (js "effect")).map fun v =>
    (js "effect", v.toJson)).toList ++ [(js "rule", .num (.finite (.ofNat n.id)))]))

/-- What a node makes of its inputs. It does not look at the graph, so the value of a node depends
on those of its inputs only. -/
def apply (lookup : LookupResolver) (action : SampleAction) (n : GraphNode) (vs : List Value) :
    Except JsError Value :=
  let f := n.fields
  let first := vs.head?.getD (.of .undefined)
  match n.type with
  | .transaction => .ok (.of action.value)
  | .routeif => .ok (if routes f first then first else .skip)
  | .getfield =>
    match first with
    | .of v => .ok (.of (if v.isNullish then .undefined else getPath v (f.text (js "path"))))
    | _ => .ok (.of .undefined)
  | .constant => .ok (.of (.json (.str (substitute (f.text (js "value")) action))))
  | .compare =>
    return .bool (← compare first (f.text (js "op")) (substitute (f.text (js "value")) action))
  | .inlist => do
    let inL ← includedIn (listItems f action) first
    return .bool (if f.isText (js "mode") (js "notin") then !inL else inL)
  | .contains =>
    match first with
    | .of (.json (.arr items)) =>
      return .bool ((← items.mapM Json.toText).contains (substitute (f.text (js "value")) action))
    | _ => .ok (.bool false)
  | .booland => .ok (.bool (!vs.isEmpty && vs.all Value.isTrue))
  | .boolor => .ok (.bool (vs.any Value.isTrue))
  | .boolnot => .ok (.bool (!first.isTrue))
  | .lookup =>
    match first with
    | .skip => .ok (.of .undefined)
    | .of .undefined => .ok (.of .undefined)
    | _ => .ok (.of (lookup f action))
  | .decision =>
    let cond := match vs with
      | _ :: c :: _ => c.isTrue
      | _ => true
    match first with
    | .skip => .ok .skip
    | tx => .ok (if tx.isRouted && cond then .of (verdict n) else .of (.json .null))
  | .aggregate => .ok first
  | .policy => .ok (.verdicts vs)

section
variable (nodes : List GraphNode) (wires : List Wire) (lookup : LookupResolver)

/-- The graph, on one action, as the memoised walk is given it. An input without a node, or one on
a cycle, is `undefined`. -/
def graph (action : SampleAction) : Memo.Graph GraphNode ℕ Value JsError :=
  ⟨GraphNode.id, inputs nodes wires, apply lookup action, .of .undefined⟩

abbrev NodeValues := List (ℕ × Value)

/-- The value of a node; each node is evaluated once, and its value kept for the next decision of
the same action. -/
def evalNode (action : SampleAction) (memo : NodeValues) (n : GraphNode) :
    Except JsError (Value × NodeValues) :=
  Memo.visit (graph nodes wires lookup action) (nodes.length + 1) [] memo n

/-! ## Actions -/

structure DecisionResult where
  node : GraphNode
  routed : Bool
  cond : Value
  verdict : JsValue
  reachesPolicy : Bool

structure PerAction where
  action : SampleAction
  decisions : List DecisionResult
  verdict : Effect
  governing : Option GraphNode
  byDefault : Bool

/-- The value of what is wired into a port of a decision. -/
def evalPort (action : SampleAction) (memo : NodeValues) (id : ℕ) (key : JsString) :
    Except JsError (Value × NodeValues) :=
  match one nodes wires id key with
  | none => .ok (.of .undefined, memo)
  | some n => evalNode nodes wires lookup action memo n

/-- `v.effect`, or `null` where the decision does not fire. Only the text of an effect can govern
an action. -/
def effectOf : Value → JsValue
  | .of v => if v.isNullish then .json .null else v.property (js "effect")
  | .skip => .json .null
  | .verdicts _ => .undefined

def evalDecision (policy : Option GraphNode) (action : SampleAction) (memo : NodeValues)
    (dn : GraphNode) : Except JsError (DecisionResult × NodeValues) := do
  let (tx, memo) ← evalPort nodes wires lookup action memo dn.id (js "tx")
  let (cond, memo) ← evalPort nodes wires lookup action memo dn.id (js "cond")
  let (v, memo) ← evalNode nodes wires lookup action memo dn
  return (⟨dn, tx.isRouted, cond, effectOf v, policy.any fun p => reaches wires dn.id p.id⟩, memo)

def evalDecisions (policy : Option GraphNode) (action : SampleAction) :
    NodeValues → List GraphNode → Except JsError (List DecisionResult)
  | _, [] => .ok []
  | memo, dn :: decisions => do
    let (d, memo) ← evalDecision nodes wires lookup policy action memo dn
    return d :: (← evalDecisions policy action memo decisions)

/-- The decision with this verdict that governs an action: the first that reaches the policy, in
the order of the nodes. -/
def governing (decs : List DecisionResult) (effect : JsString) : Option GraphNode :=
  (decs.find? fun d => d.reachesPolicy && strictEquals d.verdict (some (.str effect))).map
    DecisionResult.node

def evalAction (action : SampleAction) : Except JsError PerAction := do
  let policy := nodes.find? fun n => n.type = .policy
  let decs ← evalDecisions nodes wires lookup policy action [] (nodes.filter fun n => n.type = .decision)
  let fallback : Effect :=
    if policy.any fun p => p.fields.isText (js "default") (js "allow") then .allow else .deny
  return match governing decs (js "deny"), governing decs (js "allow") with
    | some n, _ => ⟨action, decs, .deny, some n, false⟩
    | none, some n => ⟨action, decs, .allow, some n, false⟩
    | none, none => ⟨action, decs, fallback, none, true⟩

end

/-! ## Limits -/

/-- `parseFloat(s.split(" ")[0])`: the number before the symbol of a cap. The symbol is not
compared. -/
def capOf (s : JsString) : Double := parseFloat (s.takeWhile (· ≠ unit ' '))

/-- The sum of the amounts that are numbers, of any symbol. It is a sum of doubles, in the order of
the actions. -/
def sumAmounts (actions : List SampleAction) : Double :=
  actions.foldl (fun sum a =>
    match parseFloat (a.text (js "data.quantity.amount")) with
    | .nan => sum
    | x => sum.add x) (.finite 0)

inductive RuleAggHit where
  | cap (decision : GraphNode) (sum cap : Double)
  | rate (decision : GraphNode) (recipient : JsString) (count : ℕ) (limit : Double)
      (period : JsString)

structure RuleGroup where
  decision : GraphNode
  actions : List SampleAction

/-- Add an action to the group of the decision that governs it. A new group is added at the end. -/
def addToGroup (n : GraphNode) (a : SampleAction) : List RuleGroup → List RuleGroup
  | [] => [⟨n, [a]⟩]
  | g :: groups =>
    if g.decision.id = n.id then ⟨g.decision, g.actions ++ [a]⟩ :: groups
    else g :: addToGroup n a groups

/-- The actions that limits apply to, by decision: the allowed ones whose decision has its limits
turned on. -/
def groupsOf (perAction : List PerAction) : List RuleGroup :=
  perAction.foldl (fun groups p =>
    match p.verdict, p.governing with
    | .allow, some n => if n.fields.isTrue (js "useLimit") then addToGroup n p.action groups else groups
    | _, _ => groups) []

/-- A name that an object inherits: its count starts from what is inherited, and is no number. -/
def isInherited (name : JsString) : Bool :=
  name = js "__proto__" || (prototypeFunctions.lookup name).isSome

/-- How many actions each recipient gets. An action without a recipient counts for the recipient
`?`. -/
def byRecipient (actions : List SampleAction) : List (JsString × ℕ) :=
  actions.foldl (fun counts a =>
    let r := match a.text (js "data.to") with
      | [] => js "?"
      | recipient => recipient
    if isInherited r then counts else mapSet r ((counts.lookup r).getD 0 + 1) counts) []

def capHit (g : RuleGroup) : Option RuleAggHit :=
  let capRaw := g.decision.fields.textOrEmpty (js "maxPerTx")
  if capRaw ≠ [] ∧ (capOf capRaw).lt (sumAmounts g.actions) then
    some (.cap g.decision (sumAmounts g.actions) (capOf capRaw))
  else none

def rateHit (g : RuleGroup) : Option RuleAggHit :=
  let f := g.decision.fields
  let rlRaw := f.textOrEmpty (js "rlCount")
  if rlRaw ≠ [] ∧ f.isTrue (js "rlPerRecipient") then
    ((byRecipient g.actions).find? fun e => (parseInt rlRaw).lt (.finite e.2)).map fun e =>
      .rate g.decision e.1 e.2 (parseInt rlRaw) (f.text (js "rlPeriod"))
  else none

/-- Two actions of one transaction have no delay between them, so a recipient may get one action at
most. -/
def cooldownHit (g : RuleGroup) : Option RuleAggHit :=
  let hours := parseFloat (g.decision.fields.textOrEmpty (js "cooldownH"))
  if hours.isPositive then
    ((byRecipient g.actions).find? fun e => 1 < e.2).map fun e =>
      .rate g.decision e.1 e.2 (.finite 1) (hours.toText ++ js "h cooldown")
  else none

def ruleAggregateCheck (perAction : List PerAction) : Option RuleAggHit :=
  (groupsOf perAction).findSome? fun g => capHit g <|> rateHit g <|> cooldownHit g

structure GlobalCapHit where
  node : GraphNode
  sum : Double
  cap : Double

def globalCapCheck (nodes : List GraphNode) (wires : List Wire) (actions : List SampleAction)
    (policy : Option GraphNode) : Option GlobalCapHit :=
  policy.bind fun p => (nodes.filter fun n => n.type = .aggregate && reaches wires n.id p.id).findSome?
    fun n =>
      let sum := sumAmounts (actions.filter fun a => a.action = js "transfer")
      let cap := capOf (n.fields.textOrEmpty (js "maxTotal"))
      if cap.lt sum then some ⟨n, sum, cap⟩ else none

/-! ## Transactions -/

inductive DecidedBy where
  | maxActions
  | action
  | ruleAgg
  | globalCap
  | allow
  deriving DecidableEq

structure Evaluation where
  perAction : List PerAction
  final : Effect
  decidedBy : DecidedBy
  governingId : Option ℕ
  maxActions : JsNumber
  tooMany : Bool
  ruleAgg : Option RuleAggHit
  globalCap : Option GlobalCapHit

/-- What decides, in this order: the number of actions, a denied action, a limit of a decision, a
global cap. -/
def verdictOf (perAction : List PerAction) (tooMany : Bool) (ruleAgg : Option RuleAggHit)
    (globalCap : Option GlobalCapHit) : Effect × DecidedBy × Option ℕ :=
  if tooMany then (.deny, .maxActions, none)
  else match perAction.find? fun p => p.verdict = .deny && p.governing.isSome with
    | some p => (.deny, .action, p.governing.map GraphNode.id)
    | none =>
      if perAction.any fun p => p.verdict = .deny && p.byDefault then (.deny, .action, none)
      else match ruleAgg, globalCap with
        | some (.cap d _ _), _ => (.deny, .ruleAgg, some d.id)
        | some (.rate d _ _ _ _), _ => (.deny, .ruleAgg, some d.id)
        | none, some g => (.deny, .globalCap, some g.node.id)
        | none, none => (.allow, .allow, (perAction.head?.bind PerAction.governing).map GraphNode.id)

def evaluateGraph (nodes : List GraphNode) (wires : List Wire) (actions : List SampleAction)
    (lookup : LookupResolver) : Except JsError Evaluation := do
  let policy := nodes.find? fun n => n.type = .policy
  let perAction ← actions.mapM (evalAction nodes wires lookup)
  let maxActions := match policy with
    | some p => parseCount (p.fields.text (js "maxActions"))
    | none => .finite (.ofNat 1)
  let tooMany := maxActions.toDouble.lt (.finite actions.length)
  let ruleAgg := ruleAggregateCheck perAction
  let globalCap := globalCapCheck nodes wires actions policy
  let (final, decidedBy, governingId) := verdictOf perAction tooMany ruleAgg globalCap
  return ⟨perAction, final, decidedBy, governingId, maxActions, tooMany, ruleAgg, globalCap⟩

end Eval

end Signbox
