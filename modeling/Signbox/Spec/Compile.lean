import Signbox.Spec.Dialect
import Signbox.Spec.Graph
import Signbox.Spec.Number

/-!
# Compiling a graph to a policy

`web/src/editor/compile.ts`: every decision wired to the policy node becomes one rule, whose
`match` and `providers` are collected from the nodes the decision depends on. A node without a
declarative form is reported as a warning.
-/

namespace Signbox

structure CompiledRule where
  id : JsString
  effect : JsString
  matchOn : List (JsString × Json)
  limits : Option (List (JsString × Json))
  providers : Option (List Json)

structure CompiledPolicy where
  default : JsString
  chainId : JsString
  maxActionsPerTransaction : JsNumber
  rules : List CompiledRule

structure CompileResult where
  policy : CompiledPolicy
  warnings : List JsString

/-! ## Texts -/

/-- The parts of a comma-separated list, trimmed, without empty ones. -/
def listOf (s : JsString) : List JsString :=
  ((JsString.split (unit ',') s).map JsString.trim).filter fun x => x ≠ []

/-- `String.prototype.toLowerCase`, as far as `slug` can see: outside ASCII only the Kelvin sign
and the dotted capital I have a lowercase form with an ASCII letter. -/
def JsString.toLowerCase (s : JsString) : JsString :=
  s.flatMap fun u =>
    if isUpper u then [u + 32]
    else if u = 0x212A then [unit 'k']
    else if u = 0x0130 then [unit 'i', 0x0307]
    else [u]

/-- `replace(/[^a-z0-9]+/g, "-")`; `inRun` after a unit that is part of a run. -/
def dashRuns : Bool → JsString → JsString
  | _, [] => []
  | inRun, u :: us =>
    if isLower u || isDigit u then u :: dashRuns false us
    else if inRun then dashRuns true us
    else unit '-' :: dashRuns true us

/-- `replace(/^-|-$/g, "")`. -/
def trimDashes (s : JsString) : JsString :=
  let s := match s with
    | [] => []
    | u :: us => if u = unit '-' then us else u :: us
  if s.getLast? = some (unit '-') then s.dropLast else s

def slug (parts : List JsString) : JsString :=
  match (trimDashes (dashRuns false (JsString.toLowerCase (JsString.join (js "-") parts)))).take 40 with
  | [] => js "rule"
  | u :: us => u :: us

/-! ## One node of the cone -/

/-- What a node adds to a rule: a match entry, a provider, or a warning, which may drop the
rule. -/
inductive Clause where
  | field (path : JsString) (value : Json)
  | provider (p : Json)
  | warned (w : JsString)
  | dropped (w : JsString)
  | silent

def invalidPath (path : JsString) : JsString :=
  js "Match path “" ++ path ++
    js "” isn’t a valid field (contract, action, or data.<field>) → rule omitted"

section
variable (nodes : List GraphNode) (wires : List Wire)

/-- The Get Field wired into port `a`, if that is what is wired there first. A condition on
anything else has no form in a policy. -/
def fieldSource (n : GraphNode) : Option GraphNode :=
  (inboundNodes nodes wires n.id (js "a")).head?.filter fun src => src.type = .getfield

/-- The Lookup wired into a Get Field. -/
def lookupSource (gf : GraphNode) : Option GraphNode :=
  (inboundNodes nodes wires gf.id (js "in")).head?.filter fun lk => lk.type = .lookup

def compileCompare (n : GraphNode) : Clause :=
  match fieldSource nodes wires n with
  | none => .warned (js "Compare not fed by a Get Field → rejected")
  | some src =>
    let op := n.fields.text (js "op")
    let value := n.fields.text (js "value")
    let path := src.fields.text (js "path")
    if ¬ MATCH_PATH_PATTERN path then .dropped (invalidPath path)
    else if op = js "eq" then .field path (.str value)
    else if op = js "lte" then .field path (.obj .ordinary [(js "lte", .str value)])
    else if op = js "gte" then .field path (.obj .ordinary [(js "gte", .str value)])
    else .warned (js "Compare “" ++ op ++ js "” has no bounded declarative form → rejected")

/-- The branch has no `else`: an In List that is not fed by a Get Field leaves nothing, not even a
warning. -/
def compileInList (n : GraphNode) : Clause :=
  match fieldSource nodes wires n with
  | none => .silent
  | some src =>
    let path := src.fields.text (js "path")
    let list := Json.arr ((listOf (n.fields.text (js "list"))).map .str)
    if ¬ MATCH_PATH_PATTERN path then .dropped (invalidPath path)
    else if n.fields.isText (js "mode") (js "notin") then
      .field path (.obj .ordinary [(js "notIn", list)])
    else .field path (.obj .ordinary [(js "in", list)])

/-- The provider requirement of a Contains on a table row. The scope is the contract itself. -/
def tableRowProvider (lk n : GraphNode) (select : JsString) : Json :=
  .obj .ordinary [(js "provider", .str (js "xpr.rpc.tableRow")),
    (js "args", .obj .ordinary [(js "contract", .str (lk.fields.text (js "contract"))),
      (js "scope", .str (lk.fields.text (js "contract"))),
      (js "table", .str (lk.fields.text (js "table"))),
      (js "key", .str (lk.fields.text (js "key")))]),
    (js "select", .str select), (js "op", .str (js "contains")),
    (js "value", .str (n.fields.text (js "value")))]

def compileContains (n : GraphNode) : Clause :=
  match fieldSource nodes wires n with
  | none => .warned (js "Contains not fed by Lookup → Get Field → rejected")
  | some gf =>
    match lookupSource nodes wires gf with
    | none => .warned (js "Contains not fed by Lookup → Get Field → rejected")
    | some lk =>
      let select := gf.fields.text (js "path")
      if lk.fields.isText (js "mode") (js "http") then
        .dropped (js "HTTP lookup is test-only and can’t be enforced by the daemon → rule omitted")
      else if ¬ SELECT_FIELD_PATTERN select then
        .dropped (js "Lookup field “" ++ select ++ js "” isn’t a valid row field name → rule omitted")
      else .provider (tableRowProvider lk n select)

/-- One pass of the loop over the nodes a decision depends on. The remaining types of nodes leave
nothing. -/
def compileNode (n : GraphNode) : Clause :=
  match n.type with
  | .compare => compileCompare nodes wires n
  | .inlist => compileInList nodes wires n
  | .contains => compileContains nodes wires n
  | .boolor => .warned
      (js "“OR” has no declarative form (match is implicit AND) → split into separate rules")
  | .boolnot => .warned
      (js "“NOT” has no declarative form (match is implicit AND) → split into separate rules")
  | _ => .silent

end

/-! ## One decision -/

/-- What the loop collects: the entries of `match`, the providers, the warnings, and whether the
rule is left out. -/
structure Draft where
  matchOn : List (JsString × Json)
  providers : List Json
  warnings : List JsString
  drop : Bool

def Draft.add (d : Draft) : Clause → Draft
  | .field path value => { d with matchOn := mapSet path value d.matchOn }
  | .provider p => { d with providers := d.providers ++ [p] }
  | .warned w => { d with warnings := d.warnings ++ [w] }
  | .dropped w => { d with warnings := d.warnings ++ [w], drop := true }
  | .silent => d

/-- What the Route If puts into `match`: its contract and its action, where they are not empty. -/
def routeMatch (route : Option GraphNode) : List (JsString × Json) :=
  match route with
  | none => []
  | some r => [js "contract", js "action"].filterMap fun key =>
    (r.fields.truthy key).map fun v => (key, v.toJson)

/-- The limits of an allow decision that uses them. An amount, a delay and one count can be given,
each in its widget. -/
def compileLimits (f : Fields) : List (JsString × Json) :=
  let cap := ((f.truthy (js "maxPerTx")).map fun v => (js "maxPerTransaction", v.toJson)).toList
  let hours := parseFloat (f.textOrEmpty (js "cooldownH"))
  let cooldown :=
    if hours.isPositive then
      ((hours.mul (.finite 3600000)).round.toNumber.map fun ms =>
        (js "cooldownPerRecipientMs", Json.num ms)).toList
    else []
  let rlRaw := f.textOrEmpty (js "rlCount")
  let count :=
    if rlRaw = [] then []
    else
      let key :=
        if f.isTrue (js "rlPerRecipient") then js "maxCountPerRecipientPerHour"
        else if f.isText (js "rlPeriod") (js "day") then js "maxCountPerDay"
        else js "maxCountPerHour"
      [(key, Json.num (parseCount rlRaw))]
  cap ++ cooldown ++ count

section
variable (nodes : List GraphNode) (wires : List Wire)

/-- The nodes a decision depends on, itself included, in the order in which the walk finds them. -/
def coneOf (id : ℕ) : List GraphNode := (upstream wires id).filterMap (nodeById nodes)

/-- The Route If that gives a rule its contract and action: the first one of the cone. -/
def routeOf (id : ℕ) : Option GraphNode := (coneOf nodes wires id).find? fun n => n.type = .routeif

def draftOf (decision : GraphNode) : Draft :=
  (coneOf nodes wires decision.id).foldl (fun d n => d.add (compileNode nodes wires n))
    ⟨routeMatch (routeOf nodes wires decision.id), [], [], false⟩

def compileRule (decision : GraphNode) : CompiledRule × List JsString × Bool :=
  let draft := draftOf nodes wires decision
  let effect := decision.fields.text (js "effect")
  let routeBase := match routeOf nodes wires decision.id with
    | some r => [r.fields.text (js "contract"), r.fields.text (js "action")]
    | none => [effect]
  let limits :=
    if decision.fields.isTrue (js "useLimit") ∧ decision.fields.isText (js "effect") (js "allow") then
      compileLimits decision.fields
    else []
  let rule : CompiledRule :=
    { id := slug (effect :: routeBase)
      effect := effect
      matchOn := draft.matchOn
      limits := if limits.length > 0 then some limits else none
      providers := if draft.providers.length > 0 then some draft.providers else none }
  (rule, draft.warnings, draft.drop)

/-! ## The policy -/

/-- The decisions wired to the policy node, from top to bottom. The order is that of the rules, and
so of their precedence. -/
def decisionsOf (policyNode : GraphNode) : List GraphNode :=
  (nodes.filter fun n => n.type = .decision && reaches wires n.id policyNode.id).insertionSort
    fun a b => a.y ≤ b.y

def emptyMatch (rule : CompiledRule) : JsString :=
  js "Rule “" ++ rule.id ++ js ("” isn’t a valid route (empty match — add a Route If, or a " ++
    "Compare/In List condition) → omitted from the policy.")

/-- One pass of the loop over the decisions: the rule, unless it is left out, and the warnings. A
rule with an empty `match` is never kept. -/
def compileDecision (decision : GraphNode) : Option CompiledRule × List JsString :=
  let (rule, warnings, drop) := compileRule nodes wires decision
  if drop then (none, warnings)
  else if rule.matchOn.length = 0 then (none, warnings ++ [emptyMatch rule])
  else (some rule, warnings)

/-- The rules that are kept, each with the decision it was compiled from. -/
def compiledRules (policyNode : GraphNode) : List (GraphNode × CompiledRule) :=
  (decisionsOf nodes wires policyNode).filterMap fun dn =>
    (compileDecision nodes wires dn).1.map fun rule => (dn, rule)

def compilePolicy (chainId : JsString) : Option CompileResult :=
  (nodes.find? fun n => n.type = .policy).map fun policyNode =>
    { policy :=
        { default := policyNode.fields.text (js "default")
          chainId := chainId
          maxActionsPerTransaction := parseCount (policyNode.fields.text (js "maxActions"))
          rules := (compiledRules nodes wires policyNode).map Prod.snd }
      warnings := (decisionsOf nodes wires policyNode).flatMap fun dn =>
        (compileDecision nodes wires dn).2 }

end

/-! ## The document -/

def CompiledRule.toJson (rule : CompiledRule) : Json :=
  .obj .ordinary ([(js "id", .str rule.id), (js "effect", .str rule.effect),
      (js "match", .obj .ordinary rule.matchOn)]
    ++ (rule.limits.map fun l => (js "limits", Json.obj .ordinary l)).toList
    ++ (rule.providers.map fun ps => (js "providers", Json.arr ps)).toList)

/-- The policy as an object, members in the order of the source. -/
def CompiledPolicy.toJson (p : CompiledPolicy) : Json :=
  .obj .ordinary [(js "schemaVersion", .num (.finite (.ofNat 1))), (js "default", .str p.default),
    (js "chain", .obj .ordinary [(js "name", .str (js "XPR")), (js "chainId", .str p.chainId)]),
    (js "maxActionsPerTransaction", .num p.maxActionsPerTransaction),
    (js "rules", .arr (p.rules.map CompiledRule.toJson))]

end Signbox
