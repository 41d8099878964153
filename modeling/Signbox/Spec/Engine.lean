import Signbox.Guard.ShortCircuit
import Signbox.Spec.Policy

/-!
# The policy engine

`core/policy/engine.ts`: a pure function of the decoded transaction, the policy and the
evaluation context. An explicit deny wins, the first matching allow rule governs an
action, and anything that cannot be compared throws and becomes a refusal.
-/

namespace Signbox

open Guard

/-- Evidence keyed by `canonical(provider + resolved args)`. The daemon resolves it before the
evaluation, which reads the map only. -/
abbrev ProviderEvidenceMap := JsString → Option ProviderEvidence

structure EvaluationContext where
  agent : JsString
  agentPermission : JsString
  chainId : JsString
  policyVersion : ℤ
  dialect : PolicyDialect
  evidence : Option ProviderEvidenceMap

/-- Stateful limits the daemon must reserve in the quota journal before signing. The engine has no
history, so it only says which amount counts against which limits. -/
structure QuotaDemand where
  ruleId : JsString
  amount : AssetAmount
  recipient : Option JsString
  maxPerHour : Option AssetAmount
  maxPerDay : Option AssetAmount
  cooldownPerRecipientMs : Option ℕ
  maxCountPerHour : Option ℕ
  maxCountPerDay : Option ℕ
  maxCountPerRecipientPerHour : Option ℕ
  deriving DecidableEq

structure EvaluationResult where
  decision : Decision
  quotaDemands : List QuotaDemand
  deriving DecidableEq

/-! ## Predicates -/

def VARIABLES : List JsString := [js "$agent", js "$agentPermission"]

def substitute (value : JsString) (ctx : EvaluationContext) : Except JsError JsString :=
  if value = js "$agent" then .ok ctx.agent
  else if value = js "$agentPermission" then .ok ctx.agentPermission
  else if VARIABLES.any fun v => value.includes v then
    .error (.ambiguous (js "unsupported embedded variable in \"" ++ value ++ js "\""))
  else .ok value

/-- Ordered comparison: bare amounts of equal precision, or safe integers. Any other pair throws,
so a bound is never compared as text or as a float. -/
def compareOrdered (actual : JsValue) (expected : JsString) : Except JsError Ordering :=
  match actual with
  | .json (.str s) => do compareBareAmounts (← parseBareAmount s) (← parseBareAmount expected)
  | .json (.num n) =>
    match n.safeInt? with
    | some a =>
      if expected ≠ [] ∧ expected.all isDigit then .ok (compare a (natOfDigits expected : ℤ))
      else .error (.ambiguous (js "integer field compared against non-integer bound"))
    | none => .error (.ambiguous (js "value is not comparable"))
  | _ => .error (.ambiguous (js "value is not comparable"))

/-- `typeof actual === "string" && actual === substitute(expected, ctx)`. The variable is
substituted only for a text, so a value of another type never throws. -/
def equalsText (actual : JsValue) (expected : JsString) (ctx : EvaluationContext) :
    Except JsError Bool :=
  match actual.str? with
  | some s => return s == (← substitute expected ctx)
  | none => .ok false

/-- Does one predicate hold? A value that is not a text satisfies no `eq`, `in` or `notIn`, and an
absent one satisfies no bound. -/
def predicateHolds (actual : JsValue) (expected : MatchValue) (ctx : EvaluationContext) :
    Except JsError Bool :=
  match expected with
  | .lit s => equalsText actual s ctx
  | .eq s => equalsText actual s ctx
  | .isIn vs =>
    match actual.str? with
    | some s => vs.anyM fun v => return s == (← substitute v ctx)
    | none => .ok false
  | .notIn vs =>
    match actual.str? with
    | some s => return !(← vs.anyM fun v => return s == (← substitute v ctx))
    | none => .ok false
  | .lte bound =>
    if actual.isNullish then .ok false
    else return (← compareOrdered actual bound) != .gt
  | .gte bound =>
    if actual.isNullish then .ok false
    else return (← compareOrdered actual bound) != .lt

/-- One entry of a rule's `match`: the dialect resolves the path, and the predicate is asked of the
value found there. -/
def fieldHolds (action : DecodedAction) (ctx : EvaluationContext)
    (field : JsString × MatchValue) : Except JsError Bool := do
  predicateHolds (← ctx.dialect.resolvePath action field.1) field.2 ctx

/-- The static part of a rule: its `match` field predicates only. They are asked in order, up to
the first that does not hold. -/
def staticMatch (action : DecodedAction) (rule : PolicyRule) (ctx : EvaluationContext) :
    Except JsError Bool :=
  rule.matchOn.allM (fieldHolds action ctx)

/-! ## Providers -/

/-- Substitute a provider argument: a literal, or a `$`-variable that resolves to a string. A
variable that resolves to anything else throws. -/
def substituteArg (value : JsString) (action : DecodedAction) (ctx : EvaluationContext) :
    Except JsError JsString :=
  if ¬ (js "$").isPrefixOf value then .ok value
  else if value = js "$agent" then .ok ctx.agent
  else if value = js "$agentPermission" then .ok ctx.agentPermission
  else do
    let resolved ← ctx.dialect.resolvePath action (value.drop 1)
    match resolved.str? with
    | some s => return s
    | none => throw (.ambiguous
        (js "provider variable \"" ++ value ++ js "\" did not resolve to a string"))

/-- Fully resolve a table-row provider's arguments (scope defaults to contract). -/
def resolveTableRowArgs (req : TableRowProvider) (action : DecodedAction)
    (ctx : EvaluationContext) : Except JsError ProviderArgs :=
  return {
    contract := ← substituteArg req.args.contract action ctx
    scope := ← substituteArg (req.args.scope.getD req.args.contract) action ctx
    table := ← substituteArg req.args.table action ctx
    key := ← substituteArg req.args.key action ctx }

/-- Canonical evidence key, so the daemon resolver and the engine agree exactly. It names the
provider and all four of its arguments, in the order of the canonical form. -/
def evidenceKey (provider : JsString) (args : ProviderArgs) : Except JsError JsString :=
  canonicalize (.obj .ordinary [(js "provider", .str provider),
    (js "args", .obj .ordinary [(js "contract", .str args.contract), (js "scope", .str args.scope),
      (js "table", .str args.table), (js "key", .str args.key)])])

/-- The query one requirement asks for one action. -/
def providerQuery (req : TableRowProvider) (action : DecodedAction) (ctx : EvaluationContext) :
    Except JsError ProviderQuery := do
  let args ← resolveTableRowArgs req action ctx
  return ⟨← evidenceKey req.provider args, req.provider, args⟩

/-- Add a requirement's query to the map unless its key is there; an argument that
cannot be resolved adds nothing. -/
def collectRequirement (action : DecodedAction) (ctx : EvaluationContext)
    (out : List ProviderQuery) (req : TableRowProvider) : List ProviderQuery :=
  match providerQuery req action ctx with
  | .ok q => if out.any (·.key == q.key) then out else out ++ [q]
  | .error _ => out

def collectRule (action : DecodedAction) (ctx : EvaluationContext) (out : List ProviderQuery)
    (rule : PolicyRule) : Except JsError (List ProviderQuery) :=
  match rule.providers with
  | none => .ok out
  | some [] => .ok out
  | some reqs => do
    if ← staticMatch action rule ctx then return reqs.foldl (collectRequirement action ctx) out
    else return out

/-- The queries the daemon must resolve before evaluation: of every rule with providers whose
static part holds of some action. Each key is asked once. -/
def collectProviderQueries (tx : DecodedTransaction) (policy : Policy) (ctx : EvaluationContext) :
    Except JsError (List ProviderQuery) :=
  tx.actions.foldlM (fun out action => policy.rules.foldlM (collectRule action ctx) out) []

/-- The condition a requirement puts on the row it found: the selected field contains the target,
or is equal to it as a text. -/
def rowHolds (req : TableRowProvider) (action : DecodedAction) (ctx : EvaluationContext)
    (row : List (JsString × Json)) : Except JsError Bool := do
  let field := readMember .ordinary row req.select
  let target ← substituteArg req.value action ctx
  match req.op with
  | .contains =>
    match field with
    | .json (.arr items) => return (← items.mapM Json.toText).contains target
    | _ => throw (.ambiguous
        (js "provider field \"" ++ req.select ++ js "\" is not an array for \"contains\""))
  | .eq => if field.isNullish then return false else return (← field.toText) == target

/-- Does a single provider requirement hold against the injected evidence? A row that was not found
is a `false`, while a failed query throws. -/
def providerHolds (req : TableRowProvider) (action : DecodedAction) (ctx : EvaluationContext) :
    Except JsError Bool := do
  let query ← providerQuery req action ctx
  match ctx.evidence.bind fun evidence => evidence query.key with
  | some (.row row) => rowHolds req action ctx row
  | some .notFound => return false
  | _ => throw (.providerUnavailable
      (js "provider \"" ++ req.provider ++ js "\" evidence is unavailable"))

def ruleMatches (action : DecodedAction) (rule : PolicyRule) (ctx : EvaluationContext) :
    Except JsError Bool := do
  if ← staticMatch action rule ctx then
    match rule.providers with
    | none => return true
    | some reqs => reqs.allM fun req => providerHolds req action ctx
  else return false

/-! ## Evaluation -/

/-- Why evaluation stops early: a refusal it returns, or an error it throws. Both end as a refusal;
the code of an error is chosen by its kind. -/
inductive Stop where
  | refused (code : DenyCode) (safeReason : JsString)
  | threw (error : JsError)

/-- A computation that may throw, inside evaluation. -/
def throwing {α : Type} (x : Except JsError α) : Except Stop α := x.mapError .threw

/-- The running total of one rule's matching actions against its per-transaction cap. The cap is
the one of the first action that was counted. -/
structure RuleTotal where
  units : ℕ
  cap : AssetAmount

/-- What the loop over the actions accumulates: the rules that govern them, the demands on the
journal, and the totals the caps are checked against. -/
structure Tally where
  ruleIds : List JsString
  quotaDemands : List QuotaDemand
  perRuleTotals : List (JsString × RuleTotal)

/-- `perRuleTotals.get(id) ?? { units: 0n, cap }`, increased and stored back. -/
def addTotal (totals : List (JsString × RuleTotal)) (id : JsString) (units : ℕ)
    (cap : AssetAmount) : List (JsString × RuleTotal) :=
  match totals with
  | [] => [(id, ⟨units, cap⟩)]
  | (id', t) :: rest =>
    if id' = id then (id', ⟨t.units + units, t.cap⟩) :: rest
    else (id', t) :: addTotal rest id units cap

def wantsWindow (limits : RuleLimits) : Bool :=
  limits.maxPerHour.isSome || limits.maxPerDay.isSome || limits.cooldownPerRecipientMs.isSome ||
    limits.maxCountPerHour.isSome || limits.maxCountPerDay.isSome ||
    limits.maxCountPerRecipientPerHour.isSome

/-- The demand a governed action makes on the quota journal. A limit per recipient throws on an
action that has no recipient. -/
def quotaDemand (dialect : PolicyDialect) (ruleId : JsString) (limits : RuleLimits)
    (asset : AssetAmount) (recipient : Option JsString) : Except JsError QuotaDemand := do
  let maxPerHour ← limits.maxPerHour.mapM dialect.parseAssetLimit
  let maxPerDay ← limits.maxPerDay.mapM dialect.parseAssetLimit
  failIf (limits.cooldownPerRecipientMs.isSome ∧ recipient = none)
    (.ambiguous (js "cooldownPerRecipientMs requires a recipient on the action"))
  failIf (limits.maxCountPerRecipientPerHour.isSome ∧ recipient = none)
    (.ambiguous (js "maxCountPerRecipientPerHour requires a recipient on the action"))
  return {
    ruleId := ruleId
    amount := asset
    recipient := recipient
    maxPerHour := maxPerHour
    maxPerDay := maxPerDay
    cooldownPerRecipientMs := limits.cooldownPerRecipientMs
    maxCountPerHour := limits.maxCountPerHour
    maxCountPerDay := limits.maxCountPerDay
    maxCountPerRecipientPerHour := limits.maxCountPerRecipientPerHour }

/-- The per-transaction cap of a rule, which the action's asset must be comparable with: the same
symbol and the same precision. -/
def transactionCap (dialect : PolicyDialect) (asset : AssetAmount) (raw : JsString) :
    Except JsError AssetAmount := do
  let cap ← dialect.parseAssetLimit raw
  failIf (asset.symbol ≠ cap.symbol ∨ asset.precision ≠ cap.precision)
    (.ambiguous (js "action asset does not match the rule's per-transaction cap"))
  return cap

/-- Count an action's units toward its rule's per-transaction cap. The sum is compared with the cap
after the last action. -/
def capTotals (dialect : PolicyDialect) (governing : PolicyRule) (limits : RuleLimits)
    (asset : AssetAmount) (totals : List (JsString × RuleTotal)) :
    Except JsError (List (JsString × RuleTotal)) :=
  match limits.maxPerTransaction with
  | none => return totals
  | some raw => do
    let cap ← transactionCap dialect asset raw
    return addTotal totals governing.id asset.units cap

/-- Demand the windowed limits of the rule that governs an action. Actions of one rule make one
demand each, in the order of the actions. -/
def demandWindow (ctx : EvaluationContext) (action : DecodedAction) (governing : PolicyRule)
    (limits : RuleLimits) (asset : AssetAmount) (demands : List QuotaDemand) :
    Except JsError (List QuotaDemand) :=
  if wantsWindow limits then do
    let demand ← quotaDemand ctx.dialect governing.id limits asset (ctx.dialect.recipientOf action)
    return demands ++ [demand]
  else return demands

/-- Enforce the limits of the rule that governs an action. The asset is only asked for when the
rule has limits. -/
def applyLimits (ctx : EvaluationContext) (action : DecodedAction) (governing : PolicyRule)
    (tally : Tally) : Except JsError Tally :=
  match governing.limits with
  | none => return tally
  | some limits => do
    let asset ← ctx.dialect.assetOf action
    let perRuleTotals ← capTotals ctx.dialect governing limits asset tally.perRuleTotals
    let quotaDemands ← demandWindow ctx action governing limits asset tally.quotaDemands
    return { tally with quotaDemands := quotaDemands, perRuleTotals := perRuleTotals }

/-- The first allow rule, in policy order, whose match applies. The rules after it are not looked
at, so their limits do not count. -/
def governingRule (policy : Policy) (ctx : EvaluationContext) (action : DecodedAction) :
    Except JsError (Option PolicyRule) :=
  policy.rules.findM? fun r => if r.effect = .allow then ruleMatches action r ctx else .ok false

/-- One pass of the loop over the actions: an action without a governing rule ends the evaluation
with the default deny. -/
def tallyAction (policy : Policy) (ctx : EvaluationContext) (tally : Tally)
    (action : DecodedAction) : Except Stop Tally := do
  match ← throwing (governingRule policy ctx action) with
  | none => throw (.refused .defaultDeny (js "no policy rule allows this transaction"))
  | some governing => do
    let tally ← throwing (applyLimits ctx action governing tally)
    return { tally with ruleIds := tally.ruleIds ++ [governing.id] }

/-- Explicit deny always wins: one denied action refuses everything. It is a pass of its own,
before any allow rule is tried. -/
def explicitlyDenied (tx : DecodedTransaction) (policy : Policy) (ctx : EvaluationContext) :
    Except JsError Bool :=
  tx.actions.anyM fun action => policy.rules.anyM fun rule =>
    if rule.effect = .deny then ruleMatches action rule ctx else .ok false

/-- The body of `evaluatePolicy`, up to the refusals it returns and the errors it throws. The
checks stand in the order of the source, which decides the code of a refusal. -/
def evaluateActions (tx : DecodedTransaction) (policy : Policy) (ctx : EvaluationContext) :
    Except Stop EvaluationResult := do
  failIf (policy.chain.chainId ≠ ctx.chainId ∨ tx.context.chainId ≠ ctx.chainId)
    (.refused .chainMismatch (js "transaction chain does not match the configured chain"))
  failIf (tx.actions = []) (.refused .emptyTransaction (js "transaction contains no action"))
  failIf (∃ a ∈ tx.actions, a.authorization.length ≠ 1)
    (.refused .multiAuthorization (js "actions must carry exactly one authorization"))
  failIf (← throwing (explicitlyDenied tx policy ctx))
    (.refused .ruleDeny (js "a policy rule denies this transaction"))
  failIf (tx.actions.length > policy.maxActionsPerTransaction.getD 1)
    (.refused .tooManyActions (js "transaction has more actions than the policy allows"))
  let tally ← tx.actions.foldlM (tallyAction policy ctx) ⟨[], [], []⟩
  failIf (∃ t ∈ tally.perRuleTotals, t.2.units > t.2.cap.units)
    (.refused .limitExceeded (js "transaction exceeds a policy limit"))
  return ⟨.allow tally.ruleIds ctx.policyVersion, tally.quotaDemands⟩

def refuse (ctx : EvaluationContext) (code : DenyCode) (safeReason : JsString) :
    EvaluationResult :=
  ⟨.deny code safeReason (some ctx.policyVersion), []⟩

/-- Any evaluation ambiguity or internal failure is a refusal. The text that goes out is fixed, and
says nothing of the value it is about. -/
def refuseError (ctx : EvaluationContext) : JsError → EvaluationResult
  | .providerUnavailable _ =>
    refuse ctx .providerUnavailable (js "a policy provider could not be resolved")
  | .ambiguous _ | .asset _ => refuse ctx .ambiguousValue
      (js "transaction contains a value the policy cannot compare safely")
  | _ => refuse ctx .internalError (js "policy evaluation failed")

def evaluatePolicy (tx : DecodedTransaction) (policy : Policy) (ctx : EvaluationContext) :
    EvaluationResult :=
  match evaluateActions tx policy ctx with
  | .ok result => result
  | .error (.refused code safeReason) => refuse ctx code safeReason
  | .error (.threw error) => refuseError ctx error

end Signbox
