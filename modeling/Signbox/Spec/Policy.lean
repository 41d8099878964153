import Signbox.Spec.Dialect

/-!
# Policy documents

`core/policy/schema.ts`: the typed policy, the closed JSON schema it is read with, and
`validatePolicy`, which additionally refuses duplicate rule ids, limits on a deny rule
and limit assets the dialect cannot parse.
-/

namespace Signbox

inductive MatchValue where
  | lit (s : JsString)
  | lte (bound : JsString)
  | gte (bound : JsString)
  | eq (s : JsString)
  | isIn (vs : List JsString)
  | notIn (vs : List JsString)
  deriving DecidableEq

inductive ProviderOp where
  | contains
  | eq
  deriving DecidableEq

/-- The unresolved arguments of a provider requirement; `scope` defaults to `contract`. Any of them
may be a variable. -/
structure TableRowArgs where
  contract : JsString
  scope : Option JsString
  table : JsString
  key : JsString
  deriving DecidableEq

/-- A deterministic provider requirement: an extra condition on one table row. It is asked together
with the rule's `match`. -/
structure TableRowProvider where
  provider : JsString
  args : TableRowArgs
  select : JsString
  op : ProviderOp
  value : JsString
  deriving DecidableEq

structure RuleLimits where
  maxPerTransaction : Option JsString
  maxPerHour : Option JsString
  maxPerDay : Option JsString
  cooldownPerRecipientMs : Option ℕ
  maxCountPerHour : Option ℕ
  maxCountPerDay : Option ℕ
  maxCountPerRecipientPerHour : Option ℕ
  deriving DecidableEq

inductive Effect where
  | allow
  | deny
  deriving DecidableEq

structure PolicyRule where
  id : JsString
  effect : Effect
  /-- The field predicates of `match`, in the order `Object.entries` lists them. -/
  matchOn : List (JsString × MatchValue)
  limits : Option RuleLimits
  providers : Option (List TableRowProvider)
  deriving DecidableEq

structure PolicyChain where
  name : JsString
  chainId : JsString
  deriving DecidableEq

structure Policy where
  chain : PolicyChain
  rules : List PolicyRule
  maxActionsPerTransaction : Option ℕ
  deriving DecidableEq

/-! ## The JSON schema -/

namespace Schema

/-- `additionalProperties: false`: every member is one of those that are allowed. -/
def closed (ms : List (JsString × Json)) (allowed : List JsString) : Bool :=
  ms.all fun m => allowed.contains m.1

/-- `{ type: "string", minLength, maxLength }`. The bounds count code points. -/
def text (lo hi : ℕ) : Json → Option JsString
  | .str s => if lo ≤ ucs2length s ∧ ucs2length s ≤ hi then some s else none
  | _ => none

/-- `{ type: "string", pattern }`. -/
def pattern (p : JsString → Bool) : Json → Option JsString
  | .str s => if p s then some s else none
  | _ => none

/-- `{ type: "integer", minimum, maximum }`. A number such as `1.0` is an integer. -/
def integer (lo hi : ℕ) : Json → Option ℕ
  | .num n =>
    match n.toInt? with
    | some i => if (lo : ℤ) ≤ i ∧ i ≤ (hi : ℤ) then some i.toNat else none
    | none => none
  | _ => none

/-- `{ const }` on a string. -/
def const (s : JsString) : Json → Option Unit
  | .str t => if t = s then some () else none
  | _ => none

/-- `{ type: "array", minItems, maxItems, items }`. -/
def array {α : Type} (lo hi : ℕ) (item : Json → Option α) : Json → Option (List α)
  | .arr vs => if lo ≤ vs.length ∧ vs.length ≤ hi then vs.mapM item else none
  | _ => none

/-- A required property. -/
def required {α : Type} (ms : List (JsString × Json)) (key : JsString) (f : Json → Option α) :
    Option α :=
  (ms.lookup key).bind f

/-- An optional property: absent, or valid. A value of the wrong form is not the same as none. -/
def optional {α : Type} (ms : List (JsString × Json)) (key : JsString) (f : Json → Option α) :
    Option (Option α) :=
  match ms.lookup key with
  | none => some none
  | some v => (f v).map some

/-- The six shapes of `matchValueSchema`: a text, or an object with exactly one operator. -/
def matchValue : Json → Option MatchValue
  | .obj _ [(key, v)] =>
    if key = js "lte" then (text 1 64 v).map .lte
    else if key = js "gte" then (text 1 64 v).map .gte
    else if key = js "eq" then (text 1 256 v).map .eq
    else if key = js "in" then (array 1 256 (text 1 256) v).map .isIn
    else if key = js "notIn" then (array 1 256 (text 1 256) v).map .notIn
    else none
  | v => (text 1 256 v).map .lit

def matchFields (dialect : PolicyDialect) : Json → Option (List (JsString × MatchValue))
  | .obj _ ms =>
    if 1 ≤ ms.length ∧ ms.length ≤ 32 then
      ms.mapM fun m => do
        guard (dialect.matchPathPattern m.1)
        return (m.1, ← matchValue m.2)
    else none
  | _ => none

def limits : Json → Option RuleLimits
  | .obj _ ms => do
    guard (closed ms [js "maxPerTransaction", js "maxPerHour", js "maxPerDay",
      js "cooldownPerRecipientMs", js "maxCountPerHour", js "maxCountPerDay",
      js "maxCountPerRecipientPerHour"] ∧ 1 ≤ ms.length)
    return {
      maxPerTransaction := ← optional ms (js "maxPerTransaction") (text 1 64)
      maxPerHour := ← optional ms (js "maxPerHour") (text 1 64)
      maxPerDay := ← optional ms (js "maxPerDay") (text 1 64)
      cooldownPerRecipientMs := ← optional ms (js "cooldownPerRecipientMs") (integer 0 86400000)
      maxCountPerHour := ← optional ms (js "maxCountPerHour") (integer 1 1000000)
      maxCountPerDay := ← optional ms (js "maxCountPerDay") (integer 1 1000000)
      maxCountPerRecipientPerHour :=
        ← optional ms (js "maxCountPerRecipientPerHour") (integer 1 1000000) }
  | _ => none

def providerArgs : Json → Option TableRowArgs
  | .obj _ ms => do
    guard (closed ms [js "contract", js "scope", js "table", js "key"])
    return {
      contract := ← required ms (js "contract") (text 1 64)
      scope := ← optional ms (js "scope") (text 1 64)
      table := ← required ms (js "table") (text 1 64)
      key := ← required ms (js "key") (text 1 64) }
  | _ => none

def providerOp : Json → Option ProviderOp
  | .str s => if s = js "contains" then some .contains else if s = js "eq" then some .eq else none
  | _ => none

def provider (dialect : PolicyDialect) : Json → Option TableRowProvider
  | .obj _ ms => do
    guard (closed ms [js "provider", js "args", js "select", js "op", js "value"])
    required ms (js "provider") (const dialect.providerNamespace)
    return {
      provider := dialect.providerNamespace
      args := ← required ms (js "args") providerArgs
      select := ← required ms (js "select") (pattern dialect.selectFieldPattern)
      op := ← required ms (js "op") providerOp
      value := ← required ms (js "value") (text 1 256) }
  | _ => none

def effect : Json → Option Effect
  | .str s => if s = js "allow" then some .allow else if s = js "deny" then some .deny else none
  | _ => none

def rule (dialect : PolicyDialect) : Json → Option PolicyRule
  | .obj _ ms => do
    guard (closed ms [js "id", js "effect", js "match", js "limits", js "providers"])
    return {
      id := ← required ms (js "id") (pattern ruleIdPattern)
      effect := ← required ms (js "effect") effect
      matchOn := ← required ms (js "match") (matchFields dialect)
      limits := ← optional ms (js "limits") limits
      providers := ← optional ms (js "providers") (array 1 8 (provider dialect)) }
  | _ => none

def chain (dialect : PolicyDialect) : Json → Option PolicyChain
  | .obj _ ms => do
    guard (closed ms [js "name", js "chainId"])
    return {
      name := ← required ms (js "name") (text 1 32)
      chainId := ← required ms (js "chainId") (pattern dialect.chainIdPattern) }
  | _ => none

/-- `policyJsonSchemaFor(dialect)`, as a reader: what the schema accepts is read into the typed
policy in one pass. -/
def policy (dialect : PolicyDialect) : Json → Option Policy
  | .obj _ ms => do
    guard (closed ms [js "schemaVersion", js "default", js "maxActionsPerTransaction", js "chain",
      js "rules"])
    let _ ← required ms (js "schemaVersion") (integer 1 1)
    required ms (js "default") (const (js "deny"))
    return {
      chain := ← required ms (js "chain") (chain dialect)
      rules := ← required ms (js "rules") (array 0 256 (rule dialect))
      maxActionsPerTransaction := ← optional ms (js "maxActionsPerTransaction") (integer 1 64) }
  | _ => none

end Schema

/-! ## Validation -/

/-- The asset bounds of a rule, under their field names, which the errors name. -/
def RuleLimits.assets (l : RuleLimits) : List (JsString × Option JsString) :=
  [(js "maxPerTransaction", l.maxPerTransaction), (js "maxPerHour", l.maxPerHour),
    (js "maxPerDay", l.maxPerDay)]

/-- A limit asset must parse at load time, so that an evaluation never meets one that does not. -/
def validateLimit (dialect : PolicyDialect) (rule : PolicyRule)
    (field : JsString × Option JsString) : Except JsError Unit :=
  match field.2 with
  | none => .ok ()
  | some raw =>
    match dialect.parseAssetLimit raw with
    | .ok _ => .ok ()
    | .error _ => .error (.validation (js "rule \"" ++ rule.id ++ js "\": " ++ field.1
        ++ js " is not a valid asset string"))

/-- What the schema cannot say about one rule, given the ids before it: a repeated id, limits on a
deny rule, a bad asset. -/
def validateRule (dialect : PolicyDialect) (seenIds : List JsString) (rule : PolicyRule) :
    Except JsError Unit := do
  if seenIds.contains rule.id then
    throw (.validation (js "duplicate rule id: " ++ rule.id))
  if rule.effect = .deny ∧ rule.limits.isSome then
    throw (.validation (js "deny rule \"" ++ rule.id ++ js "\" must not declare limits"))
  match rule.limits with
  | none => return ()
  | some limits => forM limits.assets (validateLimit dialect rule)

def validateRules (dialect : PolicyDialect) : List JsString → List PolicyRule → Except JsError Unit
  | _, [] => .ok ()
  | seenIds, rule :: rules => do
    validateRule dialect seenIds rule
    validateRules dialect (rule.id :: seenIds) rules

/-- Validate a policy document. Throws on any deviation. The rules are checked in their order,
after the whole schema. -/
def validatePolicy (input : Json) (dialect : PolicyDialect) : Except JsError Policy :=
  match Schema.policy dialect input with
  | none => .error (.validation (js "policy schema violation"))
  | some policy => do
    validateRules dialect [] policy.rules
    return policy

/-- The canonical empty policy for a chain. It has no rules, so it denies everything. -/
def emptyPolicy (chainName chainId : JsString) : Policy := ⟨⟨chainName, chainId⟩, [], none⟩

end Signbox
