import Signbox.Spec.Asset
import Signbox.Spec.Text

/-!
# Decoding an XPR transaction

`chains/xpr/decode.ts`: the only accepted input is a list of readable actions. It is
checked against a closed schema and normalized: asset strings become structured amounts,
and every object of an action's data loses its prototype.
-/

namespace Signbox

/-! ## The transaction schema -/

/-- `[a-z1-5.]`. -/
def isNameUnit (u : UInt16) : Bool :=
  isLower u || (decide (unit '1' ≤ u) && decide (u ≤ unit '5')) || u == unit '.'

def NAME_PATTERN (s : JsString) : Bool := matchesClass isNameUnit 1 12 s

/-- Action names allow 13 chars. -/
def ACTION_NAME_PATTERN (s : JsString) : Bool := matchesClass isNameUnit 1 13 s

def DATA_KEY_RE (s : JsString) : Bool := matchesClass isWord 1 64 s

def FORBIDDEN_DATA_KEYS : List JsString := [js "__proto__", js "prototype", js "constructor"]

def MAX_DATA_DEPTH : ℕ := 8

def MAX_INPUT_BYTES : ℕ := 32 * 1024

/-- `XprActionJson`; an authorization is its actor and permission. The data are still as they were
written. -/
structure XprActionJson where
  account : JsString
  name : JsString
  authorization : List AccountIdentity
  data : List (JsString × Json)

namespace XprSchema

/-- A required string property with a pattern. -/
def name (ms : List (JsString × Json)) (key : JsString) (pattern : JsString → Bool) :
    Option JsString := do
  let s ← (← ms.lookup key).str?
  guard (pattern s)
  return s

def closed (ms : List (JsString × Json)) (allowed : List JsString) : Bool :=
  ms.all fun m => allowed.contains m.1

def authorization : Json → Option AccountIdentity
  | .obj _ ms => do
    guard (closed ms [js "actor", js "permission"])
    return ⟨← name ms (js "actor") NAME_PATTERN, ← name ms (js "permission") NAME_PATTERN⟩
  | _ => none

/-- `authorization`: an array of exactly one entry. Multiple authorizations are refused here
already. -/
def authorizations : Json → Option (List AccountIdentity)
  | .arr [auth] => (authorization auth).map fun a => [a]
  | _ => none

def action : Json → Option XprActionJson
  | .obj _ ms => do
    guard (closed ms [js "account", js "name", js "authorization", js "data"])
    return {
      account := ← name ms (js "account") NAME_PATTERN
      name := ← name ms (js "name") ACTION_NAME_PATTERN
      authorization := ← (ms.lookup (js "authorization")).bind authorizations
      data := ← (ms.lookup (js "data")).bind Json.members? }
  | _ => none

/-- `minItems: 1, maxItems: 16`: a transaction has at least one action, and not too many to
evaluate. -/
def actions : Json → Option (List XprActionJson)
  | .arr items => do
    guard (1 ≤ items.length ∧ items.length ≤ 16)
    items.mapM action
  | _ => none

/-- `transactionJsonSchema`, as a reader. An object with any other member than `actions` is
refused. -/
def transaction : Json → Option (List XprActionJson)
  | .obj _ ms => do
    guard (closed ms [js "actions"])
    (ms.lookup (js "actions")).bind actions
  | _ => none

end XprSchema

/-! ## Normalization -/

/-- Expand `12.0000 XPR` into a structured, integer-comparable form. Any other text stays as it
is. -/
def expandAssetString (value : JsString) : Json :=
  match matchAsset value with
  | none => .str value
  | some (intPart, fracPart, symbol) => .obj .ordinary
    [(js "amount", .str (match fracPart with
        | none => intPart
        | some frac => intPart ++ js "." ++ frac)),
      (js "symbol", .str symbol),
      (js "precision", .num (.finite (.ofNat ((fracPart.map List.length).getD 0))))]

mutual
def normalizeValue (depth : ℕ) : Json → Except JsError Json
  | .arr items =>
    if depth > MAX_DATA_DEPTH then .error tooDeep
    else return .arr (← normalizeItems depth items)
  | .obj _ members =>
    if depth > MAX_DATA_DEPTH then .error tooDeep
    else return .obj .bare (← normalizeMembers depth members)
  | value =>
    if depth > MAX_DATA_DEPTH then .error tooDeep
    else match value with
    | .str s => .ok (expandAssetString s)
    | .num (.infinite _) =>
      .error (.validation (js "transaction data contains a non-finite number"))
    | value => .ok value
where
  tooDeep : JsError := .validation (js "transaction data exceeds maximum nesting depth")

def normalizeItems (depth : ℕ) : List Json → Except JsError (List Json)
  | [] => .ok []
  | v :: vs => return (← normalizeValue (depth + 1) v) :: (← normalizeItems depth vs)

def normalizeMembers (depth : ℕ) : List (JsString × Json) → Except JsError (List (JsString × Json))
  | [] => .ok []
  | (key, v) :: ms =>
    if DATA_KEY_RE key = false ∨ FORBIDDEN_DATA_KEYS.contains key then
      .error (.validation (js "transaction data contains an invalid field name"))
    else return (key, ← normalizeValue (depth + 1) v) :: (← normalizeMembers depth ms)
end

def normalizeAction (action : XprActionJson) : Except JsError DecodedAction :=
  return ⟨action.account, action.name, action.authorization, ← normalizeMembers 0 action.data⟩

/-- Validate and normalize a raw transaction. Throws on any structural deviation; the
schema violation's text is the validator's own and is left out. -/
def decodeXprTransaction (input : Json) (context : ChainContext) :
    Except JsError DecodedTransaction :=
  match input with
  | .str _ => .error (.validation (js "packed or serialized transactions are never accepted"))
  | input =>
    if input.stringify.length > MAX_INPUT_BYTES then
      .error (.validation (js "transaction JSON exceeds the maximum accepted size"))
    else match XprSchema.transaction input with
    | none => .error (.validation (js "transaction schema violation"))
    | some actions => return ⟨context, ← actions.mapM normalizeAction, some input⟩

end Signbox
