import Signbox.Guard.ShortCircuit
import Signbox.Spec.Onboarding
import Signbox.Spec.Number

/-!
# Onboarding requests

`chains/xpr/onboardingActions.ts` builds the actions of an onboarding, `buildRequest` of
`chains/xpr/onboarding.ts` puts them in the payload of the companion link, and
`onboarding/validate.ts` is what the companion checks before a wallet signs. A payload is a parsed
JSON object; no member read here is one that objects inherit.
-/

namespace Signbox

open Guard

/-! ## The actions -/

structure BuildActionsInput where
  authority : JsString
  agent : JsString
  permission : JsString
  agentPublicKey : JsString
  authorityPublicKey : JsString
  signboxContract : JsString
  emptyPolicyJson : JsString
  emptyPolicyHash : JsString
  /-- None is `undefined`, or `NaN`. -/
  ramBytes : Option JsNumber

/-- `n > 0`. -/
def JsNumber.isPositive : JsNumber → Bool
  | .finite d => !d.neg && d.coeff != 0
  | .infinite neg => !neg

namespace Onboard

def natural (n : ℕ) : Json := .num (.finite (.ofNat n))

/-- An authority structure satisfied by a single public key. -/
def keyAuthority (key : JsString) : Json :=
  .obj .ordinary [(js "threshold", natural 1),
    (js "keys", .arr [.obj .ordinary [(js "key", .str key), (js "weight", natural 1)]]),
    (js "accounts", .arr []), (js "waits", .arr [])]

def authorizationOf (actor permission : JsString) : Json :=
  .obj .ordinary [(js "actor", .str actor), (js "permission", .str permission)]

def actionOf (account name : JsString) (authorization : List Json)
    (data : List (JsString × Json)) : Json :=
  .obj .ordinary [(js "account", .str account), (js "name", .str name),
    (js "authorization", .arr authorization), (js "data", .obj .ordinary data)]

/-- The purchase of RAM, which is left out when it is not of a positive number of bytes. The
authority pays, and the agent receives. -/
def buyRam (input : BuildActionsInput) : List Json :=
  match input.ramBytes with
  | none => []
  | some bytes =>
    if bytes.isPositive then
      [actionOf (js "eosio") (js "buyrambytes") [authorizationOf input.authority (js "active")]
        [(js "payer", .str input.authority), (js "receiver", .str input.agent),
          (js "bytes", .num bytes)]]
    else []

def buildOnboardingActions (input : BuildActionsInput) : List Json :=
  [actionOf (js "eosio") (js "newaccount") [authorizationOf input.authority (js "active")]
    [(js "creator", .str input.authority), (js "name", .str input.agent),
      (js "owner", keyAuthority input.authorityPublicKey),
      (js "active", keyAuthority input.agentPublicKey)]] ++
  buyRam input ++
  [actionOf input.signboxContract (js "createpolicy")
    [authorizationOf input.authority (js "active"), authorizationOf input.agent (js "owner")]
    [(js "agent", .str input.agent), (js "authority", .str input.authority),
      (js "agentperm", .str input.permission), (js "version", natural 1),
      (js "policyhash", .str input.emptyPolicyHash), (js "policyjson", .str input.emptyPolicyJson)]]

/-! ## The request -/

/-- The payload `buildRequest` puts in the companion link. The summary repeats what the actions
say. -/
def requestPayload (endpoints : List JsString) (signboxContract : JsString)
    (args : BuildRequestArgs) (authorityPublicKey : JsString) : List (JsString × Json) :=
  let input := args.input
  [(js "v", natural 1), (js "kind", .str (js "onboard")), (js "network", .str input.chain.network),
    (js "chainId", .str input.chain.chainId), (js "endpoints", .arr (endpoints.map .str)),
    (js "signboxContract", .str signboxContract),
    (js "summary", .obj .ordinary [(js "agent", .str input.agent),
      (js "authority", .str input.authority), (js "permission", .str input.permission),
      (js "publicKey", .str args.agentPublicKey)]),
    (js "actions", .arr (buildOnboardingActions
      ⟨input.authority, input.agent, input.permission, args.agentPublicKey, authorityPublicKey,
        signboxContract, args.emptyPolicyJson, args.emptyPolicyHash, input.ramBytes⟩))]

/-! ## The validator -/

/-- Anchors from compiled configuration and trusted endpoints. Nothing of the payload is believed
that they contradict. -/
structure TrustedContext where
  chainId : JsString
  chainName : JsString
  signboxContract : JsString
  agentAccountExists : Bool

structure OnboardAction where
  account : JsString
  name : JsString
  authorization : List (JsString × JsString)
  data : List (JsString × Json)

structure OnboardDerived where
  agent : JsString
  authority : JsString
  permission : JsString
  agentPublicKey : JsString
  ownerKey : JsString
  ramBytes : JsNumber
  actionCount : ℕ

/-- `^[0-9a-f]{64}$`. -/
def isHex64 (s : JsString) : Bool :=
  matchesClass (fun u => isDigit u || (decide (unit 'a' ≤ u) && decide (u ≤ unit 'f'))) 64 64 s

/-- The items, if the value is an array. -/
def items? : Json → Option (List Json)
  | .arr items => some items
  | _ => none

def isAuthorization? (v : Json) : Option (JsString × JsString) := do
  let ms ← v.members?
  let actor ← (← ms.lookup (js "actor")).str?
  let permission ← (← ms.lookup (js "permission")).str?
  return (actor, permission)

/-- A well-formed action shape, read. -/
def isAction? (v : Json) : Option OnboardAction := do
  let ms ← v.members?
  let account ← (← ms.lookup (js "account")).str?
  let name ← (← ms.lookup (js "name")).str?
  let authorization ← (← items? (← ms.lookup (js "authorization"))).mapM isAuthorization?
  let data ← (← ms.lookup (js "data")).members?
  return ⟨account, name, authorization, data⟩

/-- `n < 1`. -/
def belowOne : JsNumber → Bool
  | .finite d => decide (d.value < 1)
  | .infinite neg => neg

/-- A weight that is not a number below one. A missing weight, or one that is no number, is
accepted. -/
def weightAccepted : Option Json → Bool
  | some (.num n) => !belowOne n
  | _ => true

/-- `value === 1`. -/
def isOne : Option Json → Bool
  | some (.num n) => n == .finite (.ofNat 1)
  | _ => false

def isEmptyArray : Option Json → Bool
  | some (.arr []) => true
  | _ => false

/-- The members of the one item, if the value is an array of one object. Any other number of items
is refused. -/
def single? : Json → Option (List (JsString × Json))
  | .arr [.obj _ ks] => some ks
  | _ => none

/-- A threshold-1, single-key authority with no delegated accounts and no waits. It is read as its
one key. -/
def exclusiveSingleKey (value : Option Json) : Option JsString := do
  let ms ← (← value).members?
  guard (isOne (ms.lookup (js "threshold")))
  let ks ← single? (← ms.lookup (js "keys"))
  guard (isEmptyArray (ms.lookup (js "accounts")))
  guard (isEmptyArray (ms.lookup (js "waits")))
  let key ← (← ks.lookup (js "key")).str?
  guard (weightAccepted (ks.lookup (js "weight")))
  return key

/-- The canonical text of the generated empty deny-all policy. The validator computes it itself,
for the trusted chain. -/
def expectedEmptyPolicyCanonical (chainName chainId : JsString) : Except JsError JsString :=
  canonicalize (emptyPolicyValue chainName chainId)

/-- `a["key"]`, when it is a string. -/
def text? (ms : List (JsString × Json)) (key : JsString) : Option JsString :=
  (ms.lookup key).bind Json.str?

/-- The value an expression must have, or the validation fails with this text. -/
def need {α : Type} (value : Option α) (message : JsString) : Except JsString α :=
  match value with
  | some a => .ok a
  | none => .error message

/-- The byte count of the middle action: an integer that is not negative. -/
def ramBytesOf (bytes : Option Json) : Option JsNumber :=
  match bytes with
  | some (.num n) =>
    match n.toInt? with
    | some i => if i < 0 then none else some n
    | none => none
  | _ => none

/-- The actions in sequence: the first one, the last one, and one between them, if there are
three. -/
def sequence : List OnboardAction → Option (OnboardAction × Option OnboardAction × OnboardAction)
  | [first, last] => some (first, none, last)
  | [first, middle, last] => some (first, some middle, last)
  | _ => none

def fullName (a : OnboardAction) : JsString := a.account ++ js "::" ++ a.name

/-- What the middle action buys: RAM for the agent, paid by the authority. Without one, no byte is
bought. -/
def checkMiddle (authority agent : JsString) : Option OnboardAction → Except JsString JsNumber
  | none => .ok (.finite (.ofNat 0))
  | some middle => do
    failIf (text? middle.data (js "payer") ≠ some authority ∨
      text? middle.data (js "receiver") ≠ some agent) (js "buyrambytes payer/receiver mismatch")
    failIf (middle.authorization ≠ [(authority, js "active")])
      (js "buyrambytes authorization is not the authority")
    need (ramBytesOf (middle.data.lookup (js "bytes"))) (js "buyrambytes byte count is invalid")

/-- The last action registers the exact generated empty deny-all policy; its permission. -/
def checkPolicy (authority agent : JsString) (trusted : TrustedContext) (last : OnboardAction) :
    Except JsString JsString := do
  let permission ← need (text? last.data (js "agentperm")) (js "createpolicy has no agentperm")
  failIf (text? last.data (js "agent") ≠ some agent)
    (js "createpolicy agent does not match the created account")
  failIf (text? last.data (js "authority") ≠ some authority)
    (js "createpolicy authority does not match the creator")
  failIf (isOne (last.data.lookup (js "version")) = false) (js "createpolicy version must be 1")
  failIf ((text? last.data (js "policyhash")).any isHex64 = false)
    (js "createpolicy policyhash is malformed")
  failIf ((text? last.data (js "policyjson")).map Except.ok ≠
      some (expectedEmptyPolicyCanonical trusted.chainName trusted.chainId))
    (js "createpolicy does not register the exact empty deny-all policy")
  failIf (last.authorization ≠ [(authority, js "active"), (agent, js "owner")])
    (js "createpolicy authorization is not [authority@active, agent@owner]")
  return permission

/-- The payload is an onboarding one, for the trusted chain, contract and a new account. It is
checked before an action is read. -/
def checkAnchors (payload : List (JsString × Json)) (trusted : TrustedContext) :
    Except JsString Unit := do
  failIf (isOne (payload.lookup (js "v")) = false ∨ text? payload (js "kind") ≠ some (js "onboard"))
    (js "not an onboarding payload")
  failIf ((text? payload (js "chainId")).any isHex64 = false ∨
      text? payload (js "chainId") ≠ some trusted.chainId)
    (js "payload is for a different or unknown chain")
  failIf (text? payload (js "signboxContract") ≠ some trusted.signboxContract)
    (js "payload targets a contract other than the trusted deployment")
  failIf (trusted.agentAccountExists = true)
    (js "the agent account already exists — this onboarding intent is stale or replayed")

/-- The exact sequence of actions: newaccount, perhaps buyrambytes, and createpolicy. No other
action may hide among them. -/
def checkSequence (payload : List (JsString × Json)) (trusted : TrustedContext) :
    Except JsString (OnboardAction × Option OnboardAction × OnboardAction) := do
  let items ← need ((payload.lookup (js "actions")).bind items?)
    (js "unexpected number of onboarding actions")
  failIf (items.length < 2 ∨ items.length > 3) (js "unexpected number of onboarding actions")
  let actions ← need (items.mapM isAction?) (js "an onboarding action is malformed")
  let (first, middle, last) ← need (sequence actions) (js "unexpected number of onboarding actions")
  failIf (fullName first ≠ js "eosio::newaccount") (js "first action must be eosio::newaccount")
  failIf (last.account ≠ trusted.signboxContract ∨ last.name ≠ js "createpolicy")
    (js "last action must be createpolicy on the trusted contract")
  failIf (∃ action ∈ middle, fullName action ≠ js "eosio::buyrambytes")
    (js "only eosio::buyrambytes may sit between newaccount and createpolicy")
  return (first, middle, last)

/-- `validateOnboardingPayload`: the derived facts, or the one error. What is derived is read off
the actions, never off the summary. -/
def validateOnboardingPayload (payload : List (JsString × Json)) (trusted : TrustedContext) :
    Except JsString OnboardDerived := do
  checkAnchors payload trusted
  let (first, middle, last) ← checkSequence payload trusted
  -- newaccount
  let agent ← need (text? first.data (js "name")) (js "newaccount is missing account/creator")
  let authority ← need (text? first.data (js "creator"))
    (js "newaccount is missing account/creator")
  failIf (first.authorization ≠ [(authority, js "active")])
    (js "newaccount authorization is not the authority")
  let active ← need (exclusiveSingleKey (first.data.lookup (js "active")))
    (js "agent active is not an exclusive single dedicated key")
  let owner ← need (exclusiveSingleKey (first.data.lookup (js "owner")))
    (js "agent owner is not an exclusive single dedicated key")
  let ramBytes ← checkMiddle authority agent middle
  let permission ← checkPolicy authority agent trusted last
  -- the summary is not trusted, but it must agree
  let summary ← need ((payload.lookup (js "summary")).bind Json.members?)
    (js "the payload summary does not match the actions")
  failIf (text? summary (js "agent") ≠ some agent ∨
      text? summary (js "authority") ≠ some authority ∨
      text? summary (js "permission") ≠ some permission ∨
      text? summary (js "publicKey") ≠ some active)
    (js "the payload summary does not match the actions")
  return ⟨agent, authority, permission, active, owner, ramBytes, middle.elim 2 fun _ => 3⟩

end Onboard

end Signbox
