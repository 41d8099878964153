import Signbox.Spec.Contract
import Signbox.Spec.Decompile
import Signbox.Spec.OnboardPayload

/-!
# The landed state

`verifyLanded` of `chains/xpr/onboarding.ts`, with the check of `chains/xpr/keyauth.ts`: what a
node answers about the agent account, the authority and the policy row is compared with the
request before the key is promoted. Below it the chain itself: accounts with their permissions,
and the table of the contract.
-/

namespace Signbox

/-! ## Answers of a node -/

/-- A key of an authority, with what is read of it. Either may be missing in an answer. -/
structure KeyEntry where
  key : Option JsString
  weight : Option JsNumber

structure RequiredAuth where
  threshold : Option JsNumber
  keys : Option (List KeyEntry)
  accounts : Option (List Json)
  waits : Option (List Json)

structure Perm where
  perm_name : Option JsString
  required_auth : Option RequiredAuth

/-- The outcomes of the calls of `verifyLanded`, in their order; none when a call fails. An account
is read as its permissions, a query of the table as its rows. -/
structure LandedReads where
  exists? : Option (List Perm)
  account : Option (List Perm)
  authority : Option (List Perm)
  rows : Option (List Json)

namespace Landed

/-! ## The check -/

variable (numeric : JsString → Option JsString)

/-- The canonical text of a public key, as `Numeric` of `@proton/js` reads and writes it. A key has
two texts, and they are compared by this one. -/
def normalizePublicKey (key : Option JsString) : Option JsString := key.bind numeric

/-- Threshold 1, exactly one key, equal to the expected one, and no accounts or waits. A weight
below one is refused too. -/
def authorizesExclusively (auth : Option RequiredAuth) (expectedKey : JsString) : Bool :=
  match auth with
  | none => false
  | some auth =>
    if auth.threshold ≠ some (.finite (.ofNat 1)) then false
    else if (auth.accounts.elim 1 List.length) ≠ 0 then false
    else if (auth.waits.elim 1 List.length) ≠ 0 then false
    else match auth.keys with
      | some [only] =>
        if only.weight.any Onboard.belowOne then false
        else match normalizePublicKey numeric (some expectedKey),
            normalizePublicKey numeric only.key with
          | some expected, some onChain => onChain == expected
          | _, _ => false
      | _ => false

/-- The first permission of a name. It is the only one of that name that is compared. -/
def permission? (perms : List Perm) (name : JsString) : Option Perm :=
  perms.find? fun p => p.perm_name = some name

/-- The `active` public key of an account, or an error. Of several keys it is the first. -/
def resolveActiveKey (account : Option (List Perm)) : Option JsString := do
  let active ← permission? (← account) (js "active")
  let keys ← (← active.required_auth).keys
  (← keys.head?).key

/-- The row of the agent, or none when it is missing or cannot be read. A row of another agent is
none. -/
def readPolicyRow (rows : Option (List Json)) (agent : JsString) : Option Json :=
  match rows with
  | some (row :: _) => if (row.get (js "agent")).bind Json.str? = some agent then some row else none
  | _ => none

def refuse (reason : JsString) : Except JsError VerificationResult := .ok ⟨false, some reason⟩

/-- The row must carry the authority, the permission and the hash of the request. Its other fields
are not read. -/
def checkRow (row : Option Json) (args : VerifyLandedArgs) : Except JsError VerificationResult :=
  match row with
  | none => refuse (js "policy row not found")
  | some row =>
    if (row.get (js "authority")).bind Json.str? ≠ some args.input.authority then
      refuse (js "policy authority mismatch")
    else if (row.get (js "agentperm")).bind Json.str? ≠ some args.input.permission then
      refuse (js "policy permission mismatch")
    else do
      let policyhash ← ((row.get (js "policyhash")).elim (.ok (js "undefined")) Json.toText)
      if toLowerCase policyhash ≠ args.emptyPolicyHash then refuse (js "policy hash mismatch")
      else return ⟨true, none⟩

def verifyLanded (reads : LandedReads) (args : VerifyLandedArgs) :
    Except JsError VerificationResult :=
  match reads.exists? with
  | none => refuse (js "agent account not found")
  | some _ =>
    match reads.account with
    | none => refuse (js "cannot read agent account")
    | some perms =>
      match permission? perms args.input.permission with
      | none => refuse (js "permission \"" ++ args.input.permission ++ js "\" not found")
      | some perm =>
        if !authorizesExclusively numeric perm.required_auth args.agentPublicKey then
          refuse (js "agent permission is not exclusively the agent key")
        else match resolveActiveKey reads.authority with
          | none => refuse (js "cannot resolve the authority key")
          | some authorityKey =>
            let owner := permission? perms (js "owner")
            if !authorizesExclusively numeric (owner.bind Perm.required_auth) authorityKey then
              refuse (js "agent owner is not exclusively the authority key")
            else checkRow (readPolicyRow reads.rows args.input.agent) args

end Landed

/-! ## The chain -/

/-- An authority as the chain holds it: keys with their weights, and other accounts and waits that
can satisfy it. -/
structure Authority where
  threshold : UInt32
  keys : List (JsString × UInt16)
  accounts : List Json
  waits : List Json

structure Permission where
  perm_name : Name
  required_auth : Authority

/-- The permissions of the accounts that exist, and the table of the contract. It is all that an
onboarding changes. -/
structure ChainState where
  account : Name → Option (List Permission)
  policies : PolicyTable

namespace ChainState

def answeredAuth (auth : Authority) : RequiredAuth where
  threshold := some (.finite (.ofNat auth.threshold.toNat))
  keys := some (auth.keys.map fun k => ⟨some k.1, some (.finite (.ofNat k.2.toNat))⟩)
  accounts := some auth.accounts
  waits := some auth.waits

/-- A permission as `get_account` answers it. -/
def answered (p : Permission) : Perm := ⟨some p.perm_name, some (answeredAuth p.required_auth)⟩

/-- A row as `get_table_rows` answers it, with the fields the program declares for it. -/
def answeredRow (row : PolicyRow) : Json :=
  .obj .ordinary [(js "agent", .str row.agent), (js "authority", .str row.authority),
    (js "agentperm", .str row.agentperm), (js "version", Onboard.natural row.version.toNat),
    (js "policyhash", .str (hex row.policyhash)), (js "policyjson", .str row.policyjson),
    (js "enabled", .bool row.enabled)]

/-- What a node that can be read answers to the calls of `verifyLanded`, all of them of one
state. -/
def reads (st : ChainState) (input : OnboardingInput) : LandedReads where
  exists? := (st.account input.agent).map fun perms => perms.map answered
  account := (st.account input.agent).map fun perms => perms.map answered
  authority := (st.account input.authority).map fun perms => perms.map answered
  rows := some ((st.policies.row? input.agent).toList.map answeredRow)

/-- The key `buildRequest` resolves for the owner of the agent: the active key of the authority. -/
def activeKey (st : ChainState) (account : Name) : Option JsString :=
  Landed.resolveActiveKey ((st.account account).map fun perms => perms.map answered)

/-- An authority satisfied by a single public key. -/
def keyAuthority (key : JsString) : Authority := ⟨1, [(key, 1)], [], []⟩

/-- What the actions of an onboarding do: `newaccount` creates the agent with its two permissions,
`createpolicy` registers the row. -/
def onboarded (sha256 : List UInt8 → List UInt8) (ctx : ActionContext) (st : ChainState)
    (agent authority agentperm : Name) (ownerKey activeKey : JsString) (policyhash : List UInt8)
    (policyjson : JsString) : Except ContractError ChainState := do
  let policies ← SignboxContract.createpolicy sha256 ctx st.policies agent authority agentperm 1
    policyhash policyjson
  return ⟨Function.update st.account agent
    (some [⟨js "active", keyAuthority activeKey⟩, ⟨js "owner", keyAuthority ownerKey⟩]), policies⟩

end ChainState

end Signbox
