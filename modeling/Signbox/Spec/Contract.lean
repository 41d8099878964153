import Signbox.Guard.ShortCircuit
import Signbox.Spec.Cache

/-!
# The policy contract

`contract/assembly/signbox.contract.ts` and `signbox.tables.ts`: the table of policy rows on
the chain and the six actions on it. A failed check aborts an action, and the table is left
as it was. Names are written as their text. `PolicyRow.raw` is the row as
`chains/xpr/policyReader.ts` hands it to the cache.
-/

namespace Signbox

open Guard

abbrev Name := JsString

/-- One policy row per agent account. The integers have the widths of the contract, so a version
can run out. -/
structure PolicyRow where
  agent : Name
  authority : Name
  agentperm : Name
  version : UInt32
  policyhash : List UInt8
  policyjson : JsString
  enabled : Bool
  createdat : UInt64
  updatedat : UInt64
  deriving DecidableEq

/-- A checksum as the chain prints it. -/
def hex (bytes : List UInt8) : JsString :=
  bytes.flatMap fun b => [hexDigit (b.toNat / 16), hexDigit (b.toNat % 16)]

/-- The row as it is read from the chain. -/
def PolicyRow.raw (row : PolicyRow) : PolicyRowRaw where
  agent := row.agent
  authority := row.authority
  agentperm := row.agentperm
  version := row.version.toNat
  policyhash := hex row.policyhash
  policyjson := row.policyjson
  enabled := row.enabled
  updatedat := row.updatedat.toNat

inductive ContractError where
  | check (message : JsString)
  | missingAuthority (name : Name)
  deriving DecidableEq

/-- What an action sees of its transaction: who signed, which accounts exist, and the time of
the block. -/
structure ActionContext where
  signers : List Name
  isAccount : Name → Bool
  currentTimeMs : UInt64

/-- The actions, with their arguments. Only `createpolicy` adds a row, and none removes one. -/
inductive ContractAction where
  | createpolicy (agent authority agentperm : Name) (version : UInt32) (policyhash : List UInt8)
    (policyjson : JsString)
  | setpolicy (agent : Name) (version : UInt32) (policyhash : List UInt8) (policyjson : JsString)
  | disable (agent : Name)
  | enable (agent : Name)
  | setperm (agent agentperm : Name)
  | setauthority (agent newauthority : Name)

/-- The table `policies`. Its primary key is the agent. -/
abbrev PolicyTable := List PolicyRow

def PolicyTable.row? (policies : PolicyTable) (agent : Name) : Option PolicyRow :=
  policies.find? fun row => row.agent = agent

def PolicyTable.store (policies : PolicyTable) (row : PolicyRow) : PolicyTable := policies ++ [row]

def PolicyTable.update (policies : PolicyTable) (row : PolicyRow) : PolicyTable :=
  policies.map fun old => if old.agent = row.agent then row else old

namespace SignboxContract

/-- Low size cap: the authority pays the RAM. It is compared with the length of the string. -/
def MAX_POLICY_BYTES : ℕ := 16384

def check (c : Prop) [Decidable c] (message : String) : Except ContractError Unit :=
  failIf (¬ c) (.check (js message))

def requireAuth (ctx : ActionContext) (name : Name) : Except ContractError Unit :=
  failIf (name ∉ ctx.signers) (.missingAuthority name)

/-- `policies.requireGet`: the row of an agent, or a failed check that aborts the action. -/
def requireGet (policies : PolicyTable) (agent : Name) : Except ContractError PolicyRow :=
  match policies.row? agent with
  | none => .error (.check (js "no policy for this agent"))
  | some row => .ok row

variable (sha256 : List UInt8 → List UInt8) (ctx : ActionContext) (policies : PolicyTable)

def assertPolicyIntegrity (policyjson : JsString) (policyhash : List UInt8) :
    Except ContractError Unit := do
  check (policyjson.length > 0) "policy json must not be empty"
  check (policyjson.length ≤ MAX_POLICY_BYTES) "policy json exceeds the maximum size"
  check (sha256 (utf8 policyjson) = policyhash)
    "policy hash does not match the canonical policy json"

/-- Create the initial row for an agent; both the authority and the agent must sign. The row starts
enabled, at version 1. -/
def createpolicy (agent authority agentperm : Name) (version : UInt32) (policyhash : List UInt8)
    (policyjson : JsString) : Except ContractError PolicyTable := do
  check (ctx.isAccount agent = true) "agent account does not exist"
  requireAuth ctx authority
  requireAuth ctx agent
  check (ctx.isAccount authority = true) "authority account does not exist"
  check (policies.row? agent = none) "a policy already exists for this agent"
  check (version = 1) "initial policy version must be 1"
  assertPolicyIntegrity sha256 policyjson policyhash
  return policies.store {
    agent := agent
    authority := authority
    agentperm := agentperm
    version := version
    policyhash := policyhash
    policyjson := policyjson
    enabled := true
    createdat := ctx.currentTimeMs
    updatedat := ctx.currentTimeMs }

/-- What the five mutations share: the row must be there, its authority must sign, and the
update carries the time of the block. -/
def mutate (agent : Name) (checks : PolicyRow → Except ContractError Unit)
    (set : PolicyRow → PolicyRow) : Except ContractError PolicyTable := do
  let row ← requireGet policies agent
  requireAuth ctx row.authority
  checks row
  return policies.update { set row with updatedat := ctx.currentTimeMs }

/-- Update the policy; the version must strictly increase, and the hash must be that of the
text. -/
def setpolicy (agent : Name) (version : UInt32) (policyhash : List UInt8) (policyjson : JsString) :
    Except ContractError PolicyTable :=
  mutate ctx policies agent
    (fun row => do
      check (version > row.version) "policy version must strictly increase"
      assertPolicyIntegrity sha256 policyjson policyhash)
    fun row => { row with version := version, policyhash := policyhash, policyjson := policyjson }

/-- Immediately disable all signing for the agent. The policy and its version stay as they are. -/
def disable (agent : Name) : Except ContractError PolicyTable :=
  mutate ctx policies agent (fun _ => .ok ()) fun row => { row with enabled := false }

/-- Re-enable a previously disabled policy. It is in force again as it was before. -/
def enable (agent : Name) : Except ContractError PolicyTable :=
  mutate ctx policies agent (fun _ => .ok ()) fun row => { row with enabled := true }

/-- Update the dedicated permission name. -/
def setperm (agent agentperm : Name) : Except ContractError PolicyTable :=
  mutate ctx policies agent (fun _ => .ok ()) fun row => { row with agentperm := agentperm }

/-- Exceptional authority transfer; both the current and the new authority must sign. The new one
must exist, and be another account. -/
def setauthority (agent newauthority : Name) : Except ContractError PolicyTable :=
  mutate ctx policies agent
    (fun row => do
      requireAuth ctx newauthority
      check (ctx.isAccount newauthority = true) "new authority account does not exist"
      check (newauthority ≠ row.authority) "new authority must differ from the current one")
    fun row => { row with authority := newauthority }

def apply : ContractAction → Except ContractError PolicyTable
  | .createpolicy agent authority agentperm version policyhash policyjson =>
    createpolicy sha256 ctx policies agent authority agentperm version policyhash policyjson
  | .setpolicy agent version policyhash policyjson =>
    setpolicy sha256 ctx policies agent version policyhash policyjson
  | .disable agent => disable ctx policies agent
  | .enable agent => enable ctx policies agent
  | .setperm agent agentperm => setperm ctx policies agent agentperm
  | .setauthority agent newauthority => setauthority ctx policies agent newauthority

/-- The table after an action: an aborted one changes nothing. -/
def step (policies : PolicyTable) (action : ContractAction × ActionContext) : PolicyTable :=
  match apply sha256 action.2 policies action.1 with
  | .ok policies => policies
  | .error _ => policies

/-- The table after a history of actions, from the deployment of the contract. Aborted actions are
part of the history. -/
def tableAfter (actions : List (ContractAction × ActionContext)) : PolicyTable :=
  actions.foldl (step sha256) []

end SignboxContract

end Signbox
