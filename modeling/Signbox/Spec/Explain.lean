import Signbox.Spec.Daemon

/-!
# Dry runs

`transaction explain` of `cli/index.ts` without `--policy`, the tool
`signbox_transaction_explain` of `mcp/server.ts`, and the row reader of
`chains/xpr/policyReader.ts` that both read through, with the daemon's evaluation of a request
beside them. The chain is XPR.
-/

namespace Signbox

namespace Explain

/-- `SignBoxConfig`, as far as a dry run reads it. -/
structure SignBoxConfig where
  context : ChainContext
  signboxContract : JsString

/-- The public metadata of a keystore, as far as a dry run reads it. The tool takes the permission
from here. -/
structure KeystoreMetadata where
  agent : JsString
  permission : JsString

/-- What a dry run computes with: the hexadecimal digest and `JSON.parse`. -/
structure Runtime where
  sha256 : List UInt8 → JsString
  parse : JsString → Option Json

def Runtime.reading (R : Runtime) : PolicyReading := ⟨R.sha256, R.parse, xprDialect⟩

/-- Why a dry run ends without a decision: its own message, or the message of an error. -/
inductive Failure where
  | message (text : JsString)
  | threw (error : JsError)

def passing {α : Type} (x : Except JsError α) : Except Failure α := x.mapError .threw

/-- `XprPolicyReader.read`: a row of the contract, with its hash in lower case. The other fields
are passed on. -/
def readRow (row : PolicyRowRaw) : PolicyRowRaw :=
  { row with policyhash := toLowerCase row.policyhash }

/-! ## Providers -/

/-- A query is read through the relay, and an error or a timeout is no evidence. The evaluation
throws on it later. -/
def resolveOne (query : ProviderQuery) (relay : DialectRelay) : ProviderEvidence :=
  match xprDialect.resolveProviderQuery query relay with
  | .ok evidence => evidence
  | .error _ => .failed

def resolveProviders (queries : List ProviderQuery) (relay : DialectRelay) : ProviderEvidenceMap :=
  fun key => (queries.find? fun q => q.key = key).map fun q => resolveOne q relay

/-- Collect the provider queries, and add their evidence if there are any. Without a query no read
is made. -/
def withEvidence (decoded : DecodedTransaction) (policy : Policy) (baseCtx : EvaluationContext)
    (relay : DialectRelay) : Except JsError EvaluationContext :=
  (collectProviderQueries decoded policy baseCtx).map fun queries =>
    if queries = [] then baseCtx
    else { baseCtx with evidence := some (resolveProviders queries relay) }

def context (config : SignBoxConfig) (agent agentPermission : JsString) (policyVersion : ℤ) :
    EvaluationContext where
  agent := agent
  agentPermission := agentPermission
  chainId := config.context.chainId
  policyVersion := policyVersion
  dialect := xprDialect
  evidence := none

/-! ## The command -/

def PolicyIntegrityError.text : PolicyIntegrityError → JsString
  | .hashMismatch => js "hash_mismatch"
  | .invalidJson => js "invalid_json"
  | .notCanonical => js "not_canonical"
  | .schemaInvalid => js "schema_invalid"

/-- The policy of the row, after the integrity gate of the daemon's cache. -/
def verifiedPolicy (R : Runtime) (raw : PolicyRowRaw) : Except Failure Policy := do
  match ← passing (verifyStoredPolicy R.reading raw.policyjson raw.policyhash) with
  | .ok policy => return policy
  | .error reason => throw (.message
      (js "on-chain policy failed integrity check: " ++ PolicyIntegrityError.text reason))

/-- `transaction explain`: the decision that is printed. It is evaluated under the permission of
the on-chain row. -/
def transactionExplain (R : Runtime) (config : SignBoxConfig) (relay : DialectRelay)
    (agent : JsString) (row : Option PolicyRowRaw) (transaction : Json) :
    Except Failure Decision :=
  match row.map readRow with
  | none => .error (.message (js "no on-chain policy for agent \"" ++ agent ++
      js "\" in contract \"" ++ config.signboxContract ++ js "\" on " ++ config.context.network ++
      js " (deploy one, or pass --policy <file> to test locally)"))
  | some raw => do
    let policy ← verifiedPolicy R raw
    let decoded ← passing (decodeXprTransaction transaction config.context)
    let baseCtx := context config agent raw.agentperm raw.version
    let ctx ← passing (withEvidence decoded policy baseCtx relay)
    return (evaluatePolicy decoded policy ctx).decision

/-! ## The tool -/

/-- The decision in the answer of the tool: a bare refusal, or that of the engine. -/
inductive ToolDecision where
  | refused (code : DenyCode)
  | evaluated (decision : Decision)

def agentMeta (keystores : List KeystoreMetadata) (agent : JsString) : Option KeystoreMetadata :=
  keystores.find? fun m => m.agent = agent

/-- `signbox_transaction_explain`. It evaluates under the permission of the keystore, and without
provider evidence. -/
def signboxTransactionExplain (R : Runtime) (config : SignBoxConfig)
    (keystores : List KeystoreMetadata) (agent : JsString) (row : Option PolicyRowRaw)
    (transaction : Json) : Except Failure ToolDecision :=
  match agentMeta keystores agent with
  | none => .error (.message (js "unknown agent: " ++ agent))
  | some m =>
    match row.map readRow with
    | none => .ok (.refused .policyUnavailable)
    | some row =>
      if R.sha256 (utf8 row.policyjson) ≠ row.policyhash then .ok (.refused .policyUnavailable)
      else match R.parse row.policyjson with
        | none => .error (.threw .type)
        | some parsed => do
          let canonical ← passing (canonicalize parsed)
          if canonical ≠ row.policyjson then return .refused .policyUnavailable
          else
            let policy ← passing (validatePolicy parsed xprDialect)
            let decoded ← passing (decodeXprTransaction transaction config.context)
            return .evaluated (evaluatePolicy decoded policy
              (context config agent m.permission row.version)).decision

/-! ## Effect and code -/

/-- The effect of a decision, and the code of a refusal. The rules and the texts are left out. -/
inductive Verdict where
  | allow
  | deny (code : DenyCode)
  deriving DecidableEq

end Explain

open Explain in
def Decision.verdict : Decision → Verdict
  | .allow .. => .allow
  | .deny code .. => .deny code

open Explain in
def Explain.ToolDecision.verdict : ToolDecision → Verdict
  | .refused code => .deny code
  | .evaluated decision => decision.verdict

/-! ## The daemon -/

namespace SignBoxDaemon

variable (d : SignBoxDaemon)

/-- What `provide` and `evaluate` decide about a bound request: an exception while the queries
are collected is an internal error, and the queries are answered by `answers`. -/
def evaluationStep (b : Bound) (answers : ProviderQuery → Option ProviderEvidence) : Decision :=
  match collectProviderQueries b.decoded b.active.policy (d.evaluationContext b none) with
  | .error _ => .deny internalError.code internalError.safeReason internalError.policyVersion
  | .ok [] => (evaluatePolicy b.decoded b.active.policy (d.evaluationContext b none)).decision
  | .ok (q :: qs) => (evaluatePolicy b.decoded b.active.policy
      (d.evaluationContext b (some (d.resolveProviders (q :: qs) answers)))).decision

/-- The policy decision on an admitted request: none when its transaction does not decode, since
such a request is refused before its policy is evaluated. -/
def policyDecision (c : Admitted) (active : ActivePolicy)
    (answers : ProviderQuery → Option ProviderEvidence) : Option Decision :=
  (d.deps.decode c.request.transaction c.runtime.chain).toOption.map fun decoded =>
    d.evaluationStep ⟨c, active, decoded⟩ answers

end SignBoxDaemon

end Signbox
