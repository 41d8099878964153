import Signbox.Spec.Cache
import Signbox.Spec.Decode
import Signbox.Spec.Journal
import Signbox.Spec.Protocol

/-!
# The daemon

`daemon/server.ts`, with `daemon/identity.ts` and `daemon/providerResolver.ts`: what
`SignBoxDaemon.handleRequest` does between two of its awaits. A request is a task; the
agents, the nonces and the quota journal are shared. What the daemon depends on answers each
await as it likes, or throws.
-/

namespace Signbox

open Guard Async

/-! ## Configuration and state -/

/-- Independently grantable capabilities: an agent may sign without being able to submit what it
signed, and the other way round. -/
structure AgentCapabilities where
  sign : Bool
  broadcast : Bool

def DEFAULT_CAPABILITIES : AgentCapabilities := ⟨true, false⟩

structure AgentRuntime where
  agent : JsString
  permission : JsString
  chain : ChainContext
  policy : Policy
  policyVersion : ℤ
  enabled : Bool
  /-- Rotating local token, as bytes. -/
  token : List UInt8
  key : KeyHandle
  /-- Omitted: sign-only. -/
  capabilities : Option AgentCapabilities

structure DaemonConfig where
  /-- Maximum tolerated window from `requestedAt` to `expiresAt`. -/
  maxRequestTtlMs : ℤ
  /-- Tolerated clock skew for `requestedAt` in the future. -/
  maxClockSkewMs : ℤ

/-- What the daemon depends on: the functions it calls, and which optional parts are wired. A part
that is missing is skipped, or refuses what needs it. -/
structure DaemonDependencies where
  decode : Json → ChainContext → Except JsError DecodedTransaction
  dialect : PolicyDialect
  broadcaster : Bool
  relay : Bool
  quotas : Bool
  policyCache : Bool
  audit : Bool
  authority : Bool

structure SignBoxDaemon where
  cfg : DaemonConfig
  deps : DaemonDependencies

/-- What the requests share. The journal persists on its own and is only used when wired; the
agents and the nonces live as long as the process. -/
structure DaemonState where
  agents : List AgentRuntime
  nonces : NonceCache
  journal : QuotaJournal

/-- The entry of an agent in the map of registered agents. -/
def DaemonState.runtime? (s : DaemonState) (agent : JsString) : Option AgentRuntime :=
  s.agents.find? fun r => r.agent = agent

/-- Local kill-switch, and its opposite. It changes the entry in the map; a request that has read
its entry before goes on with what it read. -/
def DaemonState.setEnabled (s : DaemonState) (agent : JsString) (enabled : Bool) : DaemonState :=
  { s with agents := s.agents.map fun r => if r.agent = agent then { r with enabled := enabled } else r }

/-! ## What goes out and what comes back -/

inductive AuditDecision where
  | signed
  | denied
  | broadcast
  deriving DecidableEq

/-- `AuditEntryInput`: what is recorded of an answered request. The hashes and the number of the
entry are the log's own. -/
structure AuditEntryInput where
  requestId : JsString
  agent : JsString
  decision : AuditDecision
  code : Option DenyCode
  ruleIds : Option (List JsString)
  policyVersion : Option ℤ
  /-- `contract::action` per action: names only, never data. -/
  contracts : List JsString
  digest : Option JsString
  broadcast : Option BroadcastStatus
  timestampMs : ℤ

/-- A call out of the daemon. The calls on the key and on the network carry the agent they
are made for. -/
inductive Call where
  | policyGet (agent : JsString) (nowMs : ℤ)
  | authorityCheck (agent permission publicKey : JsString)
  | resolve (queries : List ProviderQuery)
  | sign (agent : JsString) (tx : DecodedTransaction) (key : KeyHandle)
  | broadcast (agent : JsString) (signedTransaction : Option Json)
  | relay (method : JsString) (params : Json)
  | audit (entry : AuditEntryInput)

inductive BroadcastOutcome where
  | accepted (receipt : Json)
  | rejected (reason : JsString)
  | ambiguous (reason : JsString)

/-- The settlement of an awaited promise. A query of the relay that throws or times out has
no answer; `threw` carries the message of the error, if it is one. -/
inductive Answer where
  | policy (cached : Option CachedPolicy)
  | authority (authorized : Bool)
  | evidence (answers : ProviderQuery → Option ProviderEvidence)
  | signed (result : SignedTransactionResult)
  | broadcast (outcome : BroadcastOutcome)
  | read (result : Json)
  | threw (message : Option JsString)

/-- The clock during one segment, for the decision and for the audit entry, and whether
SQLite fails the journal's transaction. -/
structure Moment where
  nowMs : ℤ
  auditMs : ℤ
  journalFails : Bool

/-! ## Frames -/

/-- Mutable context populated during a decision: who asked, and from the decoding on what the
transaction is about. -/
structure AuditContext where
  agent : JsString
  contracts : List JsString
  ruleIds : Option (List JsString)

/-- A sign request that passed the gates before the first await, with the runtime and the reading
of the clock that the rest of the decision uses. -/
structure Admitted where
  request : SignRequest
  runtime : AgentRuntime
  nowMs : ℤ

/-- The policy a request is decided under: the cached on-chain one, or that of the runtime when no
cache is wired. -/
structure ActivePolicy where
  policy : Policy
  version : ℤ
  permission : JsString

/-- A request whose transaction is decoded and bound to the agent: each of its actions carries the
agent's own authorization. -/
structure Bound where
  admitted : Admitted
  active : ActivePolicy
  decoded : DecodedTransaction

/-- A request that the policy allowed, with the rules that govern it and the reservation that was
made for it. -/
structure Approved where
  bound : Bound
  ruleIds : List JsString
  policyVersion : ℤ
  quotaDemands : List QuotaDemand
  reservationId : Option ℕ

/-- `contract::action` of each action. -/
def contractNames (tx : DecodedTransaction) : List JsString :=
  tx.actions.map fun a => a.contract ++ js "::" ++ a.action

def Admitted.ctx (c : Admitted) : AuditContext := ⟨c.request.agent, [], none⟩

def Bound.ctx (b : Bound) : AuditContext :=
  ⟨b.admitted.request.agent, contractNames b.decoded, none⟩

def Approved.ctx (a : Approved) : AuditContext := { a.bound.ctx with ruleIds := some a.ruleIds }

/-- The agent a request runs for. -/
def Admitted.agent (c : Admitted) : JsString := c.runtime.agent

def Bound.agent (b : Bound) : JsString := b.admitted.agent

def Approved.agent (a : Approved) : JsString := a.bound.agent

/-- Where a request is suspended: one constructor for each `await` of the source, with the
variables that are used after it. -/
inductive DaemonFrame where
  | policy (c : Admitted)
  | authority (b : Bound)
  | providers (b : Bound) (queries : List ProviderQuery)
  | sign (a : Approved)
  | broadcast (a : Approved) (signed : SignedTransactionResult)
  | standalone (request : BroadcastRequest)
  | relay (request : ReadRequest) (method : JsString)

namespace SignBoxDaemon

def DEFAULTS : DaemonConfig := ⟨120000, 5000⟩

abbrev Step := Segment DaemonState DaemonFrame Call Response

variable (d : SignBoxDaemon)

/-! ## Gates -/

/-- Find the agent of a request and compare its token. The comparison is one of bytes. -/
def authenticate (s : DaemonState) (agent token : JsString) : Option AgentRuntime :=
  (s.runtime? agent).filter fun r => utf8 token = r.token

def deny (code : DenyCode) (safeReason : String) : Denial := ⟨code, js safeReason, none⟩

/-- Unknown agents and bad tokens get the same refusal, so an answer does not tell which agents
exist. -/
def authenticated (s : DaemonState) (agent token : JsString) : Except Denial AgentRuntime :=
  match authenticate s agent token with
  | none => .error (deny .unauthenticated "request could not be authenticated")
  | some runtime => .ok runtime

/-- The validity window of a request: open now, not opened too far ahead of the clock, and not
longer than the daemon tolerates. -/
def windowValid (nowMs requestedAt expiresAt : ℤ) : Bool :=
  ¬ (expiresAt ≤ nowMs ∨ requestedAt > nowMs + d.cfg.maxClockSkewMs ∨ expiresAt ≤ requestedAt ∨
    expiresAt - requestedAt > d.cfg.maxRequestTtlMs)

/-- Explicit chain identity. -/
def chainMatches (c : ChainContext) (chain network chainId : JsString) : Bool :=
  chain = c.chain ∧ network = c.network ∧ chainId = c.chainId

/-- Every action carries one authorization: the agent, with its on-chain permission. A transaction
for anyone else is not signed, whatever the policy says. -/
def checkLocalIdentity (tx : DecodedTransaction) (agent onChainPermission : JsString) : Bool :=
  tx.actions.all fun action => match action.authorization with
    | [auth] => auth.accountIdentifier = agent ∧ auth.permission = onChainPermission
    | _ => false

/-- What submitting takes: the capability, and a broadcaster. It is checked before anything is
signed. -/
def submitGate (caps : AgentCapabilities) : Except Denial Unit := do
  failIf (caps.broadcast = false)
    (deny .capabilityDenied "agent is not permitted to broadcast")
  failIf (d.deps.broadcaster = false)
    (deny .broadcastUnavailable "broadcasting is disabled on this daemon")

/-- A sign request that asks to broadcast must be able to: no capability is granted or dropped
silently. -/
def fusedGate (request : SignRequest) (caps : AgentCapabilities) : Except Denial Unit :=
  if request.broadcast = some true then d.submitGate caps else .ok ()

/-- The gates of a sign request before its nonce is registered. A request that is refused here
leaves no trace but its audit entry. -/
def signGates (s : DaemonState) (request : SignRequest) (nowMs : ℤ) :
    Except Denial AgentRuntime := do
  let runtime ← authenticated s request.agent request.token
  failIf (runtime.enabled = false) (deny .agentDisabled "agent is disabled")
  let capabilities := runtime.capabilities.getD DEFAULT_CAPABILITIES
  failIf (capabilities.sign = false) (deny .capabilityDenied "agent is not permitted to sign")
  d.fusedGate request capabilities
  failIf (d.windowValid nowMs request.requestedAt request.expiresAt = false)
    (deny .requestExpired "request window is invalid or expired")
  return runtime

/-- The gates of a standalone broadcast before its nonce is registered. The capability is asked for
only after the nonce. -/
def broadcastGates (s : DaemonState) (request : BroadcastRequest) (nowMs : ℤ) :
    Except Denial AgentRuntime := do
  let runtime ← authenticated s request.agent request.token
  failIf (runtime.enabled = false) (deny .agentDisabled "agent is disabled")
  failIf (d.windowValid nowMs request.requestedAt request.expiresAt = false)
    (deny .requestExpired "request window is invalid or expired")
  return runtime

/-! ## Ending a request -/

/-- `recordAudit`: the entry of a signed or denied request, when a log is wired. A denial names
neither rules nor a digest. -/
def recordAudit (response : SignResponse) (ctx : AuditContext) (auditMs : ℤ) : List Call :=
  if d.deps.audit then
    match response with
    | .signed requestId _ digest _ policyVersion report => [.audit {
        requestId := requestId
        agent := ctx.agent
        decision := .signed
        code := none
        ruleIds := ctx.ruleIds
        policyVersion := some policyVersion
        contracts := ctx.contracts
        digest := some digest
        broadcast := report.map BroadcastReport.status
        timestampMs := auditMs }]
    | .denied requestId denial => [.audit {
        requestId := requestId
        agent := ctx.agent
        decision := .denied
        code := some denial.code
        ruleIds := none
        policyVersion := denial.policyVersion
        contracts := ctx.contracts
        digest := none
        broadcast := none
        timestampMs := auditMs }]
  else []

/-- `recordBroadcastAudit`: the entry of a standalone broadcast, when a log is wired. The daemon
did not decide what it carries, so there are no rules and no contracts. -/
def recordBroadcastAudit (response : BroadcastResponse) (agent : JsString) (auditMs : ℤ) :
    List Call :=
  if d.deps.audit then
    match response with
    | .broadcast requestId report => [.audit {
        requestId := requestId
        agent := agent
        decision := .broadcast
        code := none
        ruleIds := none
        policyVersion := none
        contracts := []
        digest := none
        broadcast := some report.status
        timestampMs := auditMs }]
    | .denied requestId denial => [.audit {
        requestId := requestId
        agent := agent
        decision := .denied
        code := some denial.code
        ruleIds := none
        policyVersion := none
        contracts := []
        digest := none
        broadcast := none
        timestampMs := auditMs }]
  else []

/-- A sign request ends with a response, which is audited. -/
def respond (s : DaemonState) (ctx : AuditContext) (m : Moment) (response : SignResponse) : Step :=
  ⟨s, d.recordAudit response ctx m.auditMs, .inr (.sign response)⟩

def refuse (s : DaemonState) (ctx : AuditContext) (m : Moment) (requestId : JsString)
    (denial : Denial) : Step :=
  d.respond s ctx m (.denied requestId denial)

/-- No exception escapes as anything but a refusal. -/
def internalError : Denial := deny .internalError "request processing failed"

/-! ## After the signature -/

/-- Finalise the reservation of a request, if it has one; nothing when the journal throws. The
caller answers with an internal error then. -/
def settle (s : DaemonState) (a : Approved) (m : Moment) (op : QuotaJournal → ℕ → QuotaJournal) :
    Option DaemonState :=
  match a.reservationId with
  | none => some s
  | some reservationId =>
    if d.deps.quotas = false then some s
    else if m.journalFails then none
    else some { s with journal := op s.journal reservationId }

def commit (s : DaemonState) (a : Approved) (m : Moment) (digest : JsString) :
    Option DaemonState :=
  d.settle s a m fun journal reservationId => journal.commit reservationId a.agent digest

def release (s : DaemonState) (a : Approved) (m : Moment) : Option DaemonState :=
  d.settle s a m QuotaJournal.release

def quotaState (a : Approved) (fate : QuotaFate) : QuotaFate :=
  if a.reservationId = none then .none else fate

/-- Answer an approved request, when the journal took the settlement. The response then carries the
signature, whatever the chain said. -/
def conclude (s : DaemonState) (settled : Option DaemonState) (a : Approved) (m : Moment)
    (signed : SignedTransactionResult) (signedTransaction : Option Json)
    (report : Option BroadcastReport) : Step :=
  match settled with
  | none => d.refuse s a.ctx m a.bound.admitted.request.requestId internalError
  | some s => d.respond s a.ctx m (.signed a.bound.admitted.request.requestId signed.signature
      signed.transactionDigest signedTransaction a.policyVersion report)

/-- The submit path: the reserved quota follows the outcome on the chain. It is only returned when
the chain rejected the transaction for certain. -/
def endBroadcast (a : Approved) (signed : SignedTransactionResult) (outcome : BroadcastOutcome)
    (m : Moment) (s : DaemonState) : Step :=
  match outcome with
  | .accepted receipt => d.conclude s (d.commit s a m signed.transactionDigest) a m signed none
      (some ⟨.accepted, some receipt, none, quotaState a .committed⟩)
  | .rejected reason => d.conclude s (d.release s a m) a m signed none
      (some ⟨.rejected, none, some reason, quotaState a .released⟩)
  | .ambiguous reason => d.conclude s (d.commit s a m signed.transactionDigest) a m signed none
      (some ⟨.ambiguous, none, some reason, quotaState a .committed⟩)

/-- The signer has signed: submit, or commit and return the signature. What is submitted is what
the signer returned. -/
def endSign (a : Approved) (signed : SignedTransactionResult) (m : Moment) (s : DaemonState) :
    Step :=
  if a.bound.admitted.request.broadcast = some true ∧ d.deps.broadcaster then
    ⟨s, [.broadcast a.agent signed.signedTransaction], .inl (.broadcast a signed)⟩
  else d.conclude s (d.commit s a m signed.transactionDigest) a m signed signed.signedTransaction
    none

/-- A failed signing releases the reservation. When the journal throws at that, the request is
refused all the same. -/
def failSign (a : Approved) (m : Moment) (s : DaemonState) : Step :=
  d.refuse ((d.release s a m).getD s) a.ctx m a.bound.admitted.request.requestId internalError

/-! ## The decision -/

def callSigner (a : Approved) (s : DaemonState) : Step :=
  ⟨s, [.sign a.agent a.bound.decoded a.bound.admitted.runtime.key], .inl (.sign a)⟩

def evaluationContext (b : Bound) (evidence : Option ProviderEvidenceMap) :
    EvaluationContext where
  agent := b.agent
  agentPermission := b.admitted.runtime.permission
  chainId := b.admitted.runtime.chain.chainId
  policyVersion := b.active.version
  dialect := d.deps.dialect
  evidence := evidence

/-- Reserve the demands of an allowed request before it is signed. Nothing is reserved when there
are none, and the key is not used when the journal refuses. -/
def reserveQuota (b : Bound) (ruleIds : List JsString) (policyVersion : ℤ)
    (quotaDemands : List QuotaDemand) (m : Moment) (s : DaemonState) : Step :=
  let refuse (s : DaemonState) := d.refuse s b.ctx m b.admitted.request.requestId
  if quotaDemands = [] then callSigner ⟨b, ruleIds, policyVersion, [], none⟩ s
  else if d.deps.quotas = false then
    refuse s ⟨.quotaUnavailable, js "policy requires stateful limits that are not available",
      some policyVersion⟩
  else if m.journalFails then refuse s internalError
  else match s.journal.reserve b.agent quotaDemands b.admitted.nowMs with
    | (journal, .ok reservationId) => callSigner
        ⟨b, ruleIds, policyVersion, quotaDemands, some reservationId⟩ { s with journal := journal }
    | (journal, .refused reason) => refuse { s with journal := journal }
        ⟨if reason = .ambiguous then .ambiguousValue else .limitExceeded,
          js "a stateful policy limit refuses this transaction", some policyVersion⟩

/-- Deterministic policy evaluation, of the decoded transaction under the active policy. It does
not await, so nothing comes between it and the reservation. -/
def evaluate (b : Bound) (evidence : Option ProviderEvidenceMap) (m : Moment) (s : DaemonState) :
    Step :=
  match evaluatePolicy b.decoded b.active.policy (d.evaluationContext b evidence) with
  | ⟨.deny code safeReason version, _⟩ =>
    d.refuse s b.ctx m b.admitted.request.requestId ⟨code, safeReason, version⟩
  | ⟨.allow ruleIds version, quotaDemands⟩ => d.reserveQuota b ruleIds version quotaDemands m s

/-- `resolveProviders`: evidence for each query, read through the relay. Without a relay, or
without an answer, the evidence is a failure. -/
def resolveProviders (queries : List ProviderQuery)
    (answers : ProviderQuery → Option ProviderEvidence) : ProviderEvidenceMap := fun key =>
  (queries.find? fun q => q.key = key).map fun q =>
    if d.deps.relay then (answers q).getD .failed else .failed

/-- Resolve the providers the policy needs, if it needs any. An error while the queries are
collected is an internal one. -/
def provide (b : Bound) (m : Moment) (s : DaemonState) : Step :=
  match collectProviderQueries b.decoded b.active.policy (d.evaluationContext b none) with
  | .error _ => d.refuse s b.ctx m b.admitted.request.requestId internalError
  | .ok [] => d.evaluate b none m s
  | .ok (q :: qs) => ⟨s, [.resolve (q :: qs)], .inl (.providers b (q :: qs))⟩

/-- Decode the transaction and bind it to the agent. The authority of the key is asked for next,
when its check is wired. -/
def bindIdentity (c : Admitted) (active : ActivePolicy) (m : Moment) (s : DaemonState) : Step :=
  match d.deps.decode c.request.transaction c.runtime.chain with
  | .error _ => d.refuse s c.ctx m c.request.requestId
      (deny .schemaInvalid "transaction could not be fully decoded")
  | .ok decoded =>
    let b : Bound := ⟨c, active, decoded⟩
    if checkLocalIdentity decoded c.agent active.permission = false then
      d.refuse s b.ctx m c.request.requestId
        (deny .authorizationMismatch "transaction identity does not match the bound agent")
    else if d.deps.authority then
      ⟨s, [.authorityCheck c.agent active.permission c.runtime.key.publicKey], .inl (.authority b)⟩
    else d.provide b m s

def endAuthority (b : Bound) (authorized : Bool) (m : Moment) (s : DaemonState) : Step :=
  if authorized then d.provide b m s
  else d.refuse s b.ctx m b.admitted.request.requestId
    (deny .authorizationMismatch "the daemon key is not authorized on-chain")

/-- Load the active policy: the cached on-chain one when a cache is wired. Otherwise the policy of
the runtime is used, without an await. -/
def loadPolicy (c : Admitted) (m : Moment) (s : DaemonState) : Step :=
  if d.deps.policyCache then ⟨s, [.policyGet c.agent c.nowMs], .inl (.policy c)⟩
  else d.bindIdentity c ⟨c.runtime.policy, c.runtime.policyVersion, c.runtime.permission⟩ m s

def endPolicy (c : Admitted) (cached : Option CachedPolicy) (m : Moment) (s : DaemonState) :
    Step :=
  match cached with
  | none => d.refuse s c.ctx m c.request.requestId
      (deny .policyUnavailable "policy could not be confirmed on-chain")
  | some cached =>
    if cached.enabled = false then d.refuse s c.ctx m c.request.requestId
      (deny .agentDisabled "agent is disabled on-chain")
    else d.bindIdentity c ⟨cached.policy, cached.version, cached.permission⟩ m s

/-! ## The three kinds of requests -/

def nonceReused : Denial := deny .nonceReused "nonce was already used or cannot be registered"

def chainMismatch : Denial :=
  deny .chainMismatch "request chain does not match the agent configuration"

def schemaInvalid : Denial := deny .schemaInvalid "request does not match the expected schema"

/-- A sign request that passed its gates: register the nonce, pin the chain, go on. The nonce is
spent even if the chain is then refused. -/
def enter (c : Admitted) (m : Moment) (s : DaemonState) : Step :=
  match s.nonces.register c.agent c.request.nonce c.request.expiresAt c.nowMs with
  | (nonces, .ok) =>
    if chainMatches c.runtime.chain c.request.chain c.request.network c.request.chainId then
      d.loadPolicy c m { s with nonces := nonces }
    else d.refuse { s with nonces := nonces } c.ctx m c.request.requestId chainMismatch
  | (nonces, _) => d.refuse { s with nonces := nonces } c.ctx m c.request.requestId nonceReused

/-- `runDecision`, up to its first await. A line that does not parse is refused, and audited, under
the name `unknown`. -/
def startSign (line : Line) (m : Moment) (s : DaemonState) : Step :=
  match parseSignRequest line with
  | none => d.refuse s ⟨js "unknown", [], none⟩ m (js "unknown") schemaInvalid
  | some request =>
    match d.signGates s request m.nowMs with
    | .error denial => d.refuse s ⟨request.agent, [], none⟩ m request.requestId denial
    | .ok runtime => d.enter ⟨request, runtime, m.nowMs⟩ m s

/-- A standalone broadcast ends with a response, which is audited. -/
def respondBroadcast (s : DaemonState) (agent : JsString) (m : Moment)
    (response : BroadcastResponse) : Step :=
  ⟨s, d.recordBroadcastAudit response agent m.auditMs, .inr (.broadcast response)⟩

def refuseBroadcast (s : DaemonState) (request : BroadcastRequest) (m : Moment)
    (denial : Denial) : Step :=
  d.respondBroadcast s request.agent m (.denied request.requestId denial)

/-- A standalone broadcast that passed its first gates: its nonce is registered, the chain pinned,
and the capability checked last. -/
def relaySigned (request : BroadcastRequest) (runtime : AgentRuntime) (m : Moment)
    (s : DaemonState) : Step :=
  match s.nonces.register runtime.agent request.nonce request.expiresAt m.nowMs with
  | (nonces, .ok) =>
    let s := { s with nonces := nonces }
    if chainMatches runtime.chain request.chain request.network request.chainId then
      match d.submitGate (runtime.capabilities.getD DEFAULT_CAPABILITIES) with
      | .error denial => d.refuseBroadcast s request m denial
      | .ok _ =>
        ⟨s, [.broadcast runtime.agent (some request.signedTransaction)], .inl (.standalone request)⟩
    else d.refuseBroadcast s request m chainMismatch
  | (nonces, _) => d.refuseBroadcast { s with nonces := nonces } request m nonceReused

/-- `handleBroadcastRequest`, up to its await. A line that does not parse is not audited. -/
def startBroadcast (line : Line) (m : Moment) (s : DaemonState) : Step :=
  match parseBroadcastRequest line with
  | none => ⟨s, [], .inr (.broadcast (.denied (js "unknown") schemaInvalid))⟩
  | some request =>
    match d.broadcastGates s request m.nowMs with
    | .error denial => d.refuseBroadcast s request m denial
    | .ok runtime => d.relaySigned request runtime m s

def endStandalone (request : BroadcastRequest) (outcome : BroadcastOutcome) (m : Moment)
    (s : DaemonState) : Step :=
  d.respondBroadcast s request.agent m (.broadcast request.requestId (match outcome with
    | .accepted receipt => ⟨.accepted, some receipt, none, .none⟩
    | .rejected reason => ⟨.rejected, none, some reason, .none⟩
    | .ambiguous reason => ⟨.ambiguous, none, some reason, .none⟩))

def readError (s : DaemonState) (request : ReadRequest) (error : JsString) : Step :=
  ⟨s, [], .inr (.read (.error request.requestId request.op error))⟩

/-- `handleReadRequest`, up to its await. Reading takes no nonce and leaves no audit entry. -/
def startRead (line : Line) (m : Moment) (s : DaemonState) : Step :=
  match parseReadRequest line with
  | none => ⟨s, [], .inr (.read (.error (js "unknown") .query
      (js "request does not match the expected schema")))⟩
  | some request =>
    match authenticate s request.agent request.token with
    | none => readError s request (js "request could not be authenticated")
    | some runtime =>
      if runtime.enabled = false then readError s request (js "agent is disabled")
      else if d.windowValid m.nowMs request.requestedAt request.expiresAt = false then
        readError s request (js "request window is invalid or expired")
      else match request.op with
        | .whoami => ⟨s, [], .inr (.read (.whoami request.requestId runtime.agent
            runtime.permission runtime.key.publicKey runtime.chain.chain runtime.chain.network
            runtime.chain.chainId))⟩
        | .query =>
          if d.deps.relay = false then readError s request (js "chain relay is not available")
          else match request.method with
            | none => readError s request (js "query requires a method")
            | some method => ⟨s, [.relay method (request.params.getD (.obj .ordinary []))],
                .inl (.relay request method)⟩

/-! ## The machine -/

inductive Admin where
  | disable (agent : JsString)
  | enable (agent : JsString)

/-- `handleRequest`, up to its first await: the line is peeked at for its operation, then parsed by
the schema of that operation. -/
def start (x : Line × Moment) (s : DaemonState) : Step :=
  match peekOp x.1 with
  | .whoami => d.startRead x.1 x.2 s
  | .query => d.startRead x.1 x.2 s
  | .broadcast => d.startBroadcast x.1 x.2 s
  | .sign => d.startSign x.1 x.2 s

/-- Go on after an await. An exception ends the request with an internal error. An answer of the
wrong kind cannot come, so it is no step. -/
def resume (frame : DaemonFrame) (x : Answer × Moment) (s : DaemonState) : Option Step :=
  match frame, x.1 with
  | .policy c, .policy cached => some (d.endPolicy c cached x.2 s)
  | .policy c, .threw _ => some (d.refuse s c.ctx x.2 c.request.requestId internalError)
  | .authority b, .authority authorized => some (d.endAuthority b authorized x.2 s)
  | .authority b, .threw _ =>
    some (d.refuse s b.ctx x.2 b.admitted.request.requestId internalError)
  | .providers b queries, .evidence answers =>
    some (d.evaluate b (some (d.resolveProviders queries answers)) x.2 s)
  | .sign a, .signed result => some (d.endSign a result x.2 s)
  | .sign a, .threw _ => some (d.failSign a x.2 s)
  | .broadcast a signed, .broadcast outcome => some (d.endBroadcast a signed outcome x.2 s)
  | .broadcast a _, .threw _ =>
    some (d.refuse s a.ctx x.2 a.bound.admitted.request.requestId internalError)
  | .standalone request, .broadcast outcome => some (d.endStandalone request outcome x.2 s)
  | .standalone request, .threw _ => some (d.refuseBroadcast s request x.2 internalError)
  | .relay request method, .read result =>
    some ⟨s, [], .inr (.read (.query request.requestId method result))⟩
  | .relay request _, .threw message =>
    some (readError s request (message.getD (js "read request failed")))
  | _, _ => none

/-- The daemon as a program of cooperative tasks: a segment runs from one `await` to the next, and
others may run between two of one request. -/
def machine : Machine DaemonState (Line × Moment) DaemonFrame (Answer × Moment) Admin Call
    Response where
  start := d.start
  resume := d.resume
  admin
    | .disable agent, s => s.setEnabled agent false
    | .enable agent, s => s.setEnabled agent true
  ends _ := false

end SignBoxDaemon

abbrev DaemonWorld := World DaemonState DaemonFrame

abbrev DaemonEvent := Event (Line × Moment) (Answer × Moment) SignBoxDaemon.Admin

abbrev DaemonHistory := List (DaemonWorld × DaemonEvent)

end Signbox
