import Signbox.Proof.Evaluate
import Signbox.Proof.Journal
import Signbox.Spec.Daemon

/-!
# What the stages of a request do

One rule for each stage of the daemon: to show something of the segment a stage runs, show
it of each way the stage can go on. A refusal is one way for all stages (`Ended`): it makes
no call but the audit entry, it leaves the agents and the reserved quota alone, and its
response carries no signature.

* `SignGates`, `BroadcastGates`: what the gates before the first await have checked.
* `Identified`, `Approves`: what the later stages have checked.
* `start_rule`, `resume_rule`: all ways a segment of the daemon can go.
-/

namespace Signbox

open Guard Async

/-- The digest of the signature in a response. -/
def Response.digest? : Response → Option JsString
  | .sign (.signed _ _ digest _ _ _) => some digest
  | _ => none

namespace SignBoxDaemon

variable {d : SignBoxDaemon} {s s' : DaemonState} {m : Moment} {Q : Step → Prop}

/-! ## Refusals -/

/-- The agents and the rows of the journal are the same; reservation ids may have been drawn.
Nonces may have been registered. -/
structure Untouched (s s' : DaemonState) : Prop where
  agents : s'.agents = s.agents
  rows : s'.journal.rows = s.journal.rows
  issued : s.journal.issued ≤ s'.journal.issued

/-- Nothing is touched where nothing is done. -/
theorem Untouched.refl (s : DaemonState) : Untouched s s := ⟨rfl, rfl, le_rfl⟩

/-- Recording a nonce touches neither agents nor journal. -/
theorem untouched_nonces (s : DaemonState) (nonces : NonceCache) :
    Untouched s { s with nonces := nonces } := ⟨rfl, rfl, le_rfl⟩

/-- The segment ends its request and says no more than a refusal does: no call but an audit entry,
and no signature. -/
structure Ended (s : DaemonState) (seg : Step) : Prop where
  state : Untouched s seg.state
  calls : ∀ call ∈ seg.effects, ∃ entry, call = .audit entry
  done : ∃ r, seg.next = .inr r ∧ r.digest? = none

/-- Recording a decision calls the audit log and nothing else. -/
theorem recordAudit_calls (response : SignResponse) (ctx : AuditContext) (auditMs : ℤ) :
    ∀ call ∈ d.recordAudit response ctx auditMs, ∃ entry, call = .audit entry := by
  intro call hcall
  unfold recordAudit at hcall
  split at hcall
  · split at hcall <;> exact ⟨_, List.mem_singleton.1 hcall⟩
  · simp at hcall

/-- So does recording a broadcast, -/
theorem recordBroadcastAudit_calls (response : BroadcastResponse) (agent : JsString)
    (auditMs : ℤ) :
    ∀ call ∈ d.recordBroadcastAudit response agent auditMs, ∃ entry, call = .audit entry := by
  intro call hcall
  unfold recordBroadcastAudit at hcall
  split at hcall
  · split at hcall <;> exact ⟨_, List.mem_singleton.1 hcall⟩
  · simp at hcall

/-- and answering a request. -/
theorem respond_calls (ctx : AuditContext) (response : SignResponse) :
    ∀ call ∈ (d.respond s ctx m response).effects, ∃ entry, call = .audit entry := by
  intro call hcall
  exact recordAudit_calls response ctx m.auditMs call hcall

/-- A refusal ends the task. -/
theorem refuse_ended (h : Untouched s s') (ctx : AuditContext) (requestId : JsString)
    (denial : Denial) : Ended s (d.refuse s' ctx m requestId denial) := by
  exact ⟨h, respond_calls ctx (.denied requestId denial), _, rfl, rfl⟩

/-- An answer to a broadcast request ends it. -/
theorem respondBroadcast_ended (h : Untouched s s') (agent : JsString)
    (response : BroadcastResponse) : Ended s (d.respondBroadcast s' agent m response) := by
  unfold respondBroadcast
  exact ⟨h, recordBroadcastAudit_calls _ agent _, _, rfl, rfl⟩

/-- So does an answer to a read. -/
theorem read_ended (response : ReadResponse) : Ended s ⟨s, [], .inr (.read response)⟩ :=
  ⟨.refl s, by simp, _, rfl, rfl⟩

/-- What ends a request after a change of state that leaves agents and rows alone. -/
theorem Ended.of_untouched {seg : Step} (h : Untouched s s') (hseg : Ended s' seg) :
    Ended s seg where
  state := ⟨hseg.state.agents.trans h.agents, hseg.state.rows.trans h.rows,
    h.issued.trans hseg.state.issued⟩
  calls := hseg.calls
  done := hseg.done

/-! ## The gates -/

/-- A token authenticates exactly when it is the registered agent's, byte for byte. -/
theorem authenticate_some {agent token : JsString} {runtime : AgentRuntime} :
    authenticate s agent token = some runtime ↔
      s.runtime? agent = some runtime ∧ utf8 token = runtime.token := by
  unfold authenticate
  rw [Option.filter_eq_some_iff]
  simp

/-- The gate passes exactly then. -/
theorem authenticated_ok {agent token : JsString} {runtime : AgentRuntime} :
    authenticated s agent token = .ok runtime ↔
      s.runtime? agent = some runtime ∧ utf8 token = runtime.token := by
  rw [← authenticate_some]
  unfold authenticated
  cases authenticate s agent token <;> simp

/-- The runtime found for an agent is that agent's -/
theorem runtime?_agent {agent : JsString} {runtime : AgentRuntime}
    (h : s.runtime? agent = some runtime) : runtime.agent = agent := by
  have := List.find?_some h
  simpa using this

/-- and one of the registered ones. -/
theorem runtime?_mem {agent : JsString} {runtime : AgentRuntime}
    (h : s.runtime? agent = some runtime) : runtime ∈ s.agents := List.mem_of_find?_eq_some h

/-- The capability to submit, and a broadcaster to submit with. Both are needed before anything is
signed for submission. -/
structure MaySubmit (d : SignBoxDaemon) (caps : AgentCapabilities) : Prop where
  capability : caps.broadcast = true
  broadcaster : d.deps.broadcaster = true

/-- Submitting is open exactly when the daemon and the agent's capabilities allow it. -/
theorem submitGate_ok {caps : AgentCapabilities} {u : Unit} :
    d.submitGate caps = .ok u ↔ MaySubmit d caps := by
  unfold submitGate
  rw [bind_ok]
  simp only [failIf_ok, Bool.not_eq_false]
  exact ⟨fun ⟨_, h, h'⟩ => ⟨h, h'⟩, fun h => ⟨(), h.capability, h.broadcaster⟩⟩

/-- A request that does not ask to broadcast needs no such permission. -/
theorem fusedGate_ok {request : SignRequest} {caps : AgentCapabilities} {u : Unit} :
    d.fusedGate request caps = .ok u ↔ (request.broadcast = some true → MaySubmit d caps) := by
  unfold fusedGate
  by_cases h : request.broadcast = some true
  · rw [if_pos h, submitGate_ok]
    exact ⟨fun hsub _ => hsub, fun hsub => hsub h⟩
  · rw [if_neg h]
    exact ⟨fun _ hb => absurd hb h, fun _ => rfl⟩

/-- What every sign request has passed before its nonce is registered. The order of the checks no
longer shows. -/
structure SignGates (d : SignBoxDaemon) (s : DaemonState) (request : SignRequest) (nowMs : ℤ)
    (runtime : AgentRuntime) : Prop where
  registered : s.runtime? request.agent = some runtime
  token : utf8 request.token = runtime.token
  enabled : runtime.enabled = true
  sign : (runtime.capabilities.getD DEFAULT_CAPABILITIES).sign = true
  submit : request.broadcast = some true →
    MaySubmit d (runtime.capabilities.getD DEFAULT_CAPABILITIES)
  window : d.windowValid nowMs request.requestedAt request.expiresAt = true

/-- The gates of a signing request, as one structure: every one of them was passed. -/
theorem signGates_ok {request : SignRequest} {nowMs : ℤ} {runtime : AgentRuntime} :
    d.signGates s request nowMs = .ok runtime ↔ SignGates d s request nowMs runtime := by
  unfold signGates
  simp only [bind_ok, failIf_ok, authenticated_ok, fusedGate_ok, Bool.not_eq_false, pure_eq,
    Except.ok.injEq]
  constructor
  · rintro ⟨runtime', ⟨hreg, htok⟩, ⟨⟩, hen, ⟨⟩, hsign, ⟨⟩, hsub, ⟨⟩, hwin, rfl⟩
    exact ⟨hreg, htok, hen, hsign, hsub, hwin⟩
  · rintro ⟨hreg, htok, hen, hsign, hsub, hwin⟩
    exact ⟨runtime, ⟨hreg, htok⟩, (), hen, (), hsign, (), hsub, (), hwin, rfl⟩

/-- What every standalone broadcast has passed before its nonce is registered. The capability comes
after it. -/
structure BroadcastGates (d : SignBoxDaemon) (s : DaemonState) (request : BroadcastRequest)
    (nowMs : ℤ) (runtime : AgentRuntime) : Prop where
  registered : s.runtime? request.agent = some runtime
  token : utf8 request.token = runtime.token
  enabled : runtime.enabled = true
  window : d.windowValid nowMs request.requestedAt request.expiresAt = true

/-- The gates of a broadcast request likewise. -/
theorem broadcastGates_ok {request : BroadcastRequest} {nowMs : ℤ} {runtime : AgentRuntime} :
    d.broadcastGates s request nowMs = .ok runtime ↔
      BroadcastGates d s request nowMs runtime := by
  unfold broadcastGates
  simp only [bind_ok, failIf_ok, authenticated_ok, Bool.not_eq_false, pure_eq, Except.ok.injEq]
  constructor
  · rintro ⟨runtime', ⟨hreg, htok⟩, ⟨⟩, hen, ⟨⟩, hwin, rfl⟩
    exact ⟨hreg, htok, hen, hwin⟩
  · rintro ⟨hreg, htok, hen, hwin⟩
    exact ⟨runtime, ⟨hreg, htok⟩, (), hen, (), hwin, rfl⟩

/-! ## The stages of the decision -/

/-- The policy allowed the transaction of `b`, with the demands of `a`. It is the result of one
evaluation. -/
structure Approves (d : SignBoxDaemon) (b : Bound) (evidence : Option ProviderEvidenceMap)
    (a : Approved) : Prop where
  bound : a.bound = b
  decision : evaluatePolicy b.decoded b.active.policy (d.evaluationContext b evidence) =
    ⟨.allow a.ruleIds a.policyVersion, a.quotaDemands⟩

/-- How the quota of an approved request stands when the signer is called: there is nothing to
hold, or it was reserved in this step. -/
inductive Reserved (d : SignBoxDaemon) (s : DaemonState) (a : Approved) : DaemonState → Prop
  | unlimited (hdemands : a.quotaDemands = []) (hnone : a.reservationId = none) :
    Reserved d s a s
  | limited (journal : QuotaJournal) (reservationId : ℕ) (hdemands : a.quotaDemands ≠ [])
    (hsome : a.reservationId = some reservationId) (hquotas : d.deps.quotas = true)
    (hreserve : s.journal.reserve a.agent a.quotaDemands a.bound.admitted.nowMs =
      (journal, .ok reservationId)) :
    Reserved d s a { s with journal := journal }

/-- What holds of ended tasks and of a call to the signer after an approval and a reservation holds
of the decision. These rules are how a property of all steps is proved: no other proof opens the
pipeline. -/
theorem evaluate_rule {b : Bound} {evidence : Option ProviderEvidenceMap}
    (hend : ∀ seg, Ended s seg → Q seg)
    (hsign : ∀ a s', Approves d b evidence a → Reserved d s a s' → Q (callSigner a s')) :
    Q (d.evaluate b evidence m s) := by
  unfold evaluate
  split
  case h_1 code safeReason version _ _ => exact hend _ (refuse_ended (.refl s) ..)
  case h_2 ruleIds version quotaDemands hallow =>
    unfold reserveQuota
    dsimp only
    split
    case isTrue hnil => exact hsign _ _ ⟨rfl, by rw [hallow, hnil]⟩ (.unlimited rfl rfl)
    case isFalse hne =>
      split
      · exact hend _ (refuse_ended (.refl s) ..)
      case isFalse hquotas =>
        split
        · exact hend _ (refuse_ended (.refl s) ..)
        · split
          case h_1 journal r hr =>
            exact hsign ⟨b, ruleIds, version, quotaDemands, some r⟩ _ ⟨rfl, hallow⟩
              (.limited journal r hne rfl (by simpa using hquotas) hr)
          case h_2 journal reason hr =>
            have hrows := reserve_refused (congrArg Prod.snd hr)
            have hissued := reserve_issued s.journal b.agent quotaDemands b.admitted.nowMs
            rw [hr] at hrows hissued
            have hstate : Untouched s { s with journal := journal } := ⟨rfl, hrows, hissued.ge.trans' (Nat.le_succ _)⟩
            exact hend _ (refuse_ended hstate ..)

/-- The step for the providers ends, asks for them, or decides at once. -/
theorem provide_rule {b : Bound} (hend : ∀ seg, Ended s seg → Q seg)
    (hqueries : ∀ queries, queries ≠ [] →
      collectProviderQueries b.decoded b.active.policy (d.evaluationContext b none) = .ok queries →
      Q ⟨s, [.resolve queries], .inl (.providers b queries)⟩)
    (hnone : collectProviderQueries b.decoded b.active.policy (d.evaluationContext b none) = .ok [] →
      Q (d.evaluate b none m s)) :
    Q (d.provide b m s) := by
  unfold provide
  split
  · exact hend _ (refuse_ended (.refl s) ..)
  case h_2 h => exact hnone h
  case h_3 q qs h => exact hqueries _ (by simp) h

/-- The transaction was decoded, and every action carries the agent's one authorization, under the
permission of the policy. -/
structure Identified (d : SignBoxDaemon) (c : Admitted) (active : ActivePolicy) (b : Bound) :
    Prop where
  admitted : b.admitted = c
  policy : b.active = active
  decoded : d.deps.decode c.request.transaction c.runtime.chain = .ok b.decoded
  identity : checkLocalIdentity b.decoded c.agent active.permission = true

/-- The step for the identity ends, asks the chain, or goes on. -/
theorem bindIdentity_rule {c : Admitted} {active : ActivePolicy}
    (hend : ∀ seg, Ended s seg → Q seg)
    (hcheck : ∀ b, Identified d c active b → d.deps.authority = true →
      Q ⟨s, [.authorityCheck c.agent active.permission c.runtime.key.publicKey],
        .inl (.authority b)⟩)
    (hprovide : ∀ b, Identified d c active b → d.deps.authority = false → Q (d.provide b m s)) :
    Q (d.bindIdentity c active m s) := by
  unfold bindIdentity
  split
  · exact hend _ (refuse_ended (.refl s) ..)
  case h_2 decoded hdecode =>
    dsimp only
    split
    · exact hend _ (refuse_ended (.refl s) ..)
    case isFalse hid =>
      have hb : Identified d c active ⟨c, active, decoded⟩ :=
        ⟨rfl, rfl, hdecode, by simpa using hid⟩
      split
      case isTrue hauth => exact hcheck _ hb hauth
      case isFalse hauth => exact hprovide _ hb (by simpa using hauth)

/-- After the chain's answer it ends, or goes on if the key is authorized. -/
theorem endAuthority_rule {b : Bound} {authorized : Bool} (hend : ∀ seg, Ended s seg → Q seg)
    (hprovide : authorized = true → Q (d.provide b m s)) :
    Q (d.endAuthority b authorized m s) := by
  unfold endAuthority
  split
  case isTrue h => exact hprovide h
  case isFalse => exact hend _ (refuse_ended (.refl s) ..)

/-- The policy is asked for, or the one at hand is used where there is no cache. -/
theorem loadPolicy_rule {c : Admitted}
    (hget : d.deps.policyCache = true →
      Q ⟨s, [.policyGet c.agent c.nowMs], .inl (.policy c)⟩)
    (hbind : d.deps.policyCache = false → Q (d.bindIdentity c
      ⟨c.runtime.policy, c.runtime.policyVersion, c.runtime.permission⟩ m s)) :
    Q (d.loadPolicy c m s) := by
  unfold loadPolicy
  split
  case isTrue h => exact hget h
  case isFalse h => exact hbind (by simpa using h)

/-- After the cache's answer it ends, or goes on with an enabled policy. -/
theorem endPolicy_rule {c : Admitted} {cached : Option CachedPolicy}
    (hend : ∀ seg, Ended s seg → Q seg)
    (hbind : ∀ p, cached = some p → p.enabled = true →
      Q (d.bindIdentity c ⟨p.policy, p.version, p.permission⟩ m s)) :
    Q (d.endPolicy c cached m s) := by
  unfold endPolicy
  split
  · exact hend _ (refuse_ended (.refl s) ..)
  case h_2 p =>
    split
    · exact hend _ (refuse_ended (.refl s) ..)
    case isFalse h => exact hbind p rfl (by simpa using h)

/-! ## The first segment -/

/-- A sign request has passed all gates before its first await; `nonces` is the cache with
its nonce. -/
structure Entered (d : SignBoxDaemon) (line : Line) (m : Moment) (s : DaemonState) (c : Admitted)
    (nonces : NonceCache) : Prop where
  parsed : parseSignRequest line = some c.request
  gates : SignGates d s c.request c.nowMs c.runtime
  clock : c.nowMs = m.nowMs
  nonce : s.nonces.register c.agent c.request.nonce c.request.expiresAt c.nowMs = (nonces, .ok)
  chain : chainMatches c.runtime.chain c.request.chain c.request.network c.request.chainId = true

/-- A signing request ends at a gate, or enters with its nonce recorded. -/
theorem startSign_rule {line : Line} (hend : ∀ seg, Ended s seg → Q seg)
    (henter : ∀ c nonces, Entered d line m s c nonces →
      Q (d.loadPolicy c m { s with nonces := nonces })) :
    Q (d.startSign line m s) := by
  unfold startSign
  split
  · exact hend _ (refuse_ended (.refl s) ..)
  case h_2 request hparse =>
    split
    · exact hend _ (refuse_ended (.refl s) ..)
    case h_2 runtime hgates =>
      unfold enter
      split
      case h_1 nonces hnonce =>
        split
        case isTrue hchain =>
          exact henter ⟨request, runtime, m.nowMs⟩ nonces
            ⟨hparse, signGates_ok.1 hgates, rfl, hnonce, hchain⟩
        case isFalse => exact hend _ (refuse_ended (untouched_nonces s _) ..)
      case h_2 => exact hend _ (refuse_ended (untouched_nonces s _) ..)

/-- A standalone broadcast has passed all its gates, from its line to the capability to submit. -/
structure Relayed (d : SignBoxDaemon) (line : Line) (m : Moment) (s : DaemonState)
    (request : BroadcastRequest) (runtime : AgentRuntime) (nonces : NonceCache) : Prop where
  parsed : parseBroadcastRequest line = some request
  gates : BroadcastGates d s request m.nowMs runtime
  nonce : s.nonces.register runtime.agent request.nonce request.expiresAt m.nowMs = (nonces, .ok)
  chain : chainMatches runtime.chain request.chain request.network request.chainId = true
  submit : MaySubmit d (runtime.capabilities.getD DEFAULT_CAPABILITIES)

/-- A broadcast request ends at a gate, or is relayed with its nonce recorded. -/
theorem startBroadcast_rule {line : Line} (hend : ∀ seg, Ended s seg → Q seg)
    (hrelay : ∀ request runtime nonces, Relayed d line m s request runtime nonces →
      Q ⟨{ s with nonces := nonces }, [.broadcast runtime.agent (some request.signedTransaction)],
        .inl (.standalone request)⟩) :
    Q (d.startBroadcast line m s) := by
  unfold startBroadcast
  split
  · exact hend _ ⟨.refl s, by simp, _, rfl, rfl⟩
  case h_2 request hparse =>
    split
    · exact hend _ (respondBroadcast_ended (.refl s) ..)
    case h_2 runtime hgates =>
      unfold relaySigned
      split
      case h_1 nonces hnonce =>
        dsimp only
        split
        case isTrue hchain =>
          split
          · exact hend _ (respondBroadcast_ended (untouched_nonces s _) ..)
          case h_2 hsubmit =>
            exact hrelay request runtime nonces
              ⟨hparse, broadcastGates_ok.1 hgates, hnonce, hchain, submitGate_ok.1 hsubmit⟩
        case isFalse => exact hend _ (respondBroadcast_ended (untouched_nonces s _) ..)
      case h_2 => exact hend _ (respondBroadcast_ended (untouched_nonces s _) ..)

/-- A read ends, or is relayed. -/
theorem startRead_rule {line : Line} (hend : ∀ seg, Ended s seg → Q seg)
    (hrelay : ∀ request method params,
      Q ⟨s, [.relay method params], .inl (.relay request method)⟩) :
    Q (d.startRead line m s) := by
  unfold startRead
  split
  · exact hend _ (read_ended _)
  · split
    · exact hend _ (read_ended _)
    · split
      · exact hend _ (read_ended _)
      · split
        · exact hend _ (read_ended _)
        · split
          · exact hend _ (read_ended _)
          · split
            · exact hend _ (read_ended _)
            · split
              · exact hend _ (read_ended _)
              · exact hrelay _ _ _

/-- **How a request starts**: a property of its first segment follows when it holds of every
segment that ends the task and of each call that a start can make. -/
theorem start_rule {line : Line} (hend : ∀ seg, Ended s seg → Q seg)
    (henter : ∀ c nonces, Entered d line m s c nonces →
      Q (d.loadPolicy c m { s with nonces := nonces }))
    (hstandalone : ∀ request runtime nonces, Relayed d line m s request runtime nonces →
      Q ⟨{ s with nonces := nonces }, [.broadcast runtime.agent (some request.signedTransaction)],
        .inl (.standalone request)⟩)
    (hrelay : ∀ request method params,
      Q ⟨s, [.relay method params], .inl (.relay request method)⟩) :
    Q (d.start (line, m) s) := by
  unfold start
  split
  · exact startRead_rule hend hrelay
  · exact startRead_rule hend hrelay
  · exact startBroadcast_rule hend hstandalone
  · exact startSign_rule hend henter

/-! ## Later segments -/

/-- **How a request goes on**: for each frame and the answer that fits it, the property is asked of
the step that the source takes there. An answer that does not fit resumes nothing. -/
theorem resume_rule {f : DaemonFrame} {answer : Answer} {seg : Step}
    (hseg : d.resume f (answer, m) s = some seg) (hend : ∀ seg, Ended s seg → Q seg)
    (hpolicy : ∀ c cached, f = .policy c → answer = .policy cached →
      Q (d.endPolicy c cached m s))
    (hauthority : ∀ b authorized, f = .authority b → answer = .authority authorized →
      Q (d.endAuthority b authorized m s))
    (hproviders : ∀ b queries answers, f = .providers b queries → answer = .evidence answers →
      Q (d.evaluate b (some (d.resolveProviders queries answers)) m s))
    (hsigned : ∀ a result, f = .sign a → answer = .signed result → Q (d.endSign a result m s))
    (hfailed : ∀ a message, f = .sign a → answer = .threw message → Q (d.failSign a m s))
    (hbroadcast : ∀ a signed outcome, f = .broadcast a signed → answer = .broadcast outcome →
      Q (d.endBroadcast a signed outcome m s))
    (hthrew : ∀ a signed message, f = .broadcast a signed → answer = .threw message →
      Q (d.refuse s a.ctx m a.bound.admitted.request.requestId internalError)) :
    Q seg := by
  unfold resume at hseg
  split at hseg <;> simp only [Option.some.injEq, reduceCtorEq] at hseg <;> subst hseg
  case h_1 c cached ha => exact hpolicy c cached rfl ha
  case h_2 => exact hend _ (refuse_ended (.refl s) ..)
  case h_3 b authorized ha => exact hauthority b authorized rfl ha
  case h_4 => exact hend _ (refuse_ended (.refl s) ..)
  case h_5 b queries answers ha => exact hproviders b queries answers rfl ha
  case h_6 a result ha => exact hsigned a result rfl ha
  case h_7 a message ha => exact hfailed a message rfl ha
  case h_8 a signed outcome ha => exact hbroadcast a signed outcome rfl ha
  case h_9 a signed message ha => exact hthrew a signed message rfl ha
  case h_10 => exact hend _ (respondBroadcast_ended (.refl s) ..)
  case h_11 => exact hend _ (respondBroadcast_ended (.refl s) ..)
  case h_12 => exact hend _ (read_ended _)
  case h_13 => exact hend _ (read_ended _)

end SignBoxDaemon

/-! ## A deployment -/

namespace Sample

/-- An agent that may sign and broadcast, under a policy. -/
def agent (policy : Policy) : AgentRuntime where
  agent := js "bot"
  permission := js "active"
  chain := ⟨js "xpr", js "testnet", chainId⟩
  policy := policy
  policyVersion := 1
  enabled := true
  token := utf8 (js "token-0123456789")
  key := ⟨js "bot", js "PUB_K1_bot", ⟨js "xpr", js "testnet", chainId⟩, js "bot", js "active"⟩
  capabilities := some ⟨true, true⟩

/-- The daemon with every part wired but the cache, the authority check and the audit log;
`decode` reads every transaction as the sample transfer. -/
def daemon : SignBoxDaemon where
  cfg := SignBoxDaemon.DEFAULTS
  deps := {
    decode := fun _ _ => .ok (transfer [])
    dialect := xprDialect
    broadcaster := true
    relay := true
    quotas := true
    policyCache := false
    audit := false
    authority := false }

/-- The state with one agent on this policy. -/
def state (policy : Policy) : DaemonState := ⟨[agent policy], .empty, .empty⟩

/-- The members of a request line of the agent. -/
def members (nonce : String) : List (JsString × Json) :=
  [(js "requestId", text "request-1"), (js "agent", text "bot"), (js "chain", text "xpr"),
    (js "network", text "testnet"), (js "chainId", .str chainId),
    (js "requestedAt", text "2026-07-08T12:00:00Z"),
    (js "expiresAt", text "2026-07-08T12:01:00Z"), (js "nonce", text nonce),
    (js "token", text "token-0123456789")]

/-- A request to sign a transaction, and to submit it. -/
def signLine (nonce : String) (broadcast : Bool) : Line := some (.obj .ordinary
  ((js "transaction", .obj .ordinary []) :: (js "broadcast", .bool broadcast) :: members nonce))

/-- A moment in the window of the request. -/
def moment : Moment := ⟨1783512001000, 1783512001000, false⟩

/-- What the signer returns, with this digest. -/
def signed (digest : String) : SignedTransactionResult :=
  ⟨js "SIG_K1_sig", js digest, some (.obj .ordinary [])⟩

end Sample

end Signbox
