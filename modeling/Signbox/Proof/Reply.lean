import Signbox.Proof.Mediation

/-!
# How a segment of a request ends

A segment of the daemon ends in one of few ways: it answers the request, with the audit entry
that belongs to the answer, or it makes one call and awaits it. Whatever it does, the agents
stay as they are, and only the first segment of a request touches the nonces.

* `Presented`: what a request brings to the anti-replay step.
* `Reply`: the ways a segment can end; `start_reply`, `resume_reply`: that these are all.
-/

namespace Signbox

open Guard Async

namespace SignBoxDaemon

variable {d : SignBoxDaemon} {s s' : DaemonState} {m : Moment}

/-! ## The anti-replay step of a request -/

/-- What a request brings to the anti-replay step: whose nonce it is, until when it holds, and the
time. -/
structure Presented where
  agent : JsString
  nonce : JsString
  expiresAt : ℤ
  nowMs : ℤ
  deriving DecidableEq

/-- What a request line brings to the step, if its first gates let it get there. A read brings
nothing. -/
def presented? (d : SignBoxDaemon) (s : DaemonState) (x : Line × Moment) : Option Presented :=
  match peekOp x.1 with
  | .sign => (parseSignRequest x.1).bind fun request =>
    match d.signGates s request x.2.nowMs with
    | .ok runtime => some ⟨runtime.agent, request.nonce, request.expiresAt, x.2.nowMs⟩
    | .error _ => none
  | .broadcast => (parseBroadcastRequest x.1).bind fun request =>
    match d.broadcastGates s request x.2.nowMs with
    | .ok runtime => some ⟨runtime.agent, request.nonce, request.expiresAt, x.2.nowMs⟩
    | .error _ => none
  | _ => none

def Presented.register (p : Presented) (cache : NonceCache) : NonceCache × NonceState :=
  cache.register p.agent p.nonce p.expiresAt p.nowMs

/-- The nonces after the first segment of a request. -/
def noncesAfter (s : DaemonState) : Option Presented → NonceCache
  | none => s.nonces
  | some p => (p.register s.nonces).1

/-! ## Segments -/

/-- The agents and the nonces are the same. Only the journal may have changed. -/
structure Quiet (s s' : DaemonState) : Prop where
  agents : s'.agents = s.agents
  nonces : s'.nonces = s.nonces

theorem Quiet.refl (s : DaemonState) : Quiet s s := ⟨rfl, rfl⟩

/-- The ways a segment can end; `Unparsed` says whether it may be the first one of a standalone
broadcast that does not parse. -/
inductive Reply (d : SignBoxDaemon) (Unparsed : Prop) (s : DaemonState) : Step → Prop
  | sign (s' : DaemonState) (ctx : AuditContext) (m : Moment) (response : SignResponse)
    (hs : Quiet s s') : Reply d Unparsed s (d.respond s' ctx m response)
  | standalone (agent : JsString) (m : Moment) (response : BroadcastResponse) :
    Reply d Unparsed s (d.respondBroadcast s agent m response)
  | unparsed (hunparsed : Unparsed) :
    Reply d Unparsed s ⟨s, [], .inr (.broadcast (.denied (js "unknown") schemaInvalid))⟩
  | read (response : ReadResponse) : Reply d Unparsed s ⟨s, [], .inr (.read response)⟩
  | asks (s' : DaemonState) (call : Call) (f : DaemonFrame) (hs : Quiet s s')
    (hcall : awaitedAt call = rank f) : Reply d Unparsed s ⟨s', [call], .inl f⟩

variable {Unparsed : Prop}

theorem Reply.quiet {seg : Step} (hr : Reply d Unparsed s seg) : Quiet s seg.state := by
  cases hr with
  | sign s' ctx m response hs => exact hs
  | standalone agent m response => exact .refl s
  | unparsed hunparsed => exact .refl s
  | read response => exact .refl s
  | asks s' call f hs hcall => exact hs

theorem refuse_reply {ctx : AuditContext} {requestId : JsString} {denial : Denial} :
    Reply d Unparsed s (d.refuse s ctx m requestId denial) := .sign s ctx m _ (.refl s)

theorem reserveQuota_reply {b : Bound} {ruleIds : List JsString} {policyVersion : ℤ}
    {quotaDemands : List QuotaDemand} :
    Reply d Unparsed s (d.reserveQuota b ruleIds policyVersion quotaDemands m s) := by
  unfold reserveQuota
  dsimp only
  split
  · exact .asks s _ _ (.refl s) rfl
  · split
    · exact refuse_reply
    · split
      · exact refuse_reply
      · split
        · exact .asks _ _ _ ⟨rfl, rfl⟩ rfl
        · exact .sign _ _ _ _ ⟨rfl, rfl⟩

theorem evaluate_reply {b : Bound} {evidence : Option ProviderEvidenceMap} :
    Reply d Unparsed s (d.evaluate b evidence m s) := by
  unfold evaluate
  split
  · exact refuse_reply
  · exact reserveQuota_reply

theorem provide_reply {b : Bound} : Reply d Unparsed s (d.provide b m s) := by
  unfold provide
  split
  · exact refuse_reply
  · exact evaluate_reply
  · exact .asks s _ _ (.refl s) rfl

theorem bindIdentity_reply {c : Admitted} {active : ActivePolicy} :
    Reply d Unparsed s (d.bindIdentity c active m s) := by
  unfold bindIdentity
  split
  · exact refuse_reply
  · dsimp only
    split
    · exact refuse_reply
    · split
      · exact .asks s _ _ (.refl s) rfl
      · exact provide_reply

theorem loadPolicy_reply {c : Admitted} : Reply d Unparsed s (d.loadPolicy c m s) := by
  unfold loadPolicy
  split
  · exact .asks s _ _ (.refl s) rfl
  · exact bindIdentity_reply

theorem settle_quiet {a : Approved} {op : QuotaJournal → ℕ → QuotaJournal}
    (h : d.settle s a m op = some s') : Quiet s s' := by
  unfold settle at h
  split at h
  · cases h
    exact .refl s
  · split at h
    · cases h
      exact .refl s
    · split at h
      · cases h
      · cases h
        exact ⟨rfl, rfl⟩

theorem conclude_reply {a : Approved} {op : QuotaJournal → ℕ → QuotaJournal}
    {signed : SignedTransactionResult} {signedTransaction : Option Json}
    {report : Option BroadcastReport} :
    Reply d Unparsed s (d.conclude s (d.settle s a m op) a m signed signedTransaction report) := by
  unfold conclude
  split
  · exact refuse_reply
  case h_2 s' hsettle => exact .sign s' _ _ _ (settle_quiet hsettle)

/-- **How a request goes on**: it makes its next call, or it ends with an answer and the record of
that answer. -/
theorem resume_reply {f : DaemonFrame} {x : Answer × Moment} {seg : Step}
    (hseg : d.resume f x s = some seg) : Reply d False s seg := by
  unfold resume at hseg
  split at hseg <;> simp only [Option.some.injEq, reduceCtorEq] at hseg <;> subst hseg
  case h_1 c cached ha =>
    unfold endPolicy
    split
    · exact refuse_reply
    · split
      · exact refuse_reply
      · exact bindIdentity_reply
  case h_3 b authorized ha =>
    unfold endAuthority
    split
    · exact provide_reply
    · exact refuse_reply
  case h_5 => exact evaluate_reply
  case h_6 =>
    unfold endSign
    split
    · exact .asks s _ _ (.refl s) rfl
    · exact conclude_reply
  case h_7 a message ha =>
    unfold failSign release
    cases hsettle : d.settle s a x.2 QuotaJournal.release with
    | none => exact refuse_reply
    | some s' => exact .sign s' _ _ _ (settle_quiet hsettle)
  case h_8 a signed outcome ha =>
    unfold endBroadcast
    split <;> exact conclude_reply
  case h_10 request outcome ha => exact .standalone _ _ _
  case h_11 request message ha => exact .standalone _ _ _
  case h_12 => exact .read _
  case h_13 => exact .read _
  all_goals exact refuse_reply

/-- A sign request at the step: its nonce is registered, or it is refused. -/
theorem enter_reply {c : Admitted} :
    Reply d Unparsed { s with nonces :=
      (s.nonces.register c.agent c.request.nonce c.request.expiresAt c.nowMs).1 }
      (d.enter c m s) := by
  unfold enter
  split
  case h_1 nonces hnonce =>
    rw [hnonce]
    split
    · exact loadPolicy_reply
    · exact refuse_reply
  case h_2 nonces state hnonce =>
    rw [hnonce]
    exact refuse_reply

theorem relaySigned_reply {request : BroadcastRequest} {runtime : AgentRuntime} :
    Reply d Unparsed { s with nonces :=
      (s.nonces.register runtime.agent request.nonce request.expiresAt m.nowMs).1 }
      (d.relaySigned request runtime m s) := by
  unfold relaySigned
  split
  case h_1 nonces hnonce =>
    rw [hnonce]
    dsimp only
    split
    · split
      · exact .standalone _ _ _
      · exact .asks _ _ _ (.refl _) rfl
    · exact .standalone _ _ _
  case h_2 nonces state hnonce =>
    rw [hnonce]
    exact .standalone _ _ _

theorem startRead_reply {line : Line} : Reply d Unparsed s (d.startRead line m s) := by
  unfold startRead readError
  split
  · exact .read _
  · split
    · exact .read _
    · split
      · exact .read _
      · split
        · exact .read _
        · split
          · exact .read _
          · split
            · exact .read _
            · split
              · exact .read _
              · exact .asks s _ _ (.refl s) rfl

/-- **How a request starts**: it registers what it presents, and then calls or answers. Only a
standalone broadcast that does not parse is answered without a record. -/
theorem start_reply (x : Line × Moment) :
    Reply d (peekOp x.1 = .broadcast ∧ parseBroadcastRequest x.1 = none)
      { s with nonces := noncesAfter s (d.presented? s x) } (d.start x s) := by
  unfold start presented?
  cases hop : peekOp x.1 with
  | whoami => exact startRead_reply
  | query => exact startRead_reply
  | broadcast =>
    dsimp only
    unfold startBroadcast
    cases hparse : parseBroadcastRequest x.1 with
    | none => exact .unparsed ⟨rfl, rfl⟩
    | some request =>
      dsimp only [Option.bind_some]
      cases d.broadcastGates s request x.2.nowMs with
      | error denial => exact .standalone _ _ _
      | ok runtime => exact relaySigned_reply
  | sign =>
    dsimp only
    unfold startSign
    cases parseSignRequest x.1 with
    | none => exact refuse_reply
    | some request =>
      dsimp only [Option.bind_some]
      cases d.signGates s request x.2.nowMs with
      | error denial => exact refuse_reply
      | ok runtime => exact enter_reply (c := ⟨request, runtime, x.2.nowMs⟩)

end SignBoxDaemon

end Signbox
