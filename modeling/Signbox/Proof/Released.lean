import Signbox.Proof.Mediation
import Signbox.Proof.Signer

/-!
# What leaves the daemon signed

A daemon whose signer is the one of the chain lets out a signature only for bytes that read back as
a transaction the active policy allows, with the demands that were reserved for it, and under the
key of the agent that asked. This holds in every run, whatever the endpoint of the signer answers.

* `SignedBehind`: a request was allowed, and the signer answered it.
* `frames_signed`, `response_behind`: a signature in a broadcast or in a response has that behind it.
* `SignerAnswers`, `LinesRead`: the signer and the reader of lines that the daemon is run with.
* `Released`: what such a signature stands for, and `signatures_released`: the law.
-/

namespace Signbox

open Guard Async

namespace SignBoxDaemon

variable {d : SignBoxDaemon} {h h' : DaemonHistory} {t : ℕ} {s : DaemonState} {m : Moment}

/-! ## Where signatures come from -/

/-- Request `t` was allowed, and then the signer answered it. Its signature is what the response
may carry. -/
structure SignedBehind (d : SignBoxDaemon) (h : DaemonHistory) (t : ℕ) (a : Approved)
    (result : SignedTransactionResult) : Prop where
  cleared : Cleared d h t a
  answered : ∃ w m, (w, .resume t (.signed result, m)) ∈ h ∧ w.tasks.lookup t = some (.sign a)

/-- A signature accounted for by a history is accounted for by a longer one. -/
theorem SignedBehind.mono {a : Approved} {result : SignedTransactionResult}
    (hs : SignedBehind d h t a result) (hsub : h ⊆ h') : SignedBehind d h' t a result := by
  obtain ⟨hcleared, w, m, hmem, hf⟩ := hs
  exact ⟨hcleared.mono hsub, w, m, hsub hmem, hf⟩

/-- A segment before the signer has answered: it does not wait for a broadcast of a signature, and
ends without one. -/
structure Unsigned (seg : Step) : Prop where
  frame : ∀ a signed, seg.next ≠ .inl (.broadcast a signed)
  response : ∀ r, seg.next = .inr r → r.digest? = none

/-- An ended task returns no signature. -/
theorem Ended.unsigned {seg : Step} (hend : Ended s seg) : Unsigned seg := by
  obtain ⟨r, hr, hnone⟩ := hend.done
  constructor
  · intro a signed hf
    rw [hr] at hf
    cases hf
  · intro r' hr'
    rw [hr] at hr'
    cases hr'
    exact hnone

/-- Nor does a task that waits for anything but a broadcast. -/
theorem unsigned_await {f : DaemonFrame} {call : Call} (hf : ∀ a signed, f ≠ .broadcast a signed) :
    Unsigned ⟨s, [call], .inl f⟩ :=
  ⟨fun a signed heq => hf a signed (Sum.inl.inj heq), fun _ hr => by cases hr⟩

/-- The decision asks for a signature and does not return one. -/
theorem evaluate_unsigned {b : Bound} {evidence : Option ProviderEvidenceMap} :
    Unsigned (d.evaluate b evidence m s) :=
  evaluate_rule (fun _ hend => hend.unsigned) fun _ _ _ _ => unsigned_await (by simp)

/-- Nor does any step before it: the one for the providers, -/
theorem provide_unsigned {b : Bound} : Unsigned (d.provide b m s) :=
  provide_rule (fun _ hend => hend.unsigned) (fun _ _ _ => unsigned_await (by simp))
    fun _ => evaluate_unsigned

/-- the one for the identity, -/
theorem bindIdentity_unsigned {c : Admitted} {active : ActivePolicy} :
    Unsigned (d.bindIdentity c active m s) :=
  bindIdentity_rule (fun _ hend => hend.unsigned) (fun _ _ _ => unsigned_await (by simp))
    fun _ _ _ => provide_unsigned

/-- and the first. -/
theorem start_unsigned {x : Line × Moment} : Unsigned (d.start x s) :=
  start_rule (fun _ hend => hend.unsigned)
    (fun _ _ _ => loadPolicy_rule (fun _ => unsigned_await (by simp)) fun _ => bindIdentity_unsigned)
    (fun _ _ _ _ => unsigned_await (by simp)) fun _ _ _ => unsigned_await (by simp)

/-- A later segment is one before the signer has answered, or what the answer of the signer or of
the broadcaster leads to. -/
theorem resume_signed {f : DaemonFrame} {answer : Answer} {seg : Step}
    (hres : d.resume f (answer, m) s = some seg) : Unsigned seg ∨
      (∃ a result, f = .sign a ∧ answer = .signed result ∧ seg = d.endSign a result m s) ∨
      ∃ a signed outcome, f = .broadcast a signed ∧ answer = .broadcast outcome ∧
        seg = d.endBroadcast a signed outcome m s := by
  refine resume_rule (Q := fun seg => Unsigned seg ∨
    (∃ a result, f = .sign a ∧ answer = .signed result ∧ seg = d.endSign a result m s) ∨
      ∃ a signed outcome, f = .broadcast a signed ∧ answer = .broadcast outcome ∧
        seg = d.endBroadcast a signed outcome m s)
    hres (fun _ hend => .inl hend.unsigned) ?_ ?_ ?_ ?_ ?_ ?_ ?_
  · exact fun c cached _ _ => .inl (endPolicy_rule (fun _ hend => hend.unsigned) fun _ _ _ =>
      bindIdentity_unsigned)
  · exact fun b authorized _ _ => .inl (endAuthority_rule (fun _ hend => hend.unsigned) fun _ =>
      provide_unsigned)
  · exact fun b queries answers _ _ => .inl evaluate_unsigned
  · exact fun a result hf hanswer => .inr (.inl ⟨a, result, hf, hanswer, rfl⟩)
  · exact fun a message _ _ => .inl (refuse_ended (.refl _) ..).unsigned
  · exact fun a signed outcome hf hanswer => .inr (.inr ⟨a, signed, outcome, hf, hanswer, rfl⟩)
  · exact fun a signed _ _ _ => .inl (refuse_ended (.refl _) ..).unsigned

/-- What a concluded request ends with. -/
theorem conclude_next {settled : Option DaemonState} {a : Approved}
    {signed : SignedTransactionResult} {signedTransaction : Option Json}
    {report : Option BroadcastReport} :
    Unsigned (d.conclude s settled a m signed signedTransaction report) ∨
      (d.conclude s settled a m signed signedTransaction report).next =
        .inr (.sign (.signed a.bound.admitted.request.requestId signed.signature
          signed.transactionDigest signedTransaction a.policyVersion report)) := by
  unfold conclude
  split
  · exact .inl (refuse_ended (.refl s) ..).unsigned
  · exact .inr rfl

/-- After a broadcast the task ends with the signature it waited with, or without one. -/
theorem endBroadcast_next (a : Approved) (signed : SignedTransactionResult)
    (outcome : BroadcastOutcome) (m : Moment) (s : DaemonState) : Unsigned (d.endBroadcast a signed outcome m s) ∨
      ∃ signedTransaction report, (d.endBroadcast a signed outcome m s).next =
        .inr (.sign (.signed a.bound.admitted.request.requestId signed.signature
          signed.transactionDigest signedTransaction a.policyVersion report)) := by
  unfold endBroadcast
  cases outcome <;> exact conclude_next.imp id fun hnext => ⟨_, _, hnext⟩

/-- After signing the task ends with the signature, waits for the broadcast of it, or ends without
one. -/
theorem endSign_next (a : Approved) (result : SignedTransactionResult) (m : Moment)
    (s : DaemonState) : Unsigned (d.endSign a result m s) ∨
      (d.endSign a result m s).next = .inl (.broadcast a result) ∨
      ∃ signedTransaction report, (d.endSign a result m s).next =
        .inr (.sign (.signed a.bound.admitted.request.requestId result.signature
          result.transactionDigest signedTransaction a.policyVersion report)) := by
  unfold endSign
  split
  · exact .inr (.inl rfl)
  · exact conclude_next.imp id fun hnext => .inr ⟨_, _, hnext⟩

/-! ## Runs -/

/-- **A signature that is submitted** was made for the request that submits it, and the request had
passed every gate before. -/
theorem frames_signed (s : DaemonState) (es : List DaemonEvent) :
    ∀ tf ∈ (d.machine.run (boot s) es).tasks, ∀ a signed, tf.2 = .broadcast a signed →
      SignedBehind d (d.machine.history (boot s) es) tf.1 a signed := by
  suffices hboth : ∀ tf ∈ (d.machine.run (boot s) es).tasks,
      Behind d (d.machine.history (boot s) es) tf.1 tf.2 ∧ ∀ a signed, tf.2 = .broadcast a signed →
        SignedBehind d (d.machine.history (boot s) es) tf.1 a signed from
    fun tf htf => (hboth tf htf).2
  refine frames_hold (K := fun h t f => Behind d h t f ∧ ∀ a signed, f = .broadcast a signed →
    SignedBehind d h t a signed) ?_ ?_ (wf_boot s) (by simp [boot]) es
  · rintro h x t f ⟨hbehind, hsigned⟩
    have hsub : h ⊆ h ++ [x] := List.subset_append_left _ _
    exact ⟨hbehind.mono hsub, fun a signed hf => (hsigned a signed hf).mono hsub⟩
  · intro h w e t seg f hw hK hseg hnext
    rcases segment?_cases hseg with ⟨⟨line, m⟩, rfl, rfl, rfl⟩ | ⟨f₀, ⟨answer, m⟩, rfl, hf, hres⟩
    · refine ⟨(start_mediated mem_history_snoc).frame f hnext, fun a signed hbroadcast => ?_⟩
      rw [hbroadcast] at hnext
      exact absurd hnext (start_unsigned.frame a signed)
    · have hsub : h ⊆ h ++ [(w, .resume t (answer, m))] := List.subset_append_left _ _
      have hbehind := (hK _ (mem_of_lookup hf)).1.mono hsub
      refine ⟨(resume_mediated mem_history_snoc hf hbehind hres).frame f hnext, ?_⟩
      intro a signed hbroadcast
      rw [hbroadcast] at hnext
      -- the only frame that starts to wait for a broadcast is the one the signer has answered
      rcases resume_signed hres with hunsigned | ⟨a', result, rfl, rfl, rfl⟩ |
        ⟨a', signed', outcome, rfl, rfl, rfl⟩
      · exact absurd hnext (hunsigned.frame a signed)
      · rcases endSign_next (d := d) a' result m w.shared with hunsigned | hwait | ⟨_, _, hend⟩
        · exact absurd hnext (hunsigned.frame a signed)
        · rw [hwait] at hnext
          cases hnext
          exact ⟨hbehind, w, m, mem_history_snoc, hf⟩
        · rw [hend] at hnext
          cases hnext
      · rcases endBroadcast_next (d := d) a' signed' outcome m w.shared with
          hunsigned | ⟨_, _, hend⟩
        · exact absurd hnext (hunsigned.frame a signed)
        · rw [hend] at hnext
          cases hnext

/-- **A signature in a response** was made for the request that is answered, and it is that very
signature and digest. -/
theorem response_behind {s : DaemonState} {es : List DaemonEvent} {e : DaemonEvent}
    {requestId signature digest : JsString} {signedTransaction : Option Json} {version : ℤ}
    {report : Option BroadcastReport} (hdone : (t, .done (.sign (.signed requestId signature digest
      signedTransaction version report))) ∈ d.machine.outputs (d.machine.run (boot s) es) e) :
    ∃ a result, SignedBehind d (d.machine.history (boot s) (es ++ [e])) t a result ∧
      requestId = a.bound.admitted.request.requestId ∧ signature = result.signature ∧
      digest = result.transactionDigest ∧ version = a.policyVersion := by
  have hbehind := frames_behind (d := d) s es
  have hsigned := frames_signed (d := d) s es
  obtain ⟨seg, hseg, ho⟩ := mem_outputs.1 hdone
  rw [done_mem_outputs] at ho
  rw [history_snoc]
  have hsub : d.machine.history (boot s) es ⊆
    d.machine.history (boot s) es ++ [(d.machine.run (boot s) es, e)] :=
      List.subset_append_left _ _
  rcases segment?_cases hseg with ⟨⟨line, m⟩, rfl, rfl, rfl⟩ | ⟨f, ⟨answer, m⟩, rfl, hf, hres⟩
  · exact absurd (start_unsigned.response _ ho) (by simp [Response.digest?])
  · rcases resume_signed hres with hunsigned | ⟨a, result, rfl, rfl, rfl⟩ |
      ⟨a, signed, outcome, rfl, rfl, rfl⟩
    · exact absurd (hunsigned.response _ ho) (by simp [Response.digest?])
    · rcases endSign_next (d := d) a result m (d.machine.run (boot s) es).shared with
        hunsigned | hwait | ⟨_, _, hend⟩
      · exact absurd (hunsigned.response _ ho) (by simp [Response.digest?])
      · rw [hwait] at ho
        cases ho
      · rw [hend] at ho
        cases ho
        have hcleared : Cleared d (d.machine.history (boot s) es) t a :=
          hbehind _ (mem_of_lookup hf)
        exact ⟨a, result, ⟨hcleared.mono hsub, _, m, mem_history_snoc, hf⟩, rfl, rfl, rfl, rfl⟩
    · rcases endBroadcast_next (d := d) a signed outcome m (d.machine.run (boot s) es).shared with
        hunsigned | ⟨_, _, hend⟩
      · exact absurd (hunsigned.response _ ho) (by simp [Response.digest?])
      · rw [hend] at ho
        cases ho
        exact ⟨a, signed, (hsigned _ (mem_of_lookup hf) a signed rfl).mono hsub, rfl, rfl, rfl, rfl⟩

/-- **A transaction that is submitted** is what the signer answered to the request that submits it,
or that of a standalone request. -/
theorem broadcast_behind {s : DaemonState} {es : List DaemonEvent} {e : DaemonEvent}
    {agent : JsString} {signedTransaction : Option Json}
    (hcall : (t, .effect (.broadcast agent signedTransaction)) ∈
      d.machine.outputs (d.machine.run (boot s) es) e) :
    (∃ a result, SignedBehind d (d.machine.history (boot s) (es ++ [e])) t a result ∧
      a.bound.admitted.request.broadcast = some true ∧ agent = a.agent ∧
      signedTransaction = result.signedTransaction) ∨
    ∃ line m request runtime nonces, e = .start (line, m) ∧
      Relayed d line m (d.machine.run (boot s) es).shared request runtime nonces ∧
      agent = runtime.agent ∧ signedTransaction = some request.signedTransaction := by
  have hbehind := frames_behind (d := d) s es
  obtain ⟨seg, hseg, ho⟩ := mem_outputs.1 hcall
  rw [history_snoc]
  rcases segment?_cases hseg with ⟨⟨line, m⟩, rfl, rfl, rfl⟩ | ⟨f, ⟨answer, m⟩, rfl, hf, hres⟩
  · obtain ⟨request, runtime, nonces, hrelayed, hagent, hsigned⟩ :=
      (start_mediated (mem_history_snoc (h := []))).broadcast _ _ (effect_mem_outputs.1 ho)
    exact .inr ⟨line, m, request, runtime, nonces, rfl, hrelayed, hagent, hsigned⟩
  · have hf' := (hbehind _ (mem_of_lookup hf)).mono (List.subset_append_left _
      [(d.machine.run (boot s) es, .resume t (answer, m))])
    obtain ⟨a, result, rfl, rfl, hfused, -, hagent, hsigned⟩ :=
      (resume_mediated mem_history_snoc hf hf' hres).broadcast _ _ (effect_mem_outputs.1 ho)
    exact .inl ⟨a, result, ⟨hf', _, m, mem_history_snoc, hf⟩, hfused, hagent, hsigned⟩

/-! ## The signer of the chain -/

/-- In this history the signer answers a request with what it makes of the transaction and the key
it was called with, under the keys that are unlocked and whatever it did before. -/
def SignerAnswers (c : Signer.Crypto) (package : Signer.ChainPackage)
    (options : Signer.XprSignerOptions) (rpc : VerifiedRpcOptions) (secrets : Signer.Secrets)
    (h : DaemonHistory) : Prop :=
  ∀ w t result m a, (w, .resume t (.signed result, m)) ∈ h → w.tasks.lookup t = some (.sign a) →
    ∃ ops, Signer.Signs c package options rpc secrets ops a.bound.decoded
      a.bound.admitted.runtime.key (.ok result)

/-- The lines of this history are what `JSON.parse` reads: each request came in as a text. -/
def LinesRead (nearest : Decimal → JsNumber) (h : DaemonHistory) : Prop :=
  ∀ w line m, (w, .start (line, m)) ∈ h → ∃ text, line = Json.parse nearest text

/-- The daemon reads and decides about transactions of the chain: its decoder and its dialect are
those of XPR. -/
structure ForXpr (d : SignBoxDaemon) : Prop where
  decode : d.deps.decode = decodeXprTransaction
  dialect : d.deps.dialect = xprDialect

/-- **What a signature that leaves the daemon stands for.** It is one under the agent's key for
bytes of the pinned chain, which the chain package got and read back with the answers of the verified
endpoint and of the provider of that key; and what those bytes read back as is allowed by the policy
that the request was decided under, with the demands that were reserved for it. -/
structure Released (c : Signer.Crypto) (package : Signer.ChainPackage)
    (options : Signer.XprSignerOptions) (rpc : VerifiedRpcOptions) (secrets : Signer.Secrets)
    (d : SignBoxDaemon) (h : DaemonHistory) (t : ℕ) (a : Approved)
    (result : SignedTransactionResult) : Prop where
  cleared : Cleared d h t a
  agent : a.bound.admitted.runtime.key.agent = a.agent
  permission : a.bound.admitted.runtime.key.permission = a.bound.active.permission
  bytes : ∃ ops bytes produced ty evidence,
    Signer.Vouched c package options (Signer.Hosted c rpc
      (Signer.apiFor (Signer.run options ops) a.bound.admitted.runtime.key).1 secrets) secrets
      a.bound.decoded a.bound.admitted.runtime.key result bytes produced ∧
    decodeXprTransaction (Signer.readBack produced) a.bound.admitted.runtime.chain = .ok ty ∧
    EvidenceFrom d h t a.bound evidence ∧
    evaluatePolicy ty a.bound.active.policy (d.evaluationContext a.bound evidence) =
      ⟨.allow a.ruleIds a.policyVersion, a.quotaDemands⟩

/-- A member that must be an object is returned as it is. -/
theorem object_some {v w : Json} (h : RequestSchema.object v = some w) : w = v := by
  cases v with
  | obj p ms => exact (Option.some.inj h).symm
  | _ => cases h

/-- The agent and the transaction of a request that is read are members of its object. -/
theorem sign_members {p : Proto} {ms : List (JsString × Json)} {request : SignRequest}
    (h : RequestSchema.sign (.obj p ms) = some request) :
    ms.lookup (js "agent") = some (.str request.agent) ∧
      ms.lookup (js "transaction") = some request.transaction := by
  simp only [RequestSchema.sign, Schema.required, Option.bind_eq_bind, Option.bind_eq_some_iff,
    Option.guard_eq_some', Option.pure_def, Option.some.injEq] at h
  obtain ⟨-, -, -, -, agent, ⟨v, hv, hagent⟩, -, -, -, -, -, -, transaction, ⟨w, hw, hobject⟩, -, -,
    -, -, -, -, -, -, -, -, rfl⟩ := h
  rw [hv, hw, (Schema.pattern_eq hagent).1, object_some hobject]
  exact ⟨rfl, rfl⟩

/-- The transaction of a request that was read is a value of JSON. -/
theorem parseSignRequest_distinct {nearest : Decimal → JsNumber} {text : JsString}
    {request : SignRequest} (h : parseSignRequest (Json.parse nearest text) = some request) :
    request.transaction.Distinct := by
  obtain ⟨v, hv, hread⟩ := Option.bind_eq_some_iff.1 h
  have hd : v.Distinct := parse_distinct hv
  cases v with
  | obj p ms => exact distinct_member hd.2 (sign_members hread).2
  | _ => cases hread

/-- A decoded transaction has an action. -/
theorem decode_action {x : Json} {context : ChainContext} {tx : DecodedTransaction}
    (h : decodeXprTransaction x context = .ok tx) : ∃ action, action ∈ tx.actions := by
  obtain ⟨-, raws, hraws, hactions, -⟩ := decode_ok h
  obtain ⟨-, -, items, -, -, hlen, hitems⟩ := transaction_some hraws
  have hraw := (mapM_some.1 hitems).length_eq
  have hdecoded := (mapM_ok.1 hactions).length_eq
  exact List.exists_mem_of_length_pos (by omega)

/-- A signature that is accounted for is a released one: its bytes were signed by the signer for
the transaction that was decided on. -/
theorem SignedBehind.released {c : Signer.Crypto} {package : Signer.ChainPackage}
    {options : Signer.XprSignerOptions} {rpc : VerifiedRpcOptions} {nearest : Decimal → JsNumber}
    {secrets : Signer.Secrets} {a : Approved} {result : SignedTransactionResult}
    (hs : SignedBehind d h t a result) (hd : ForXpr d) (hpackage : package.Faithful)
    (hpinned : rpc.chainId = options.chainId)
    (hsigner : SignerAnswers c package options rpc secrets h) (hlines : LinesRead nearest h) :
    Released c package options rpc secrets d h t a result := by
  obtain ⟨hcleared, w, m, hmem, hf⟩ := hs
  obtain ⟨ops, hsigns⟩ := hsigner w t result m a hmem hf
  obtain ⟨⟨w', line, m', nonces, hstart, -, hentered⟩, -, hdecode, hidentity⟩ := hcleared.loaded
  obtain ⟨evidence, hevidence, hallowed⟩ := hcleared.allowed
  rw [hd.decode] at hdecode
  have hdistinct : a.bound.admitted.request.transaction.Distinct := by
    obtain ⟨text, htext⟩ := hlines w' line m' hstart
    have hparsed := hentered.parsed
    rw [htext] at hparsed
    exact parseSignRequest_distinct hparsed
  obtain ⟨bytes, produced, hvouched⟩ :=
    Signer.signs_vouched hpackage hpinned hdistinct hdecode hsigns
  obtain ⟨action, haction⟩ := decode_action hdecode
  have hkey := hvouched.identity action haction
  rw [hidentity action haction] at hkey
  simp only [List.cons.injEq, AccountIdentity.mk.injEq, and_true] at hkey
  obtain ⟨ty, hty, hdecided⟩ := hvouched.decided
  obtain ⟨-, -, -, -, hcontext⟩ := decode_ok hdecode
  rw [hcontext] at hty
  refine ⟨hcleared, hkey.1.symm, hkey.2.symm, ops, bytes, produced, ty, evidence, hvouched,
    hty, hevidence, ?_⟩
  rw [← hdecided a.bound.active.policy _ hd.dialect]
  exact hallowed

/-- **Every signature that leaves the daemon is released**, in every run: in a response, and in a
transaction that is submitted for the agent. The response names the request, the digest and the
policy version that the signature was made for. A standalone broadcast may submit a transaction
from elsewhere, and then it is the one its line carries. -/
theorem signatures_released {c : Signer.Crypto} {package : Signer.ChainPackage}
    {options : Signer.XprSignerOptions} {rpc : VerifiedRpcOptions} {nearest : Decimal → JsNumber}
    {secrets : Signer.Secrets} (s : DaemonState) (es : List DaemonEvent) (e : DaemonEvent)
    (hd : ForXpr d) (hpackage : package.Faithful) (hpinned : rpc.chainId = options.chainId)
    (hsigner : SignerAnswers c package options rpc secrets (d.machine.history (boot s) (es ++ [e])))
    (hlines : LinesRead nearest (d.machine.history (boot s) (es ++ [e]))) :
    (∀ t requestId signature digest signedTransaction version report,
      (t, .done (.sign (.signed requestId signature digest signedTransaction version report))) ∈
        d.machine.outputs (d.machine.run (boot s) es) e →
      ∃ a result, Released c package options rpc secrets d (d.machine.history (boot s) (es ++ [e])) t
          a result ∧ requestId = a.bound.admitted.request.requestId ∧ signature = result.signature ∧
        digest = result.transactionDigest ∧ version = a.policyVersion) ∧
    (∀ t agent signedTransaction, (t, .effect (.broadcast agent signedTransaction)) ∈
        d.machine.outputs (d.machine.run (boot s) es) e →
      (∃ a result, Released c package options rpc secrets d (d.machine.history (boot s) (es ++ [e])) t
          a result ∧ a.bound.admitted.request.broadcast = some true ∧ agent = a.agent ∧
        signedTransaction = result.signedTransaction) ∨
      ∃ line m request runtime nonces, e = .start (line, m) ∧
        Relayed d line m (d.machine.run (boot s) es).shared request runtime nonces ∧
        agent = runtime.agent ∧ signedTransaction = some request.signedTransaction) := by
  refine ⟨fun t requestId signature digest signedTransaction version report hdone => ?_,
    fun t agent signedTransaction hcall => ?_⟩
  · obtain ⟨a, result, hbehind, hid, hsig, hdigest, hversion⟩ := response_behind hdone
    exact ⟨a, result, hbehind.released hd hpackage hpinned hsigner hlines, hid, hsig, hdigest,
      hversion⟩
  · rcases broadcast_behind hcall with ⟨a, result, hbehind, hfused, hagent, hsigned⟩ | hstandalone
    · exact .inl ⟨a, result, hbehind.released hd hpackage hpinned hsigner hlines, hfused, hagent,
        hsigned⟩
    · exact .inr hstandalone

end SignBoxDaemon

/-! A request to sign the payment, and the answer of the signer. -/

namespace DemoReleased

open SignBoxDaemon Signer

/-- Transfers are allowed. -/
def policy : Policy := ⟨⟨js "XPR", DemoPayment.context.chainId⟩,
  [⟨js "pay", .allow, [(js "action", .lit (js "transfer"))], none, none⟩], none⟩

/-- The agent's runtime with its key and its policy. -/
def agent : AgentRuntime :=
  { Sample.agent policy with chain := DemoPayment.context, key := DemoPayment.key }

/-- The daemon without any of the optional services. -/
def daemon : SignBoxDaemon :=
  { Sample.daemon with deps := { Sample.daemon.deps with decode := decodeXprTransaction } }

/-- Nothing has happened yet. -/
def state : DaemonState := ⟨[agent], .empty, .empty⟩

/-- The request line, with a given token. -/
def doc (token : JsString) : Json := .obj .ordinary [(js "requestId", Sample.text "request-1"),
  (js "agent", Sample.text "bot"), (js "chain", Sample.text "XPR"),
  (js "network", Sample.text "testnet"), (js "chainId", .str DemoPayment.context.chainId),
  (js "requestedAt", Sample.text "2026-07-08T12:00:00Z"),
  (js "expiresAt", Sample.text "2026-07-08T12:01:00Z"),
  (js "nonce", Sample.text "nonce-0123456789"), (js "token", .str token),
  (js "transaction", DemoPayment.source)]

/-- The line is read back as the document. -/
theorem doc_read (token : JsString) :
    Json.parse .finite (doc token).stringify = some (doc token) := by
  have hkeys : [js "requestId", js "agent", js "chain", js "network", js "chainId",
    js "requestedAt", js "expiresAt", js "nonce", js "token", js "transaction"].Nodup := by decide
  have hsource : DemoPayment.source.Sound .finite :=
    ⟨List.nodup_singleton _, ⟨DemoPayment.payment_sound, trivial⟩, trivial⟩
  have hsound : (doc token).Sound .finite := ⟨hkeys, trivial, trivial, trivial, trivial, trivial, trivial,
    trivial, trivial, trivial, hsource, trivial⟩
  have hordinary : (doc token).ordinary = doc token := rfl
  rw [parse_stringify hsound, hordinary]

/-- The request with the right token. -/
def request : Json := doc (js "token-0123456789")

/-- The request arrives. -/
def start : DaemonEvent := .start (Json.parse .finite request.stringify, Sample.moment)

/-- The signer answers. -/
def answer : DaemonEvent := .resume 0 (.signed DemoPayment.result, Sample.moment)

/-- The two events, each with the world it met. -/
def history : DaemonHistory := daemon.machine.history (boot state) ([start] ++ [answer])

/-- They are exactly these two. -/
theorem history_eq : history =
    [(boot state, start), (daemon.machine.run (boot state) [start], answer)] := rfl

/-- The only answer of the signer in it is the signed payment. -/
theorem signed_in_history {w : DaemonWorld} {t : ℕ} {result : SignedTransactionResult} {m : Moment}
    (hx : (w, .resume t (.signed result, m)) ∈ history) :
    w = daemon.machine.run (boot state) [start] ∧ result = DemoPayment.result := by
  rw [history_eq, start, answer] at hx
  simp only [List.mem_cons, Prod.mk.injEq, reduceCtorEq, and_false, List.not_mem_nil, or_false,
    false_or, Event.resume.injEq, Answer.signed.injEq] at hx
  exact ⟨hx.1, hx.2.2.1⟩

/-- The only line in it is the request. -/
theorem started_in_history {w : DaemonWorld} {line : Line} {m : Moment}
    (hx : (w, .start (line, m)) ∈ history) :
    w = boot state ∧ line = Json.parse .finite request.stringify := by
  rw [history_eq, start, answer] at hx
  simp only [List.mem_cons, Prod.mk.injEq, reduceCtorEq, and_false, List.not_mem_nil, or_false,
    Event.start.injEq] at hx
  exact ⟨hx.1, hx.2.1⟩

/-- A request that was allowed is the payment's, where the one line is its text and the agent that it
names has its key. -/
theorem cleared_payment {d : SignBoxDaemon} {h : DaemonHistory} {t : ℕ} {a : Approved}
    {s : DaemonState} {runtime : AgentRuntime} {token : JsString} (hcleared : Cleared d h t a)
    (hreader : d.deps.decode = decodeXprTransaction)
    (hruntime : s.runtime? (js "bot") = some runtime) (hchain : runtime.chain = DemoPayment.context)
    (hkey : runtime.key = DemoPayment.key)
    (hstarted : ∀ w line m, (w, .start (line, m)) ∈ h →
      w = boot s ∧ line = Json.parse .finite (doc token).stringify) :
    a.bound.decoded = DemoPayment.tx ∧ a.bound.admitted.runtime.key = DemoPayment.key := by
  obtain ⟨⟨w, line, m, nonces, hmem, -, hentered⟩, -, hdecode, -⟩ := hcleared.loaded
  obtain ⟨hw, hline⟩ := hstarted w line m hmem
  have hparsed := hentered.parsed
  rw [hline, doc_read, parseSignRequest, Option.bind_some] at hparsed
  obtain ⟨hagent, htransaction⟩ := sign_members hparsed
  have hbot : js "bot" = a.bound.admitted.request.agent := Json.str.inj (Option.some.inj hagent)
  have hsource : DemoPayment.source = a.bound.admitted.request.transaction :=
    Option.some.inj htransaction
  have hregistered : s.runtime? a.bound.admitted.request.agent = some a.bound.admitted.runtime := by
    rw [← hentered.gates.registered, hw]
    rfl
  rw [← hbot, hruntime, Option.some.injEq] at hregistered
  rw [← hregistered, ← hsource, hreader, hchain, DemoPayment.decode_payment, Except.ok.injEq]
    at hdecode
  exact ⟨hdecode.symm, by rw [← hregistered, hkey]⟩

/-- The signer's answers in this history are real ones. -/
theorem signer_answers : SignerAnswers DemoPayment.crypto DemoPayment.package DemoPayment.options
    DemoPayment.rpc DemoPayment.secrets history := by
  intro w t result m a hmem hf
  obtain ⟨rfl, rfl⟩ := signed_in_history hmem
  have hcleared : Cleared daemon (daemon.machine.history (boot state) [start]) t a :=
    frames_behind state [start] _ (mem_of_lookup hf)
  have hsub : daemon.machine.history (boot state) [start] ⊆ history := by
    rw [history, history_snoc]
    exact List.subset_append_left _ _
  obtain ⟨htx, hkey⟩ := cleared_payment hcleared rfl rfl rfl rfl fun _ _ _ hmem =>
    started_in_history (hsub hmem)
  rw [htx, hkey]
  exact ⟨_, DemoPayment.signed rfl⟩

/-- Every line was read from a text. -/
theorem lines_read : LinesRead .finite history :=
  fun _ _ _ hmem => ⟨request.stringify, (started_in_history hmem).2⟩

/-- A response that carries a signature. -/
def isSigned : ℕ × Output Call Response → Bool
  | (_, .done (.sign (.signed ..))) => true
  | _ => false

/-- Such a response has all of its parts. -/
theorem exists_signed {outs : List (ℕ × Output Call Response)} (h : outs.any isSigned = true) :
    ∃ t requestId signature digest signedTransaction version report,
      (t, .done (.sign (.signed requestId signature digest signedTransaction version report))) ∈
        outs := by
  obtain ⟨⟨t, o⟩, hmem, hsigned⟩ := List.any_eq_true.1 h
  cases o with
  | effect call => cases hsigned
  | done response =>
    cases response with
    | sign response =>
      cases response with
      | signed requestId signature digest signedTransaction version report =>
        exact ⟨t, _, _, _, _, _, _, hmem⟩
      | denied requestId denial => cases hsigned
    | _ => cases hsigned

/-- The run does respond with a signature. -/
theorem signed_response : (daemon.machine.outputs (daemon.machine.run (boot state)
    [.start (some request, Sample.moment)]) answer).any isSigned = true := by
  decide +kernel

/-- **The signature of the payment is released**: a run in which there is something for the law to
speak of. -/
theorem signatures_released_payment : ∃ t a result,
    Released DemoPayment.crypto DemoPayment.package DemoPayment.options DemoPayment.rpc
      DemoPayment.secrets daemon history t a result := by
  have hlaw := signatures_released (d := daemon) state [start] answer ⟨rfl, rfl⟩
    DemoPayment.package_faithful rfl signer_answers lines_read
  have hany := signed_response
  rw [request, ← doc_read] at hany
  obtain ⟨t, requestId, signature, digest, signedTransaction, version, report, hmem⟩ :=
    exists_signed hany
  obtain ⟨a, result, hreleased, -⟩ := hlaw.1 t _ _ _ _ _ _ hmem
  exact ⟨t, a, result, hreleased⟩

end DemoReleased

end Signbox
