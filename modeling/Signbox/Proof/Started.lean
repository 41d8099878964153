import Signbox.Proof.Released
import Signbox.Proof.Replay
import Signbox.Proof.Startup

/-!
# From the keystores to the signatures

A daemon that was started from the keystores of a directory signs with the keys that were sealed in
them. In every run of it, a signature that leaves it belongs to an agent of one of the keystores: it
is made with the secret that was sealed with the agent, the account authority was asked about the
public key that was sealed with both, and what is submitted is that of an agent that may submit.

* `Questioned`, `frames_questioned`: a request that waits for the authority has asked for it.
* `runtime?_run`: in a run only the kill switch changes an agent.
* `Attested`: what a signature of a started daemon stands for, and `started_attested`: the law.
-/

namespace Signbox

open Guard Async

namespace SignBoxDaemon

variable {d : SignBoxDaemon} {h h' : DaemonHistory} {t : ℕ} {s : DaemonState} {m : Moment}
  {es : List DaemonEvent} {agent : JsString}

/-! ## The question to the authority -/

/-- Request `t` has asked whether its key is authorized. A started daemon asks before it evaluates
a policy. -/
def Questioned (d : SignBoxDaemon) (h : DaemonHistory) (t : ℕ) (b : Bound) : Prop :=
  ∃ w e, (w, e) ∈ h ∧ (t, .effect (.authorityCheck b.agent b.active.permission
    b.admitted.runtime.key.publicKey)) ∈ d.machine.outputs w e

/-- A segment that waits for the authority asks for it, with the key of the agent. -/
def Asks (seg : Step) : Prop :=
  ∀ b, seg.next = .inl (.authority b) →
    .authorityCheck b.agent b.active.permission b.admitted.runtime.key.publicKey ∈ seg.effects

/-- An ended task waits for nothing. -/
theorem Ended.asks {seg : Step} (hend : Ended s seg) : Asks seg := by
  obtain ⟨r, hr, -⟩ := hend.done
  intro b hb
  rw [hr] at hb
  cases hb

/-- A task that waits for something else than the authority, -/
theorem asks_await {f : DaemonFrame} {call : Call} (hf : ∀ b, f ≠ .authority b) :
    Asks ⟨s, [call], .inl f⟩ := fun b hb => absurd (Sum.inl.inj hb) (hf b)

/-- or for nothing, has nothing to ask. -/
theorem asks_done {seg : Step} {r : Response} (hr : seg.next = .inr r) : Asks seg := by
  intro b hb
  rw [hr] at hb
  cases hb

/-- The decision does not wait for the authority, -/
theorem evaluate_asks {b : Bound} {evidence : Option ProviderEvidenceMap} :
    Asks (d.evaluate b evidence m s) :=
  evaluate_rule (fun _ hend => hend.asks) fun _ _ _ _ => asks_await (by simp)

/-- nor does the step before it. -/
theorem provide_asks {b : Bound} : Asks (d.provide b m s) :=
  provide_rule (fun _ hend => hend.asks) (fun _ _ _ => asks_await (by simp)) fun _ => evaluate_asks

/-- The step for the identity asks about the very key it then waits for, -/
theorem bindIdentity_asks {c : Admitted} {active : ActivePolicy} :
    Asks (d.bindIdentity c active m s) := by
  refine bindIdentity_rule (fun _ hend => hend.asks) (fun b hb _ => ?_) fun _ _ _ => provide_asks
  intro b' hb'
  obtain rfl := DaemonFrame.authority.inj (Sum.inl.inj hb')
  rw [← hb.admitted, ← hb.policy]
  exact List.mem_singleton_self _

/-- and the first step goes through it where there is no cache. -/
theorem start_asks {x : Line × Moment} : Asks (d.start x s) :=
  start_rule (fun _ hend => hend.asks)
    (fun _ _ _ => loadPolicy_rule (fun _ => asks_await (by simp)) fun _ => bindIdentity_asks)
    (fun _ _ _ _ => asks_await (by simp)) fun _ _ _ => asks_await (by simp)

/-- The conclusion waits for nothing. -/
theorem conclude_asks {settled : Option DaemonState} {a : Approved}
    {signed : SignedTransactionResult} {signedTransaction : Option Json}
    {report : Option BroadcastReport} :
    Asks (d.conclude s settled a m signed signedTransaction report) := by
  unfold conclude
  split <;> exact asks_done rfl

/-- So every answered task that waits for the authority has asked for it. -/
theorem resume_asks {f : DaemonFrame} {answer : Answer} {seg : Step}
    (hres : d.resume f (answer, m) s = some seg) : Asks seg := by
  refine resume_rule hres (fun _ hend => hend.asks) ?_ ?_ ?_ ?_ ?_ ?_ ?_
  · exact fun c cached _ _ => endPolicy_rule (fun _ hend => hend.asks) fun _ _ _ => bindIdentity_asks
  · exact fun b authorized _ _ => endAuthority_rule (fun _ hend => hend.asks) fun _ => provide_asks
  · exact fun b queries answers _ _ => evaluate_asks
  · intro a result _ _
    unfold endSign
    split
    · exact asks_await (by simp)
    · exact conclude_asks
  · exact fun a message _ _ => (refuse_ended (.refl _) ..).asks
  · intro a signed outcome _ _
    unfold endBroadcast
    cases outcome <;> exact conclude_asks
  · exact fun a signed message _ _ => (refuse_ended (.refl _) ..).asks

/-- **A request that waits for the authority** has asked about its key: the key of its own runtime,
under the permission of the policy it is decided by. -/
theorem frames_questioned (s : DaemonState) (es : List DaemonEvent) :
    ∀ tf ∈ (d.machine.run (boot s) es).tasks, ∀ b, tf.2 = .authority b →
      Questioned d (d.machine.history (boot s) es) tf.1 b := by
  refine frames_hold (K := fun h t f => ∀ b, f = .authority b → Questioned d h t b) ?_ ?_ (wf_boot s)
    (by simp [boot]) es
  · intro h x t f hK b hb
    obtain ⟨w, e, hmem, hasked⟩ := hK b hb
    exact ⟨w, e, List.mem_append_left _ hmem, hasked⟩
  · rintro h w e t seg f - - hseg hnext b rfl
    refine ⟨w, e, mem_history_snoc, mem_outputs.2 ⟨seg, hseg, effect_mem_outputs.2 ?_⟩⟩
    rcases segment?_cases hseg with ⟨x, -, -, rfl⟩ | ⟨f₀, ⟨answer, m⟩, -, -, hres⟩
    · exact start_asks b hnext
    · exact resume_asks hres b hnext

/-! ## The agents of a run -/

/-- **In a run only the kill switch changes an agent**: all else about it is as it was at the
start. -/
theorem runtime?_run {runtime : AgentRuntime}
    (h : (d.machine.run (boot s) es).shared.runtime? agent = some runtime) :
    ∃ first, s.runtime? agent = some first ∧ runtime = { first with enabled := runtime.enabled } := by
  induction es using List.reverseRecOn generalizing runtime with
  | nil => exact ⟨runtime, h, rfl⟩
  | append_singleton es e ih =>
    rw [run_snoc, runtime?_next] at h
    have hswitched : ∀ {other : JsString} {enabled : Bool},
        ((d.machine.run (boot s) es).shared.setEnabled other enabled).runtime? agent = some runtime →
        ∃ first, s.runtime? agent = some first ∧
          runtime = { first with enabled := runtime.enabled } := by
      intro other enabled hset
      rw [runtime?_setEnabled] at hset
      obtain ⟨before, hbefore, hruntime⟩ := Option.map_eq_some_iff.1 hset
      obtain ⟨first, hfirst, heq⟩ := ih hbefore
      refine ⟨first, hfirst, ?_⟩
      rw [← hruntime]
      split
      · rw [heq]
      · exact heq
    cases e with
    | start x => exact ih h
    | resume t x => exact ih h
    | admin op => cases op <;> exact hswitched h

/-- A request that passed its gates did so at a state of the run. -/
theorem passed_gates {c : Admitted} (hp : Passed d (d.machine.history (boot s) es) t c) :
    ∃ pre, SignGates d (d.machine.run (boot s) pre).shared c.request c.nowMs c.runtime := by
  obtain ⟨w, line, m, nonces, hmem, -, hentered⟩ := hp
  obtain ⟨pre, post, -, hw⟩ := history_split hmem
  obtain rfl : w = d.machine.run (boot s) pre := hw
  exact ⟨pre, hentered.gates⟩

/-- A question in a history is in a longer one. -/
theorem Questioned.mono {b : Bound} (hq : Questioned d h t b) (hsub : h ⊆ h') :
    Questioned d h' t b := by
  obtain ⟨w, e, hmem, hasked⟩ := hq
  exact ⟨w, e, hsub hmem, hasked⟩

/-- A request whose key was found to be authorized has asked for that. -/
theorem authority_questioned {b : Bound} {w : DaemonWorld}
    (hmem : (w, .resume t (.authority true, m)) ∈ d.machine.history (boot s) es)
    (hf : w.tasks.lookup t = some (.authority b)) :
    Questioned d (d.machine.history (boot s) es) t b := by
  obtain ⟨pre, post, hes, hw⟩ := history_split hmem
  obtain rfl : w = d.machine.run (boot s) pre := hw
  have hq : Questioned d (d.machine.history (boot s) pre) t b :=
    frames_questioned s pre _ (mem_of_lookup hf) b rfl
  rw [hes, history_append]
  exact hq.mono (List.subset_append_left _ _)

end SignBoxDaemon

namespace Startup

open Keystore SignBoxDaemon

variable {Key : Type} [DecidableEq Key] {r : Runtime Key} {host : Host r} {c : Signer.Crypto}
  {config : SignBoxConfig} {journal : QuotaJournal} {running : RunningDaemon} {t : ℕ}
  {package : Signer.ChainPackage} {rpc : VerifiedRpcOptions} {nearest : Decimal → JsNumber}

/-- **What a signature of a started daemon stands for.** It is released for an agent whose key was
sealed in a keystore of the directory, on the configured chain; the account authority was asked
about the public key that was sealed, and said yes. -/
structure Attested (host : Host r) (c : Signer.Crypto) (package : Signer.ChainPackage)
    (config : SignBoxConfig) (rpc : VerifiedRpcOptions) (running : RunningDaemon)
    (h : DaemonHistory) (t : ℕ) (a : Approved) (result : SignedTransactionResult)
    (creation : Creation r) : Prop where
  released : Released c package (signerOptions config) rpc running.secrets running.daemon h t a result
  agent : a.agent = creation.metadata.agent
  before : ∃ directory path, host.listing = .ok directory ∧
    path ∈ discoverKeystoreFiles config.keystoreDir directory ∧
    SealedBefore host.attempts path creation
  pinned : creation.metadata.chain.chainId = config.chainId
  secret : running.secrets.lookup creation.metadata.agent = some creation.secret
  key : a.bound.admitted.runtime.key = ⟨creation.metadata.agent, creation.metadata.publicKey,
    chainContextOf config, creation.metadata.agent, creation.metadata.permission⟩
  derives : Still host → Derives c creation
  questioned : ∃ w e, (w, e) ∈ h ∧ (t, .effect (.authorityCheck creation.metadata.agent
    creation.metadata.permission creation.metadata.publicKey)) ∈ running.daemon.machine.outputs w e
  authorized : ∃ w m, (w, .resume t (.authority true, m)) ∈ h ∧
    w.tasks.lookup t = some (.authority a.bound)

omit [DecidableEq Key] in
/-- An agent that is registered and enabled at a state of a run is that of a keystore. -/
theorem started_runtime (hstarted : Started host c config journal running) {es : List DaemonEvent}
    {agent : JsString} {runtime : AgentRuntime}
    (hregistered : (running.daemon.machine.run (boot running.state) es).shared.runtime? agent =
      some runtime) (henabled : runtime.enabled = true) :
    ∃ creation token, (∃ directory path, host.listing = .ok directory ∧
        path ∈ discoverKeystoreFiles config.keystoreDir directory ∧
        SealedBefore host.attempts path creation) ∧
      Enrolled config running.secrets creation (runtimeOf config creation.metadata.agent
        creation.metadata.permission creation.metadata.publicKey token) ∧
      (Still host → Derives c creation) ∧
      runtime = runtimeOf config creation.metadata.agent creation.metadata.permission
        creation.metadata.publicKey token := by
  obtain ⟨first, hfirst, heq⟩ := runtime?_run hregistered
  obtain ⟨directory, hlisting, henrolled⟩ := hstarted.enrolled
  obtain ⟨path, hpath, creation, hbefore, henrolled, hderives⟩ :=
    forall₂_right henrolled (runtime?_mem hfirst)
  obtain ⟨token, rfl⟩ := henrolled.runtime
  rw [henabled] at heq
  exact ⟨creation, token, ⟨directory, path, hlisting, hpath, hbefore⟩, henrolled, hderives, heq⟩

omit [DecidableEq Key] in
/-- An agent that may submit is listed, and broadcasts are enabled. -/
theorem submits_listed (hstarted : Started host c config journal running) {es : List DaemonEvent}
    {agent : JsString} {runtime : AgentRuntime}
    (hregistered : (running.daemon.machine.run (boot running.state) es).shared.runtime? agent =
      some runtime) (henabled : runtime.enabled = true)
    (hsubmit : MaySubmit running.daemon (runtime.capabilities.getD DEFAULT_CAPABILITIES)) :
    config.broadcastCfg.enabled = true ∧ runtime.agent ∈ config.broadcastCfg.agents := by
  obtain ⟨creation, token, -, -, -, rfl⟩ := started_runtime hstarted hregistered henabled
  have hcapability : (config.broadcastCfg.enabled &&
    config.broadcastCfg.agents.contains creation.metadata.agent) = true := hsubmit.capability
  have hlisted : config.broadcastCfg.enabled = true ∧
      creation.metadata.agent ∈ config.broadcastCfg.agents := by simpa using hcapability
  exact hlisted

omit [DecidableEq Key] in
/-- A signature in a run of a started daemon, with all that stands behind it. -/
theorem signed_attested (hstarted : Started host c config journal running)
    (hpackage : package.Faithful) (hpinned : rpc.chainId = config.chainId) {es : List DaemonEvent}
    (hsigner : SignerAnswers c package (signerOptions config) rpc running.secrets
      (running.daemon.machine.history (boot running.state) es))
    (hlines : LinesRead nearest (running.daemon.machine.history (boot running.state) es))
    {a : Approved} {result : SignedTransactionResult}
    (hs : SignedBehind running.daemon (running.daemon.machine.history (boot running.state) es) t a
      result) : ∃ creation, Attested host c package config rpc running
        (running.daemon.machine.history (boot running.state) es) t a result creation := by
  have hd : ForXpr running.daemon := by
    rw [hstarted.daemon]
    exact ⟨rfl, rfl⟩
  have hreleased := hs.released hd hpackage hpinned hsigner hlines
  obtain ⟨pre, hgates⟩ := passed_gates hs.cleared.loaded.passed
  obtain ⟨creation, token, hbefore, henrolled, hderives, hruntime⟩ :=
    started_runtime hstarted hgates.registered hgates.enabled
  have hkey : a.bound.admitted.runtime.key = ⟨creation.metadata.agent, creation.metadata.publicKey,
      chainContextOf config, creation.metadata.agent, creation.metadata.permission⟩ := by
    rw [hruntime]
    rfl
  have hagent : a.agent = creation.metadata.agent := by
    rw [← hreleased.agent, hkey]
  have hwired : running.daemon.deps.authority = true := by
    rw [hstarted.daemon]
    rfl
  obtain ⟨w, m, hmem, hf⟩ := hs.cleared.authority hwired
  have hquestioned := authority_questioned hmem hf
  have hpermission := hreleased.permission
  rw [hkey] at hpermission
  unfold Questioned at hquestioned
  rw [hkey, ← hpermission, show a.bound.agent = creation.metadata.agent from hagent] at hquestioned
  exact ⟨creation, hreleased, hagent, hbefore, henrolled.pinned, henrolled.secret, hkey, hderives,
    hquestioned, w, m, hmem, hf⟩

/-- **The signatures of a started daemon**, in every run of it. Each one that leaves is attested,
back to the keystore file that its key was sealed in. What is submitted is submitted for a listed
agent, with broadcasts enabled, and is an attested transaction or the one that a standalone
broadcast carried. -/
theorem started_attested (hideal : r.Ideal)
    (hstart : startDaemonFromConfig host c config journal = .ok running)
    (hpackage : package.Faithful) (hpinned : rpc.chainId = config.chainId)
    (es : List DaemonEvent) (e : DaemonEvent)
    (hsigner : SignerAnswers c package (signerOptions config) rpc running.secrets
      (running.daemon.machine.history (boot running.state) (es ++ [e])))
    (hlines : LinesRead nearest
      (running.daemon.machine.history (boot running.state) (es ++ [e]))) :
    (∀ t requestId signature digest signedTransaction version report,
      (t, .done (.sign (.signed requestId signature digest signedTransaction version report))) ∈
        running.daemon.machine.outputs (running.daemon.machine.run (boot running.state) es) e →
      ∃ a result creation, Attested host c package config rpc running
          (running.daemon.machine.history (boot running.state) (es ++ [e])) t a result creation ∧
        requestId = a.bound.admitted.request.requestId ∧ signature = result.signature ∧
        digest = result.transactionDigest) ∧
    (∀ t agent signedTransaction, (t, .effect (.broadcast agent signedTransaction)) ∈
        running.daemon.machine.outputs (running.daemon.machine.run (boot running.state) es) e →
      config.broadcastCfg.enabled = true ∧ agent ∈ config.broadcastCfg.agents ∧
      ((∃ a result creation, Attested host c package config rpc running
          (running.daemon.machine.history (boot running.state) (es ++ [e])) t a result creation ∧
        a.bound.admitted.request.broadcast = some true ∧ agent = a.agent ∧
        signedTransaction = result.signedTransaction) ∨
      ∃ line m request runtime nonces, e = .start (line, m) ∧
        Relayed running.daemon line m (running.daemon.machine.run (boot running.state) es).shared
          request runtime nonces ∧
        agent = runtime.agent ∧ signedTransaction = some request.signedTransaction)) := by
  have hstarted := started_enrolled hideal hstart
  refine ⟨fun t requestId signature digest signedTransaction version report hdone => ?_,
    fun t agent signedTransaction hcall => ?_⟩
  -- a signature in a response
  · obtain ⟨a, result, hbehind, hid, hsig, hdigest, -⟩ := response_behind hdone
    obtain ⟨creation, hattested⟩ :=
      signed_attested hstarted hpackage hpinned hsigner hlines hbehind
    exact ⟨a, result, creation, hattested, hid, hsig, hdigest⟩
  -- a transaction that is submitted, with its signature or by a request for it alone
  · rcases broadcast_behind hcall with ⟨a, result, hbehind, hfused, hagent, hsigned⟩ | hstandalone
    · obtain ⟨creation, hattested⟩ :=
        signed_attested hstarted hpackage hpinned hsigner hlines hbehind
      obtain ⟨pre, hgates⟩ := passed_gates hbehind.cleared.loaded.passed
      obtain ⟨henabled, hlisted⟩ := submits_listed hstarted hgates.registered hgates.enabled
        (hgates.submit hfused)
      rw [hagent]
      exact ⟨henabled, hlisted, .inl ⟨a, result, creation, hattested, hfused, rfl, hsigned⟩⟩
    · obtain ⟨line, m, request, runtime, nonces, he, hrelayed, hagent, hsigned⟩ := hstandalone
      obtain ⟨henabled, hlisted⟩ := submits_listed hstarted hrelayed.gates.registered
        hrelayed.gates.enabled hrelayed.submit
      rw [hagent]
      exact ⟨henabled, hlisted,
        .inr ⟨line, m, request, runtime, nonces, he, hrelayed, rfl, hsigned⟩⟩

end Startup

/-! The agent of one of the two keystores signs the payment. -/

namespace Startup.TwoKeystores

open Keystore SignBoxDaemon Signer

/-- The secrets of both keystores. -/
def secrets : Secrets := [(js "bot", DemoPayment.bot.secret), (js "bursar", DemoPayment.bursar.secret)]

/-- The daemon as it runs after the start. -/
def running : RunningDaemon :=
  ⟨daemonOf config, ⟨[bot, bursar].map (runtimeFor host config), .empty, .empty⟩, secrets⟩

/-- The start succeeds with both keystores opened. -/
theorem started : startDaemonFromConfig host DemoPayment.crypto config .empty = .ok running :=
  start_of_creations Recorded.runtime_ideal still (fun _ _ => rfl) granted rfl rfl unlocks_both
    distinct_agents fun _ hx => ⟨pinned hx, derives hx⟩

/-- The token of the agent. -/
def token : JsString := toBase64Url (host.randomBytes (js "bot"))

/-- The request arrives. -/
def start : DaemonEvent :=
  .start (Json.parse .finite (DemoReleased.doc token).stringify, Sample.moment)

/-- The policy of the agent is confirmed, and then its key. -/
def confirmed : List DaemonEvent :=
  [.resume 0 (.policy (some ⟨DemoReleased.policy, 1, true, js "owner", js "active", false, 0⟩),
      Sample.moment),
    .resume 0 (.authority true, Sample.moment)]

/-- The signer answers. -/
def answer : DaemonEvent := .resume 0 (.signed DemoPayment.result, Sample.moment)

/-- The run up to the signature. -/
def history : DaemonHistory :=
  running.daemon.machine.history (boot running.state) ((start :: confirmed) ++ [answer])

/-- The only answer of the signer in it is the signed payment. -/
theorem signed_in_history {w : DaemonWorld} {t : ℕ} {result : SignedTransactionResult} {m : Moment}
    (hx : (w, .resume t (.signed result, m)) ∈ history) :
    w = running.daemon.machine.run (boot running.state) (start :: confirmed) ∧
      result = DemoPayment.result := by
  have hhistory : history = running.daemon.machine.history (boot running.state)
      (start :: confirmed) ++
        [(running.daemon.machine.run (boot running.state) (start :: confirmed), answer)] :=
    history_snoc
  rw [hhistory, start, confirmed, answer] at hx
  simp only [Machine.history, List.cons_append, List.nil_append, List.mem_cons, Prod.mk.injEq,
    reduceCtorEq, and_false, List.not_mem_nil, or_false, false_or, Event.resume.injEq,
    Answer.signed.injEq, false_and] at hx
  exact ⟨hx.1, hx.2.2.1⟩

/-- The only line in it is the request. -/
theorem started_in_history {w : DaemonWorld} {line : Line} {m : Moment}
    (hx : (w, .start (line, m)) ∈ history) :
    w = boot running.state ∧ line = Json.parse .finite (DemoReleased.doc token).stringify := by
  rw [history, start, confirmed, answer] at hx
  simp only [Machine.history, List.cons_append, List.nil_append, List.mem_cons, Prod.mk.injEq,
    reduceCtorEq, and_false, List.not_mem_nil, or_false, Event.start.injEq] at hx
  obtain ⟨hw, hline, -⟩ := hx
  exact ⟨hw, hline⟩

/-- The request names the first of the two agents. -/
theorem registered : running.state.runtime? (js "bot") = some (runtimeFor host config bot) := rfl

/-- The signer's answers in this history are real ones. -/
theorem signer_answers : SignerAnswers DemoPayment.crypto DemoPayment.package (signerOptions config)
    DemoPayment.rpc running.secrets history := by
  intro w t result m a hmem hf
  obtain ⟨hw, hresult⟩ := signed_in_history hmem
  rw [hw] at hf
  have hcleared : Cleared running.daemon
      (running.daemon.machine.history (boot running.state) (start :: confirmed)) t a :=
    frames_behind running.state (start :: confirmed) _ (mem_of_lookup hf)
  have hsub : running.daemon.machine.history (boot running.state) (start :: confirmed) ⊆ history := by
    rw [history, history_snoc]
    exact List.subset_append_left _ _
  obtain ⟨htx, hkey⟩ := DemoReleased.cleared_payment hcleared rfl registered rfl rfl
    fun _ _ _ hmem => started_in_history (hsub hmem)
  rw [htx, hkey, hresult]
  exact ⟨_, DemoPayment.signed rfl⟩

/-- Every line was read from a text. -/
theorem lines_read : LinesRead .finite history :=
  fun _ _ _ hmem => ⟨_, (started_in_history hmem).2⟩

/-- The run does respond with a signature. -/
theorem signed_response : (running.daemon.machine.outputs
    (running.daemon.machine.run (boot running.state)
      (.start (some (DemoReleased.doc token), Sample.moment) :: confirmed)) answer).any
        DemoReleased.isSigned = true := by
  decide +kernel

/-- **The signature of the payment is attested**, by a daemon that was started with two
keystores. -/
theorem started_attested_two : ∃ t a result creation, Attested host DemoPayment.crypto
    DemoPayment.package config DemoPayment.rpc running history t a result creation := by
  have hlaw := started_attested Recorded.runtime_ideal started DemoPayment.package_faithful rfl
    (start :: confirmed) answer signer_answers lines_read
  have hany := signed_response
  rw [← DemoReleased.doc_read] at hany
  obtain ⟨t, requestId, signature, digest, signedTransaction, version, report, hmem⟩ :=
    DemoReleased.exists_signed hany
  obtain ⟨a, result, creation, hattested, -⟩ := hlaw.1 t _ _ _ _ _ _ hmem
  exact ⟨t, a, result, creation, hattested⟩

end Startup.TwoKeystores

end Signbox
