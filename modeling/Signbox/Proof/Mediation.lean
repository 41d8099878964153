import Signbox.Proof.Pipeline

/-!
# Complete mediation

Every call of the signer stands at the end of one request that passed every gate, and every
call of the broadcaster at the end of one that passed the gates of its kind. The gates were
passed in the same request, each in the state that held at its moment; in between, any other
requests ran, and everything the daemon depends on answered as it liked.

* `Passed`, `PolicyFrom`, `AuthorityFrom`, `EvidenceFrom`: the answers of one request's own
  history. `Cleared` puts them together, for a request that was allowed.
* `frames_cleared`: a suspended request has behind it what its frame says.
* `complete_mediation`: the law, for every run of the daemon.
-/

namespace Signbox

open Guard Async

namespace SignBoxDaemon

variable {d : SignBoxDaemon} {h h' : DaemonHistory} {t : ℕ} {s s' : DaemonState} {m : Moment}

/-! ## What one request has behind it -/

/-- Request `t` started with the gates before its first await, all passed: its line was parsed, and
the nonce registered in that step. -/
def Passed (d : SignBoxDaemon) (h : DaemonHistory) (t : ℕ) (c : Admitted) : Prop :=
  ∃ w line m nonces, (w, .start (line, m)) ∈ h ∧ w.started = t ∧
    Entered d line m w.shared c nonces

/-- Its policy is the one the cache returned to it, enabled; without a cache, the agent's. It is
never that of another request. -/
structure PolicyFrom (d : SignBoxDaemon) (h : DaemonHistory) (t : ℕ) (c : Admitted)
    (active : ActivePolicy) : Prop where
  registered : d.deps.policyCache = false →
    active = ⟨c.runtime.policy, c.runtime.policyVersion, c.runtime.permission⟩
  cached : d.deps.policyCache = true → ∃ w m p, (w, .resume t (.policy (some p), m)) ∈ h ∧
    w.tasks.lookup t = some (.policy c) ∧ p.enabled = true ∧
      active = ⟨p.policy, p.version, p.permission⟩

/-- The transaction of the request is decoded, under its policy, and bound to the agent. The
policy's permission is the one it must carry. -/
structure Loaded (d : SignBoxDaemon) (h : DaemonHistory) (t : ℕ) (b : Bound) : Prop where
  passed : Passed d h t b.admitted
  policy : PolicyFrom d h t b.admitted b.active
  decoded : d.deps.decode b.admitted.request.transaction b.admitted.runtime.chain = .ok b.decoded
  identity : ∀ action ∈ b.decoded.actions,
    action.authorization = [⟨b.agent, b.active.permission⟩]

/-- The authority check, where it is wired, answered this request with yes. An answer to another
request does not count. -/
def AuthorityFrom (d : SignBoxDaemon) (h : DaemonHistory) (t : ℕ) (b : Bound) : Prop :=
  d.deps.authority = true → ∃ w m, (w, .resume t (.authority true, m)) ∈ h ∧
    w.tasks.lookup t = some (.authority b)

/-- The evidence of the request: none when the policy asks for none, else what the relay
answered to this request's queries. -/
def EvidenceFrom (d : SignBoxDaemon) (h : DaemonHistory) (t : ℕ) (b : Bound)
    (evidence : Option ProviderEvidenceMap) : Prop :=
  ∃ queries,
    collectProviderQueries b.decoded b.active.policy (d.evaluationContext b none) = .ok queries ∧
    (queries = [] ∧ evidence = none ∨ ∃ w m answers,
      (w, .resume t (.evidence answers, m)) ∈ h ∧
      w.tasks.lookup t = some (.providers b queries) ∧
      evidence = some (d.resolveProviders queries answers))

/-- **Every gate of a sign request, up to the policy's decision.** Each field is what one gate of
the pipeline established, stated over the history of the run. -/
structure Cleared (d : SignBoxDaemon) (h : DaemonHistory) (t : ℕ) (a : Approved) : Prop where
  loaded : Loaded d h t a.bound
  authority : AuthorityFrom d h t a.bound
  allowed : ∃ evidence, EvidenceFrom d h t a.bound evidence ∧
    evaluatePolicy a.bound.decoded a.bound.active.policy
      (d.evaluationContext a.bound evidence) = ⟨.allow a.ruleIds a.policyVersion, a.quotaDemands⟩

/-- The demands of the request are held by the journal: the step before the signer is called
has inserted a reserved row for each of them. -/
def QuotaHeld (d : SignBoxDaemon) (before after : QuotaJournal) (a : Approved) : Prop :=
  a.quotaDemands ≠ [] → d.deps.quotas = true ∧ ∃ r, a.reservationId = some r ∧
    after.rows = QuotaJournal.prune before.rows a.bound.admitted.nowMs ++
      a.quotaDemands.map (QuotaJournal.eventOf r a.agent a.bound.admitted.nowMs)

/-- What a suspended request has behind it: each frame records the gates of the frames before
it. -/
def Behind (d : SignBoxDaemon) (h : DaemonHistory) (t : ℕ) : DaemonFrame → Prop
  | .policy c => Passed d h t c ∧ d.deps.policyCache = true
  | .authority b => Loaded d h t b
  | .providers b queries => Loaded d h t b ∧ AuthorityFrom d h t b ∧
      collectProviderQueries b.decoded b.active.policy (d.evaluationContext b none) = .ok queries
  | .sign a => Cleared d h t a
  | _ => True

/-! ## Histories only grow -/

/-- What a history shows, a longer one shows too: that the gates were passed, -/
theorem Passed.mono {c : Admitted} (hp : Passed d h t c) (hsub : h ⊆ h') : Passed d h' t c := by
  obtain ⟨w, line, m, nonces, hmem, hin⟩ := hp
  exact ⟨w, line, m, nonces, hsub hmem, hin⟩

/-- where the policy came from, -/
theorem PolicyFrom.mono {c : Admitted} {active : ActivePolicy} (hp : PolicyFrom d h t c active)
    (hsub : h ⊆ h') : PolicyFrom d h' t c active where
  registered := hp.registered
  cached := by
    intro hcache
    obtain ⟨w, m, p, hmem, hrest⟩ := hp.cached hcache
    exact ⟨w, m, p, hsub hmem, hrest⟩

/-- that it was bound to the identity, -/
theorem Loaded.mono {b : Bound} (hl : Loaded d h t b) (hsub : h ⊆ h') : Loaded d h' t b :=
  ⟨hl.passed.mono hsub, hl.policy.mono hsub, hl.decoded, hl.identity⟩

/-- where the authority was checked, -/
theorem AuthorityFrom.mono {b : Bound} (ha : AuthorityFrom d h t b) (hsub : h ⊆ h') :
    AuthorityFrom d h' t b := by
  intro hwired
  obtain ⟨w, m, hmem, hf⟩ := ha hwired
  exact ⟨w, m, hsub hmem, hf⟩

/-- where the evidence came from, -/
theorem EvidenceFrom.mono {b : Bound} {evidence : Option ProviderEvidenceMap}
    (he : EvidenceFrom d h t b evidence) (hsub : h ⊆ h') : EvidenceFrom d h' t b evidence := by
  obtain ⟨queries, hq, hnone | ⟨w, m, answers, hmem, hrest⟩⟩ := he
  · exact ⟨queries, hq, Or.inl hnone⟩
  · exact ⟨queries, hq, Or.inr ⟨w, m, answers, hsub hmem, hrest⟩⟩

/-- that the decision allowed, -/
theorem Cleared.mono {a : Approved} (hc : Cleared d h t a) (hsub : h ⊆ h') :
    Cleared d h' t a := by
  obtain ⟨hl, ha, evidence, he, heval⟩ := hc
  exact ⟨hl.mono hsub, ha.mono hsub, evidence, he.mono hsub, heval⟩

/-- and what stands behind a suspended task. -/
theorem Behind.mono {f : DaemonFrame} (hf : Behind d h t f) (hsub : h ⊆ h') :
    Behind d h' t f := by
  cases f with
  | policy c => exact ⟨hf.1.mono hsub, hf.2⟩
  | authority b => exact Loaded.mono hf hsub
  | providers b queries => exact ⟨hf.1.mono hsub, hf.2.1.mono hsub, hf.2.2⟩
  | sign a => exact Cleared.mono hf hsub
  | broadcast a signed => trivial
  | standalone request => trivial
  | relay request method => trivial

/-! ## Segments -/

/-- What a segment of request `t` may do: call the signer only with every gate behind it and the
quota held, call the broadcaster only as `B` says, and be suspended only with behind it what
the frame says. -/
structure Mediated (d : SignBoxDaemon) (h : DaemonHistory) (t : ℕ) (before : QuotaJournal)
    (B : JsString → Option Json → Prop) (seg : Step) : Prop where
  frame : ∀ f, seg.next = .inl f → Behind d h t f
  sign : ∀ agent tx key, .sign agent tx key ∈ seg.effects → ∃ a, agent = a.agent ∧
    tx = a.bound.decoded ∧ key = a.bound.admitted.runtime.key ∧ Cleared d h t a ∧
      QuotaHeld d before seg.state.journal a
  broadcast : ∀ agent signedTransaction, .broadcast agent signedTransaction ∈ seg.effects →
    B agent signedTransaction

variable {before : QuotaJournal} {B : JsString → Option Json → Prop}

/-- An ended task calls nothing but the audit, so there is nothing to show for it. -/
theorem Ended.mediated {seg : Step} (hend : Ended s seg) : Mediated d h t before B seg where
  frame := by
    intro f hf
    obtain ⟨r, hr, -⟩ := hend.done
    rw [hr] at hf
    cases hf
  sign := by
    intro agent tx key hcall
    obtain ⟨entry, hentry⟩ := hend.calls _ hcall
    cases hentry
  broadcast := by
    intro agent signedTransaction hcall
    obtain ⟨entry, hentry⟩ := hend.calls _ hcall
    cases hentry

/-- A segment whose one call is neither on the key nor on the network. -/
theorem mediated_await {call : Call} {f : DaemonFrame} (hf : Behind d h t f)
    (hsign : ∀ agent tx key, .sign agent tx key ≠ call)
    (hbroadcast : ∀ agent signedTransaction, .broadcast agent signedTransaction ≠ call) :
    Mediated d h t before B ⟨s, [call], .inl f⟩ where
  frame := by
    rintro f' ⟨⟩
    exact hf
  sign := fun agent tx key hcall => absurd (List.mem_singleton.1 hcall) (hsign agent tx key)
  broadcast := fun agent signedTransaction hcall =>
    absurd (List.mem_singleton.1 hcall) (hbroadcast agent signedTransaction)

/-- A reservation is held in the journal it leaves. -/
theorem Reserved.held {a : Approved} (hres : Reserved d s a s') :
    QuotaHeld d s.journal s'.journal a := by
  intro hne
  cases hres with
  | unlimited hnil _ => exact absurd hnil hne
  | limited journal r _ hsome hquotas hreserve =>
    exact ⟨hquotas, r, hsome, (reserve_ok hreserve).2.2⟩

/-- The decision asks for a signature only when it allows, with its demands reserved. -/
theorem evaluate_mediated {b : Bound} {evidence : Option ProviderEvidenceMap}
    (hl : Loaded d h t b) (ha : AuthorityFrom d h t b) (he : EvidenceFrom d h t b evidence) :
    Mediated d h t s.journal B (d.evaluate b evidence m s) := by
  refine evaluate_rule (fun _ hend => hend.mediated) fun a s' hallow hres => ?_
  obtain ⟨rfl, heval⟩ := hallow
  have hcleared : Cleared d h t a := ⟨hl, ha, evidence, he, heval⟩
  refine ⟨?_, ?_, fun _ _ hcall => by simp [callSigner] at hcall⟩
  · rintro f ⟨⟩
    exact hcleared
  · intro agent tx key hcall
    simp only [callSigner, List.mem_singleton, Call.sign.injEq] at hcall
    obtain ⟨rfl, rfl, rfl⟩ := hcall
    exact ⟨a, rfl, rfl, rfl, hcleared, hres.held⟩

/-- The step for the providers asks for evidence, or goes on to the decision without any. -/
theorem provide_mediated {b : Bound} (hl : Loaded d h t b) (ha : AuthorityFrom d h t b) :
    Mediated d h t s.journal B (d.provide b m s) := by
  refine provide_rule (fun _ hend => hend.mediated) (fun queries _ hq => ?_) fun hq => ?_
  · exact mediated_await ⟨hl, ha, hq⟩ (by simp) (by simp)
  · exact evaluate_mediated hl ha ⟨[], hq, Or.inl ⟨rfl, rfl⟩⟩

/-- The local check accepts actions authorized by the agent with its permission alone. -/
theorem checkLocalIdentity_iff {tx : DecodedTransaction} {agent permission : JsString} :
    checkLocalIdentity tx agent permission = true ↔
      ∀ action ∈ tx.actions, action.authorization = [⟨agent, permission⟩] := by
  unfold checkLocalIdentity
  rw [List.all_eq_true]
  refine forall_congr' fun action => forall_congr' fun _ => ?_
  rcases action.authorization with _ | ⟨⟨actor, perm⟩, _ | ⟨auth, rest⟩⟩ <;> simp

/-- The step for the identity asks for the authority, or goes on where none is to be asked. -/
theorem bindIdentity_mediated {c : Admitted} {active : ActivePolicy} (hp : Passed d h t c)
    (hpol : PolicyFrom d h t c active) :
    Mediated d h t s.journal B (d.bindIdentity c active m s) := by
  have hloaded : ∀ b, Identified d c active b → Loaded d h t b := by
    rintro b ⟨rfl, rfl, hdecode, hid⟩
    exact ⟨hp, hpol, hdecode, checkLocalIdentity_iff.1 hid⟩
  refine bindIdentity_rule (fun _ hend => hend.mediated) (fun b hb _ => ?_) fun b hb hoff => ?_
  · exact mediated_await (hloaded b hb) (by simp) (by simp)
  · refine provide_mediated (hloaded b hb) fun hon => ?_
    rw [hoff] at hon
    cases hon

/-- The first segment of a request. -/
theorem start_mediated {w : DaemonWorld} {line : Line}
    (hmem : (w, .start (line, m)) ∈ h) :
    Mediated d h w.started w.shared.journal
      (fun agent signedTransaction => ∃ request runtime nonces,
        Relayed d line m w.shared request runtime nonces ∧ agent = runtime.agent ∧
          signedTransaction = some request.signedTransaction)
      (d.start (line, m) w.shared) := by
  refine start_rule (fun _ hend => hend.mediated) (fun c nonces hin => ?_)
    (fun request runtime nonces hin => ?_) fun _ _ _ => mediated_await trivial (by simp) (by simp)
  · have hp : Passed d h w.started c := ⟨w, line, m, nonces, hmem, rfl, hin⟩
    refine loadPolicy_rule (fun hcache => mediated_await ⟨hp, hcache⟩ (by simp) (by simp))
      fun hoff => ?_
    refine bindIdentity_mediated (s := { w.shared with nonces := nonces }) hp
      ⟨fun _ => rfl, fun hon => ?_⟩
    rw [hoff] at hon
    cases hon
  · refine ⟨?_, fun _ _ _ hcall => by simp at hcall, fun agent signedTransaction hcall => ?_⟩
    · rintro f ⟨⟩
      trivial
    · simp only [List.mem_singleton, Call.broadcast.injEq] at hcall
      exact ⟨request, runtime, nonces, hin, hcall.1, hcall.2⟩

/-- The conclusion calls nothing but the audit. -/
theorem conclude_mediated {settled : Option DaemonState} {a : Approved}
    {signed : SignedTransactionResult} {signedTransaction : Option Json}
    {report : Option BroadcastReport} :
    Mediated d h t before B (d.conclude s settled a m signed signedTransaction report) := by
  unfold conclude
  split
  · exact (refuse_ended (.refl s) ..).mediated
  · refine ⟨fun f hf => by simp [respond] at hf, fun _ _ _ hcall => ?_, fun _ _ hcall => ?_⟩ <;>
      obtain ⟨entry, hentry⟩ := respond_calls _ _ _ hcall <;> cases hentry

/-- A later segment of a request. -/
theorem resume_mediated {w : DaemonWorld} {f : DaemonFrame} {answer : Answer} {seg : Step}
    (hsub : (w, .resume t (answer, m)) ∈ h) (hf : w.tasks.lookup t = some f)
    (hbehind : Behind d h t f) (hseg : d.resume f (answer, m) w.shared = some seg) :
    Mediated d h t w.shared.journal
      (fun agent signedTransaction => ∃ a result, f = .sign a ∧ answer = .signed result ∧
        a.bound.admitted.request.broadcast = some true ∧ d.deps.broadcaster = true ∧
          agent = a.agent ∧ signedTransaction = result.signedTransaction) seg := by
  refine resume_rule hseg (fun _ hend => hend.mediated) ?_ ?_ ?_ ?_ ?_ ?_ ?_
  · rintro c cached rfl rfl
    refine endPolicy_rule (fun _ hend => hend.mediated) fun p hp hen => ?_
    subst hp
    refine bindIdentity_mediated hbehind.1 ⟨fun hoff => ?_, fun _ => ?_⟩
    · rw [hbehind.2] at hoff
      cases hoff
    · exact ⟨w, m, p, hsub, hf, hen, rfl⟩
  · rintro b authorized rfl rfl
    refine endAuthority_rule (fun _ hend => hend.mediated) fun hyes => ?_
    subst hyes
    exact provide_mediated hbehind fun _ => ⟨w, m, hsub, hf⟩
  · rintro b queries answers rfl rfl
    obtain ⟨hl, ha, hq⟩ := hbehind
    exact evaluate_mediated hl ha ⟨queries, hq, Or.inr ⟨w, m, answers, hsub, hf, rfl⟩⟩
  · rintro a result rfl rfl
    unfold endSign
    split
    case isTrue hfused =>
      refine ⟨?_, fun _ _ _ hcall => by simp at hcall, fun agent signedTransaction hcall => ?_⟩
      · rintro f ⟨⟩
        trivial
      · simp only [List.mem_singleton, Call.broadcast.injEq] at hcall
        exact ⟨a, result, rfl, rfl, hfused.1, hfused.2, hcall.1, hcall.2⟩
    case isFalse => exact conclude_mediated
  · rintro a message rfl rfl
    exact (refuse_ended (.refl _) ..).mediated
  · rintro a signed outcome rfl rfl
    unfold endBroadcast
    split <;> exact conclude_mediated
  · rintro a signed message rfl rfl
    exact (refuse_ended (.refl _) ..).mediated

/-! ## Runs -/

/-- The event just taken is in the history. -/
theorem mem_history_snoc {x : DaemonWorld × DaemonEvent} : x ∈ h ++ [x] := by simp

/-- **What a suspended request has behind it**, in every run. It is an instance of the frame rule:
each segment establishes it for the frame it leaves, and longer histories keep it. -/
theorem frames_behind (s : DaemonState) (es : List DaemonEvent) :
    ∀ tf ∈ (d.machine.run (boot s) es).tasks,
      Behind d (d.machine.history (boot s) es) tf.1 tf.2 := by
  refine frames_hold (fun h x t f hf => hf.mono (List.subset_append_left _ _)) ?_ (wf_boot s)
    (by simp [boot]) es
  intro h w e t seg f hw hK hseg hnext
  rcases segment?_cases hseg with ⟨⟨line, m⟩, rfl, rfl, rfl⟩ | ⟨f₀, ⟨answer, m⟩, rfl, hf, hres⟩
  · exact (start_mediated mem_history_snoc).frame f hnext
  · have hbehind : Behind d (h ++ [(w, .resume t (answer, m))]) t f₀ :=
      (hK _ (mem_of_lookup hf)).mono (List.subset_append_left _ _)
    exact (resume_mediated mem_history_snoc hf hbehind hres).frame f hnext

/-! ## At most one call of a kind -/

/-- How far a request has come when it is suspended. A step only goes to a higher rank, so each
call is made once. -/
def rank : DaemonFrame → ℕ
  | .policy _ => 1
  | .authority _ => 2
  | .providers _ _ => 3
  | .sign _ => 4
  | .broadcast _ _ => 5
  | .standalone _ => 5
  | .relay _ _ => 6

/-- The step at which a call is awaited; audit entries are not. It is the rank of the frame that
awaits it. -/
def awaitedAt : Call → ℕ
  | .policyGet .. => 1
  | .authorityCheck .. => 2
  | .resolve _ => 3
  | .sign .. => 4
  | .broadcast .. => 5
  | .relay .. => 6
  | .audit _ => 0

/-- A segment that runs from rank `k`: it ends, with nothing called but the audit log, or it
makes one call and awaits it further on. -/
inductive Shape (k : ℕ) : Step → Prop
  | ended (seg : Step) (r : Response) (hcalls : ∀ call ∈ seg.effects, ∃ entry, call = .audit entry)
    (hdone : seg.next = .inr r) : Shape k seg
  | asks (s : DaemonState) (call : Call) (f : DaemonFrame) (hcall : awaitedAt call = rank f)
    (hlt : k < rank f) : Shape k ⟨s, [call], .inl f⟩

variable {k : ℕ}

/-- An ended task calls nothing but the audit. -/
theorem Ended.shape {seg : Step} (hend : Ended s seg) : Shape k seg := by
  obtain ⟨r, hr, -⟩ := hend.done
  exact .ended seg r hend.calls hr

/-- A step makes at most one call, of a rank above its own, and is suspended at that rank: the
decision, -/
theorem evaluate_shape {b : Bound} {evidence : Option ProviderEvidenceMap} (hk : k < 4) :
    Shape k (d.evaluate b evidence m s) :=
  evaluate_rule (fun _ hend => hend.shape) fun a s' _ _ => .asks s' _ (.sign a) rfl hk

/-- the step for the providers, -/
theorem provide_shape {b : Bound} (hk : k < 3) : Shape k (d.provide b m s) :=
  provide_rule (fun _ hend => hend.shape) (fun queries _ _ => .asks s _ (.providers b queries) rfl hk)
    fun _ => evaluate_shape (by omega)

/-- the step for the identity, -/
theorem bindIdentity_shape {c : Admitted} {active : ActivePolicy} (hk : k < 2) :
    Shape k (d.bindIdentity c active m s) :=
  bindIdentity_rule (fun _ hend => hend.shape) (fun b _ _ => .asks s _ (.authority b) rfl hk)
    fun _ _ _ => provide_shape (by omega)

/-- the first one, -/
theorem start_shape {x : Line × Moment} : Shape 0 (d.start x s) := by
  obtain ⟨line, m⟩ := x
  refine start_rule (fun _ hend => hend.shape) (fun c nonces _ => ?_)
    (fun request _ nonces _ => .asks _ _ (.standalone request) rfl (by simp [rank]))
    fun request method _ => .asks s _ (.relay request method) rfl (by simp [rank])
  exact loadPolicy_rule (fun _ => .asks _ _ (.policy c) rfl Nat.one_pos) fun _ =>
    bindIdentity_shape (by omega)

/-- the last one, -/
theorem conclude_shape {settled : Option DaemonState} {a : Approved}
    {signed : SignedTransactionResult} {signedTransaction : Option Json}
    {report : Option BroadcastReport} :
    Shape k (d.conclude s settled a m signed signedTransaction report) := by
  unfold conclude
  split
  · exact (refuse_ended (.refl s) ..).shape
  · exact .ended _ _ (respond_calls _ _) rfl

/-- and so every answered task. -/
theorem resume_shape {f : DaemonFrame} {x : Answer × Moment} {seg : Step}
    (hseg : d.resume f x s = some seg) : Shape (rank f) seg := by
  obtain ⟨answer, m⟩ := x
  refine resume_rule hseg (fun _ hend => hend.shape) ?_ ?_ ?_ ?_ ?_ ?_ ?_
  · rintro c cached rfl rfl
    exact endPolicy_rule (fun _ hend => hend.shape) fun _ _ _ => bindIdentity_shape (by simp [rank])
  · rintro b authorized rfl rfl
    exact endAuthority_rule (fun _ hend => hend.shape) fun _ => provide_shape (by simp [rank])
  · rintro b queries answers rfl rfl
    exact evaluate_shape (by simp [rank])
  · rintro a result rfl rfl
    unfold endSign
    split
    · exact .asks s _ (.broadcast a result) rfl (by simp [rank])
    · exact conclude_shape
  · rintro a message rfl rfl
    exact (refuse_ended (.refl _) ..).shape
  · rintro a signed outcome rfl rfl
    unfold endBroadcast
    split <;> exact conclude_shape
  · rintro a signed message rfl rfl
    exact (refuse_ended (.refl _) ..).shape

/-- The outputs that are calls awaited at rank `n`. -/
def callAt (n : ℕ) : Output Call Response → Bool
  | .effect call => awaitedAt call = n
  | .done _ => false

/-- So a call of one rank is made at most once, and the ranks before it are over. -/
theorem Shape.count {seg : Step} {n : ℕ} (hn : 0 < n) (hseg : Shape k seg) :
    seg.outputs.countP (callAt n) ≤ 1 ∧
      (seg.outputs.countP (callAt n) ≠ 0 → k < n ∧ ∀ f, seg.next = .inl f → rank f = n) := by
  cases hseg with
  | ended _ r hcalls hdone =>
    have hzero : seg.outputs.countP (callAt n) = 0 := by
      rw [List.countP_eq_zero]
      rintro (call | r') ho
      · obtain ⟨entry, rfl⟩ := hcalls call (effect_mem_outputs.1 ho)
        simp [callAt, awaitedAt, hn.ne]
      · simp [callAt]
    exact ⟨by omega, fun hne => absurd hzero hne⟩
  | asks s call f hcall hlt =>
    have hcount : Segment.outputs (⟨s, [call], .inl f⟩ : Step) = [.effect call] := rfl
    rw [hcount]
    by_cases hat : awaitedAt call = n
    · refine ⟨by simp [callAt, hat], fun _ => ⟨by omega, ?_⟩⟩
      rintro f' ⟨⟩
      omega
    · simp [callAt, hat]

/-- A request makes at most one call that it awaits at one rank. -/
theorem calls_atMostOnce {n : ℕ} (hn : 0 < n) (s : DaemonState) (es : List DaemonEvent) (t : ℕ) :
    countOf (callAt n) t (d.machine.emitted (boot s) es) ≤ 1 := by
  have honce : ∀ {k seg}, Shape k seg → seg.Once (callAt n) fun f => n ≤ rank f := by
    intro k seg hseg
    obtain ⟨hle, hrank⟩ := hseg.count hn
    exact ⟨hle, fun hone f hf => ((hrank (by omega)).2 f hf).ge⟩
  have hsilent : ∀ {k seg}, n ≤ k → Shape k seg →
      seg.Silent (callAt n) fun f => n ≤ rank f := by
    intro k seg hk hseg
    refine ⟨?_, fun f hf => ?_⟩
    · by_contra hne
      have := ((hseg.count hn).2 hne).1
      omega
    · cases hseg with
      | ended _ r _ hdone =>
        rw [hdone] at hf
        cases hf
      | asks s call f' hcall hlt =>
        cases hf
        omega
  exact emitted_atMostOnce (fun x s => honce start_shape) (fun f x s seg hseg => honce (resume_shape hseg))
    (fun f x s seg hf hseg => hsilent hf (resume_shape hseg)) s es t

/-- A request for a signature. -/
def isSign : Output Call Response → Bool
  | .effect (.sign ..) => true
  | _ => false

/-- A request to broadcast. -/
def isBroadcast : Output Call Response → Bool
  | .effect (.broadcast ..) => true
  | _ => false

/-- Asking for a signature is the call of rank four. -/
theorem callAt_sign : callAt 4 = isSign := by
  funext o
  rcases o with (_ | _ | _ | _ | _ | _ | _) | _ <;> rfl

/-- Broadcasting is the call of rank five. -/
theorem callAt_broadcast : callAt 5 = isBroadcast := by
  funext o
  rcases o with (_ | _ | _ | _ | _ | _ | _) | _ <;> rfl

end SignBoxDaemon

open SignBoxDaemon

/-- **Complete mediation.** Whatever the daemon's state, whichever requests arrive in whichever
order, and however its dependencies answer: the signer is called at most once for a request,
on the decoded transaction and the key of the agent, with every gate passed in that request
and its quota demands held; and the broadcaster is called at most once for a request, either
with what the signer answered to it and the capability to submit, or by a standalone request
that passed its own gates. -/
theorem complete_mediation (d : SignBoxDaemon) (s : DaemonState) (es : List DaemonEvent)
    (e : DaemonEvent) (t : ℕ) :
    (∀ agent tx key, (t, .effect (.sign agent tx key)) ∈
        d.machine.outputs (d.machine.run (boot s) es) e →
      ∃ a, agent = a.agent ∧ tx = a.bound.decoded ∧ key = a.bound.admitted.runtime.key ∧
        Cleared d (d.machine.history (boot s) (es ++ [e])) t a ∧
        QuotaHeld d (d.machine.run (boot s) es).shared.journal
          (d.machine.run (boot s) (es ++ [e])).shared.journal a) ∧
    (∀ agent signedTransaction, (t, .effect (.broadcast agent signedTransaction)) ∈
        d.machine.outputs (d.machine.run (boot s) es) e →
      (∃ a result m, e = .resume t (.signed result, m) ∧
        (d.machine.run (boot s) es).tasks.lookup t = some (.sign a) ∧
        Cleared d (d.machine.history (boot s) es) t a ∧
        a.bound.admitted.request.broadcast = some true ∧
        MaySubmit d (a.bound.admitted.runtime.capabilities.getD DEFAULT_CAPABILITIES) ∧
        agent = a.agent ∧ signedTransaction = result.signedTransaction) ∨
      (∃ line m request runtime nonces, e = .start (line, m) ∧
        Relayed d line m (d.machine.run (boot s) es).shared request runtime nonces ∧
        agent = runtime.agent ∧ signedTransaction = some request.signedTransaction)) ∧
    countOf isSign t (d.machine.emitted (boot s) (es ++ [e])) ≤ 1 ∧
    countOf isBroadcast t (d.machine.emitted (boot s) (es ++ [e])) ≤ 1 := by
  -- what stands behind a suspended request was shown for every run
  have hbehind := frames_behind (d := d) s es
  rw [history_snoc, run_snoc]
  refine ⟨fun agent tx key hcall => ?_, fun agent signedTransaction hcall => ?_, ?_, ?_⟩
  -- the signer is called by a step that has just decided
  · obtain ⟨seg, hseg, ho⟩ := mem_outputs.1 hcall
    have hstate := next_shared hseg
    rw [hstate]
    rcases segment?_cases hseg with
      ⟨⟨line, m⟩, rfl, rfl, rfl⟩ | ⟨f, ⟨answer, m⟩, rfl, hf, hres⟩
    · exact (start_mediated mem_history_snoc).sign _ _ _ (effect_mem_outputs.1 ho)
    · have hf' := (hbehind _ (mem_of_lookup hf)).mono (List.subset_append_left _
        [(d.machine.run (boot s) es, .resume t (answer, m))])
      exact (resume_mediated mem_history_snoc hf hf' hres).sign _ _ _ (effect_mem_outputs.1 ho)
  -- a broadcast is asked for after a signature, or by a request for it alone
  · obtain ⟨seg, hseg, ho⟩ := mem_outputs.1 hcall
    rcases segment?_cases hseg with
      ⟨⟨line, m⟩, rfl, rfl, rfl⟩ | ⟨f, ⟨answer, m⟩, rfl, hf, hres⟩
    · obtain ⟨request, runtime, nonces, hrel, ha, hs⟩ :=
        (start_mediated (h := [(_, .start (line, m))]) (List.mem_singleton_self _)).broadcast _ _
          (effect_mem_outputs.1 ho)
      exact Or.inr ⟨line, m, request, runtime, nonces, rfl, hrel, ha, hs⟩
    · have hf' := (hbehind _ (mem_of_lookup hf)).mono (List.subset_append_left _
        [(d.machine.run (boot s) es, .resume t (answer, m))])
      obtain ⟨a, result, rfl, rfl, hfused, -, ha, hs⟩ :=
        (resume_mediated mem_history_snoc hf hf' hres).broadcast _ _ (effect_mem_outputs.1 ho)
      have hcleared : Cleared d (d.machine.history (boot s) es) t a :=
        hbehind _ (mem_of_lookup hf)
      obtain ⟨w, line, m', nonces, -, -, hin⟩ := hcleared.loaded.passed
      exact Or.inl ⟨a, result, m, rfl, hf, hcleared, hfused, hin.gates.submit hfused, ha, hs⟩
  -- and each of the two calls has a rank of its own
  · rw [← callAt_sign]
    exact calls_atMostOnce (by omega) s _ t
  · rw [← callAt_broadcast]
    exact calls_atMostOnce (by omega) s _ t

end Signbox
