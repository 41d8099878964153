import Signbox.Proof.Reply

/-!
# The audit trail

Each answer to a sign request or a standalone broadcast is recorded by the segment that gives
it. Two slips break the trail: a standalone broadcast that does not parse is answered without an
entry, and what fails after the transaction was submitted is answered, and recorded, as denied.

* `Records`: an entry says what a response says; `FaithfulTrail`: the law of one request.
* `Orderly`: the step is neither of the two. `audit_faithful`: the law in every run of such steps.
* `Unsettled.denied_submitted`: a request that is recorded as denied after it was submitted.
-/

namespace Signbox

open Guard Async

namespace SignBoxDaemon

variable {d : SignBoxDaemon} {s s' : DaemonState} {m : Moment} {w : DaemonWorld} {e : DaemonEvent}
variable {trace : List (Output Call Response)} {r : Response} {seg : Step}

/-- The audit entries among what a request has let out. -/
def entriesOf (trace : List (Output Call Response)) : List AuditEntryInput :=
  trace.filterMap fun
    | .effect (.audit entry) => some entry
    | _ => none

/-- A transaction was handed to the broadcaster. -/
def Submitted (trace : List (Output Call Response)) : Prop :=
  ∃ agent signedTransaction, .effect (.broadcast agent signedTransaction) ∈ trace

/-- The entry has the request, the status and the code of the response. A read is not recorded. -/
def Records (entry : AuditEntryInput) : Response → Prop
  | .sign (.signed requestId _ _ _ _ _) =>
    entry.requestId = requestId ∧ entry.decision = .signed ∧ entry.code = none
  | .sign (.denied requestId denial) =>
    entry.requestId = requestId ∧ entry.decision = .denied ∧ entry.code = some denial.code
  | .broadcast (.broadcast requestId _) =>
    entry.requestId = requestId ∧ entry.decision = .broadcast ∧ entry.code = none
  | .broadcast (.denied requestId denial) =>
    entry.requestId = requestId ∧ entry.decision = .denied ∧ entry.code = some denial.code
  | .read _ => False

/-- The signature in a response. -/
def returnedSignature : Response → Option JsString
  | .sign (.signed _ signature _ _ _ _) => some signature
  | _ => none

def isRead : Response → Bool
  | .read _ => true
  | _ => false

/-- A request that was answered with `r` has one entry, which records the answer; if that says
denied, there is no signature in the answer and nothing was submitted. -/
structure FaithfulTrail (trace : List (Output Call Response)) (r : Response) : Prop where
  entry : ∃ entry, entriesOf trace = [entry] ∧ Records entry r
  denied : ∀ entry ∈ entriesOf trace, entry.decision = .denied →
    returnedSignature r = none ∧ ¬ Submitted trace

/-- The step is not one of those that break the trail: it answers no standalone broadcast that
does not parse, and after a transaction was handed to the broadcaster neither the broadcaster
nor the journal throws. -/
structure Orderly (d : SignBoxDaemon) (w : DaemonWorld) (e : DaemonEvent) : Prop where
  parsed : ∀ line m, e = .start (line, m) → peekOp line = .broadcast →
    parseBroadcastRequest line ≠ none
  standalone : ∀ t request message m, e = .resume t (.threw message, m) →
    w.tasks.lookup t ≠ some (.standalone request)
  submitted : ∀ t a signed message m, e = .resume t (.threw message, m) →
    w.tasks.lookup t ≠ some (.broadcast a signed)
  settled : ∀ t a signed outcome m, e = .resume t (.broadcast outcome, m) →
    w.tasks.lookup t = some (.broadcast a signed) →
    a.reservationId = none ∨ d.deps.quotas = false ∨ m.journalFails = false

/-! ## Segments -/

@[simp] theorem entriesOf_append {trace trace' : List (Output Call Response)} :
    entriesOf (trace ++ trace') = entriesOf trace ++ entriesOf trace' := by
  simp [entriesOf]

/-- A sign request is answered with its entry. -/
theorem respond_entries (haudit : d.deps.audit = true) (ctx : AuditContext)
    (response : SignResponse) :
    ∃ entry, entriesOf (d.respond s ctx m response).outputs = [entry] ∧
      Records entry (.sign response) := by
  unfold respond recordAudit Segment.outputs
  rw [if_pos haudit]
  cases response with
  | signed requestId signature digest tx policyVersion report => exact ⟨_, rfl, rfl, rfl, rfl⟩
  | denied requestId denial => exact ⟨_, rfl, rfl, rfl, rfl⟩

theorem respondBroadcast_entries (haudit : d.deps.audit = true) (agent : JsString)
    (response : BroadcastResponse) :
    ∃ entry, entriesOf (d.respondBroadcast s agent m response).outputs = [entry] ∧
      Records entry (.broadcast response) := by
  unfold respondBroadcast recordBroadcastAudit Segment.outputs
  rw [if_pos haudit]
  cases response with
  | broadcast requestId report => exact ⟨_, rfl, rfl, rfl, rfl⟩
  | denied requestId denial => exact ⟨_, rfl, rfl, rfl, rfl⟩

/-- What a segment adds to the trail: with an answer its one entry, and before that none. -/
inductive Adds (seg : Step) : Prop
  | answered (r : Response) (entry : AuditEntryInput) (hnext : seg.next = .inr r)
    (hentries : entriesOf seg.outputs = [entry]) (hrecords : Records entry r)
    (hsubmit : ¬ Submitted seg.outputs)
  | read (r : Response) (hnext : seg.next = .inr r) (hread : isRead r)
    (hentries : entriesOf seg.outputs = [])
  | asks (f : DaemonFrame) (hnext : seg.next = .inl f) (hentries : entriesOf seg.outputs = [])
    (hsubmit : Submitted seg.outputs → rank f = 5)

theorem not_submitted_of_audits (hcalls : ∀ call ∈ seg.effects, ∃ entry, call = .audit entry) :
    ¬ Submitted seg.outputs := by
  rintro ⟨agent, tx, hmem⟩
  obtain ⟨entry, hentry⟩ := hcalls _ (effect_mem_outputs.1 hmem)
  cases hentry

theorem Reply.adds {Unparsed : Prop} (haudit : d.deps.audit = true) (hr : Reply d Unparsed s seg)
    (hparsed : ¬ Unparsed) : Adds seg := by
  cases hr with
  | sign s' ctx m response hs =>
    obtain ⟨entry, hentries, hrecords⟩ := respond_entries (s := s') (m := m) haudit ctx response
    exact .answered _ entry rfl hentries hrecords (not_submitted_of_audits (respond_calls ctx response))
  | standalone agent m response =>
    obtain ⟨entry, hentries, hrecords⟩ :=
      respondBroadcast_entries (s := s) (m := m) haudit agent response
    exact .answered _ entry rfl hentries hrecords
      (not_submitted_of_audits (recordBroadcastAudit_calls response agent m.auditMs))
  | unparsed hunparsed => exact absurd hunparsed hparsed
  | read response => exact .read _ rfl rfl rfl
  | asks s' call f hs hcall =>
    refine .asks f rfl ?_ ?_
    · cases call with
      | audit entry => cases f <;> simp [awaitedAt, rank] at hcall
      | _ => rfl
    · rintro ⟨agent, tx, hmem⟩
      rw [effect_mem_outputs, List.mem_singleton] at hmem
      rw [← hcall, ← hmem]
      rfl

/-- **After the submission** an orderly step answers with what became of it. It does not answer
with a denial, as a broadcaster that throws would have it do. -/
theorem Orderly.submitted_answer (hord : Orderly d w e) {t : ℕ} {f : DaemonFrame} {answer : Answer}
    (he : e = .resume t (answer, m)) (hf : w.tasks.lookup t = some f) (hrank : rank f = 5)
    (hseg : d.resume f (answer, m) w.shared = some seg) (hnext : seg.next = .inr r)
    {entry : AuditEntryInput} (hrecords : Records entry r) : entry.decision ≠ .denied := by
  cases f with
  | broadcast a signed =>
    cases answer with
    | broadcast outcome =>
      -- the settlement does not throw, by the condition on the step
      have hsettles : ∀ op, ∃ s', d.settle w.shared a m op = some s' := by
        intro op
        unfold settle
        rcases hord.settled t a signed outcome m he hf with hnone | hquotas | hjournal
        · exact ⟨w.shared, by rw [hnone]⟩
        · cases a.reservationId with
          | none => exact ⟨_, rfl⟩
          | some reservationId => exact ⟨_, if_pos hquotas⟩
        · cases a.reservationId with
          | none => exact ⟨_, rfl⟩
          | some reservationId =>
            dsimp only
            split
            · exact ⟨_, rfl⟩
            · simp [hjournal]
      -- so the conclusion answers with the signature, and that is not a denial
      have hconclude : ∀ op tx report, d.conclude w.shared (d.settle w.shared a m op) a m signed tx
          report = seg → entry.decision ≠ .denied := by
        rintro op tx report rfl
        obtain ⟨s', hs'⟩ := hsettles op
        rw [hs'] at hnext
        cases hnext
        rw [hrecords.2.1]
        decide
      cases hseg
      cases outcome with
      | accepted receipt => exact hconclude _ _ _ rfl
      | rejected reason => exact hconclude _ _ _ rfl
      | ambiguous reason => exact hconclude _ _ _ rfl
    | threw message => exact absurd hf (hord.submitted t a signed message m he)
    | _ => cases hseg
  | standalone request =>
    cases answer with
    | broadcast outcome =>
      cases hseg
      cases hnext
      rw [hrecords.2.1]
      decide
    | threw message => exact absurd hf (hord.standalone t request message m he)
    | _ => cases hseg
  | _ => simp [rank] at hrank

/-- What a suspended request has let out: no entry yet, and nothing to the broadcaster unless it
waits for it. -/
structure Pending (f : DaemonFrame) (trace : List (Output Call Response)) : Prop where
  entries : entriesOf trace = []
  submitted : Submitted trace → rank f = 5

theorem submitted_append {trace trace' : List (Output Call Response)} :
    Submitted (trace ++ trace') ↔ Submitted trace ∨ Submitted trace' := by
  unfold Submitted
  simp only [List.mem_append, exists_or]

/-- What a segment adds keeps the trail faithful. -/
theorem Adds.fits (hadds : Adds seg) (hentries : entriesOf trace = [])
    (hframe : Submitted trace → ∀ r entry, seg.next = .inr r → Records entry r →
      entry.decision ≠ .denied)
    (hasks : Submitted trace → ∀ f, seg.next = .inl f → rank f = 5) :
    seg.Fits Pending (fun r trace => isRead r = false → FaithfulTrail trace r) trace := by
  cases hadds with
  -- an answer comes with its one entry, and nothing was recorded before
  | answered r entry hnext hnew hrecords hsubmit =>
    refine ⟨fun f hf => ?_, fun r' hr' hread => ?_⟩
    · rw [hnext] at hf
      cases hf
    · rw [hnext] at hr'
      cases hr'
      have hone : entriesOf (trace ++ seg.outputs) = [entry] := by
        rw [entriesOf_append, hentries, hnew, List.nil_append]
      refine ⟨⟨entry, hone, hrecords⟩, fun entry' hmem hdenied => ?_⟩
      rw [hone, List.mem_singleton] at hmem
      subst hmem
      refine ⟨?_, fun hsub => ?_⟩
      · -- a signed response is not recorded as denied
        unfold returnedSignature
        split
        · have hsigned := hrecords.2.1
          rw [hdenied] at hsigned
          cases hsigned
        · rfl
      -- what was submitted before is not recorded as denied, by the condition on the step
      · rcases submitted_append.1 hsub with hsub | hsub
        · exact hframe hsub r entry' hnext hrecords hdenied
        · exact hsubmit hsub
  -- reads are not recorded
  | read r hnext hread hnew =>
    refine ⟨fun f hf => ?_, fun r' hr' hnot => ?_⟩
    · rw [hnext] at hf
      cases hf
    · rw [hnext] at hr'
      cases hr'
      rw [hread] at hnot
      cases hnot
  | asks f hnext hnew hsubmit =>
    refine ⟨fun f' hf' => ?_, fun r hr => ?_⟩
    · refine ⟨by rw [entriesOf_append, hentries, hnew, List.nil_append], fun hsub => ?_⟩
      rcases submitted_append.1 hsub with hsub | hsub
      · exact hasks hsub f' hf'
      · rw [hnext] at hf'
        cases hf'
        exact hsubmit hsub
    · rw [hnext] at hr
      cases hr

/-- A request that waits for the broadcaster ends when it goes on. -/
theorem submitted_ends {f f' : DaemonFrame} {x : Answer × Moment} (hrank : rank f = 5)
    (hseg : d.resume f x s = some seg) : seg.next ≠ .inl f' := by
  obtain ⟨answer, m⟩ := x
  have hconclude : ∀ settled a m signed tx report,
      (d.conclude s settled a m signed tx report).next ≠ .inl f' := by
    intro settled a m signed tx report
    unfold conclude
    split <;> simp [refuse, respond]
  cases f with
  | broadcast a signed =>
    cases answer with
    | broadcast outcome =>
      cases hseg
      cases outcome <;> exact hconclude _ _ _ _ _ _
    | threw message =>
      cases hseg
      simp [refuse, respond]
    | _ => cases hseg
  | standalone request =>
    cases answer with
    | broadcast outcome =>
      cases hseg
      simp [endStandalone, respondBroadcast]
    | threw message =>
      cases hseg
      simp [refuseBroadcast, respondBroadcast]
    | _ => cases hseg
  | _ => simp [rank] at hrank

theorem Orderly.adds_start {x : Line × Moment} (haudit : d.deps.audit = true)
    (hord : Orderly d w (.start x)) : Adds (d.start x w.shared) :=
  (start_reply x).adds haudit fun h => hord.parsed x.1 x.2 rfl h.1 h.2

theorem adds_resume {f : DaemonFrame} {x : Answer × Moment} (haudit : d.deps.audit = true)
    (hseg : d.resume f x s = some seg) : Adds seg := (resume_reply hseg).adds haudit id

/-- **The audit trail of a run.** What each request has let out fits where it stands: an answered
request has exactly one entry, which records its answer, and a suspended one stands before that.
Reads are not recorded. -/
theorem trail_run (haudit : d.deps.audit = true) (s : DaemonState) (es : List DaemonEvent)
    (hord : ∀ pre e post, es = pre ++ e :: post → Orderly d (d.machine.run (boot s) pre) e) :
    Traced Pending (fun r trace => isRead r = false → FaithfulTrail trace r)
      (d.machine.run (boot s) es) (d.machine.emitted (boot s) es) := by
  refine traced_run (C := Orderly d) ?_ ?_ s es hord
  · intro w x hord
    have hnone : ¬ Submitted [] := by simp [Submitted]
    exact (hord.adds_start haudit).fits rfl (fun h => absurd h hnone) fun h => absurd h hnone
  · rintro w t ⟨answer, m⟩ f seg trace hord hf hseg hpending
    refine (adds_resume haudit hseg).fits hpending.entries (fun hsub r entry hnext hrecords => ?_) fun hsub f' hf' => ?_
    · exact hord.submitted_answer rfl hf (hpending.submitted hsub) hseg hnext hrecords
    · exact absurd hf' (submitted_ends (hpending.submitted hsub) hseg)

/-- Every answer of a run, but to a read, has its one faithful entry, and every entry an answer. -/
structure FaithfulAudit (d : SignBoxDaemon) (s : DaemonState) (es : List DaemonEvent) : Prop where
  answered : ∀ t r, (t, .done r) ∈ d.machine.emitted (boot s) es → isRead r = false →
    FaithfulTrail (traceOf t (d.machine.emitted (boot s) es)) r
  entries : ∀ t entry, (t, .effect (.audit entry)) ∈ d.machine.emitted (boot s) es →
    ∃ r, (t, .done r) ∈ d.machine.emitted (boot s) es ∧ isRead r = false

end SignBoxDaemon

open SignBoxDaemon in
/-- **The audit log is faithful** in every run of orderly steps, whatever the requests, their
interleaving and the answers of the dependencies. Each answer, but to a read, has one entry that
says what was done, and there is no entry without an answer. -/
theorem audit_faithful (d : SignBoxDaemon) (s : DaemonState) (es : List DaemonEvent)
    (haudit : d.deps.audit = true)
    (hord : ∀ pre e post, es = pre ++ e :: post → Orderly d (d.machine.run (boot s) pre) e) :
    FaithfulAudit d s es where
  answered := by
    intro t r hr
    exact (trail_run haudit s es hord).ended t r (mem_traceOf.2 hr)
  entries := by
    intro t entry hentry
    obtain ⟨⟨w, e⟩, hmem, hout⟩ := List.mem_flatMap.1 hentry
    obtain ⟨seg, hseg, ho⟩ := mem_outputs.1 hout
    obtain ⟨pre, post, hes, rfl⟩ := history_split hmem
    have hadds : Adds seg := by
      rcases segment?_cases hseg with ⟨x, rfl, rfl, rfl⟩ | ⟨f, x, rfl, hf, hres⟩
      · exact (hord pre _ post hes).adds_start haudit
      · exact adds_resume haudit hres
    have hin : entry ∈ entriesOf seg.outputs := List.mem_filterMap.2 ⟨_, ho, rfl⟩
    cases hadds with
    | answered r entry' hnext hentries hrecords hsubmit =>
      refine ⟨r, List.mem_flatMap.2 ⟨_, hmem, mem_outputs.2 ⟨seg, hseg, ?_⟩⟩, ?_⟩
      · exact done_mem_outputs.2 hnext
      · cases r with
        | read response => exact absurd hrecords id
        | _ => rfl
    | read r hnext hread hentries =>
      rw [hentries] at hin
      cases hin
    | asks f hnext hentries hsubmit =>
      rw [hentries] at hin
      cases hin

/-! ## Three requests -/

namespace Unsettled

open SignBoxDaemon

/-- The sample daemon, with an audit log. -/
def daemon : SignBoxDaemon :=
  { Sample.daemon with deps := { Sample.daemon.deps with audit := true } }

/-- A request to sign and submit is signed, and the broadcaster is called. -/
def submitted : List DaemonEvent :=
  [.start (Sample.signLine "nonce-0123456789" true, Sample.moment),
    .resume 0 (.signed (Sample.signed "digest"), Sample.moment)]

/-- A transaction is handed to the broadcaster. -/
def isBroadcast : Output Call Response → Bool
  | .effect (.broadcast _ _) => true
  | _ => false

/-- The broadcaster throws. -/
def throws : DaemonEvent := .resume 0 (.threw none, Sample.moment)

/-- The chain accepts the transaction. -/
def accepts : DaemonEvent := .resume 0 (.broadcast (.accepted .null), Sample.moment)

/-- A line that asks for a broadcast and says nothing else. -/
def unparsed : DaemonEvent :=
  .start (some (.obj .ordinary [(js "op", Sample.text "broadcast")]), Sample.moment)

def trace (es : List DaemonEvent) : List (Output Call Response) :=
  traceOf 0 (daemon.machine.emitted (boot (Sample.state Sample.transferPolicy)) es)

/-- The trace of an answered request. -/
theorem answered_of_any (es : List DaemonEvent)
    (h : (trace es).any (fun | .done r => !isRead r | _ => false) = true) :
    ∃ r, (0, .done r) ∈ daemon.machine.emitted (boot (Sample.state Sample.transferPolicy)) es ∧
      isRead r = false := by
  obtain ⟨o, ho, hr⟩ := List.any_eq_true.1 h
  cases o with
  | effect call => cases hr
  | done r => exact ⟨r, mem_traceOf.1 ho, by simpa using hr⟩

/-- A request is recorded as denied after its transaction was submitted; another is answered
without an entry. -/
theorem denied_submitted :
    ¬ FaithfulAudit daemon (Sample.state Sample.transferPolicy) (submitted ++ [throws]) ∧
    ¬ FaithfulAudit daemon (Sample.state Sample.transferPolicy) [unparsed] := by
  constructor
  · intro hfaithful
    obtain ⟨r, hr, hread⟩ :=
      answered_of_any (submitted ++ [throws]) (by decide +kernel)
    have htrail := hfaithful.answered 0 r hr hread
    have hdenied : ((entriesOf (trace (submitted ++ [throws]))).any
        fun entry => entry.decision = .denied) = true := by decide +kernel
    obtain ⟨entry, hentry, hdecision⟩ := List.any_eq_true.1 hdenied
    have hsubmitted : (trace (submitted ++ [throws])).any isBroadcast = true := by decide +kernel
    obtain ⟨o, ho, hcall⟩ := List.any_eq_true.1 hsubmitted
    refine (htrail.denied entry hentry (of_decide_eq_true hdecision)).2 ?_
    unfold isBroadcast at hcall
    split at hcall
    case h_1 agent tx => exact ⟨agent, tx, ho⟩
    case h_2 => cases hcall
  · intro hfaithful
    obtain ⟨r, hr, hread⟩ := answered_of_any [unparsed] (by decide +kernel)
    obtain ⟨entry, hentry, -⟩ := (hfaithful.answered 0 r hr hread).entry
    have hnone : (entriesOf (trace [unparsed])).length = 0 := by decide +kernel
    have hone := congrArg List.length hentry
    rw [List.length_singleton] at hone
    exact absurd (hone.symm.trans hnone) (by decide)

/-- When the chain accepts, the entry says so. -/
theorem audit_faithful_accepted :
    FaithfulAudit daemon (Sample.state Sample.transferPolicy) (submitted ++ [accepts]) := by
  refine audit_faithful daemon (Sample.state Sample.transferPolicy) _ rfl ?_
  intro pre e post hes
  have he : e ∈ submitted ++ [accepts] := by
    rw [hes]
    simp
  simp only [submitted, accepts, List.cons_append, List.nil_append, List.mem_cons,
    List.not_mem_nil, or_false] at he
  rcases he with rfl | rfl | rfl
  · refine ⟨fun line m he hop => ?_, ?_, ?_, ?_⟩
    · cases he
      exact absurd hop (by decide +kernel)
    all_goals simp
  · refine ⟨?_, ?_, ?_, ?_⟩ <;> simp
  · refine ⟨by simp, by simp, by simp, fun t a signed outcome m he _ => ?_⟩
    cases he
    exact Or.inr (Or.inr rfl)

end Unsettled

end Signbox
