import Signbox.Proof.Pipeline

/-!
# The local kill-switch

`disableAgent` clears a flag that a request reads once, at its start. A request that was
already past that point when the flag was cleared goes on to the key.

* `PastSwitch`: the frames in which a request of an agent waits between reading the flag and
  its last call on the key or on the network.
* `disabled_unused`: when no request waits there at the moment of a `disableAgent`, the key and
  the network are not used for the agent until the next `enableAgent`.
* `InFlight.disabled_used`: a run in which one does, and both are.
-/

namespace Signbox

open Guard Async

/-- A call on the key of an agent, or on the network for it. -/
def Call.Uses (agent : JsString) : Call → Prop
  | .sign a _ _ => a = agent
  | .broadcast a _ => a = agent
  | _ => False

namespace SignBoxDaemon

variable {d : SignBoxDaemon} {s s' : DaemonState} {m : Moment} {agent : JsString}

/-- The request of this frame may still call the signer or the broadcaster for `agent`. A
plain request that awaits the signer has made its last call, and so has one that awaits the
broadcaster. -/
def PastSwitch (d : SignBoxDaemon) (agent : JsString) : DaemonFrame → Prop
  | .policy c => c.agent = agent
  | .authority b => b.agent = agent
  | .providers b _ => b.agent = agent
  | .sign a => a.agent = agent ∧ a.bound.admitted.request.broadcast = some true ∧
      d.deps.broadcaster = true
  | _ => False

/-! ## Segments away from the agent -/

/-- The segment makes no call for the agent, and neither will the rest of its request. It has
ended, or is not past the flag. -/
structure Away (d : SignBoxDaemon) (agent : JsString) (s : DaemonState) (seg : Step) : Prop where
  agents : seg.state.agents = s.agents
  calls : ∀ call ∈ seg.effects, ¬ call.Uses agent
  frame : ∀ f, seg.next = .inl f → ¬ d.PastSwitch agent f

theorem Ended.away {seg : Step} (h : Ended s seg) : Away d agent s seg where
  agents := h.state.agents
  calls := by
    intro call hcall
    obtain ⟨entry, rfl⟩ := h.calls call hcall
    exact id
  frame := by
    intro f hf
    obtain ⟨r, hr, -⟩ := h.done
    rw [hr] at hf
    cases hf

/-- A segment that makes one call and awaits its answer. -/
theorem away_await {call : Call} {f : DaemonFrame} (hs : s'.agents = s.agents)
    (hcall : ¬ call.Uses agent) (hf : ¬ d.PastSwitch agent f) :
    Away d agent s ⟨s', [call], .inl f⟩ where
  agents := hs
  calls := by
    intro c hc
    rw [List.mem_singleton.1 hc]
    exact hcall
  frame := by
    intro f' hf'
    cases hf'
    exact hf

theorem evaluate_away {b : Bound} {evidence : Option ProviderEvidenceMap} (hb : b.agent ≠ agent) :
    Away d agent s (d.evaluate b evidence m s) := by
  refine evaluate_rule (fun _ h => h.away) fun a s' hallow hres => ?_
  have ha : a.agent ≠ agent := by rwa [Approved.agent, hallow.bound]
  refine away_await ?_ ha fun hpast => ha hpast.1
  cases hres <;> rfl

theorem provide_away {b : Bound} (hb : b.agent ≠ agent) :
    Away d agent s (d.provide b m s) :=
  provide_rule (fun _ h => h.away) (fun _ _ _ => away_await rfl id hb)
    fun _ => evaluate_away hb

theorem bindIdentity_away {c : Admitted} {active : ActivePolicy} (hc : c.agent ≠ agent) :
    Away d agent s (d.bindIdentity c active m s) := by
  have hb : ∀ b, Identified d c active b → b.agent ≠ agent := by
    intro b hid
    rwa [Bound.agent, hid.admitted]
  refine bindIdentity_rule (fun _ h => h.away) (fun b hid _ => ?_) fun b hid _ => ?_
  · exact away_await rfl id (hb b hid)
  · exact provide_away (hb b hid)

theorem loadPolicy_away {c : Admitted} (hc : c.agent ≠ agent) :
    Away d agent s (d.loadPolicy c m s) :=
  loadPolicy_rule (fun _ => away_await rfl id hc) fun _ => bindIdentity_away hc

theorem settle_agents {a : Approved} {op : QuotaJournal → ℕ → QuotaJournal} {s' : DaemonState}
    (h : d.settle s a m op = some s') : s'.agents = s.agents := by
  unfold settle at h
  split at h
  · rw [← Option.some.inj h]
  · split at h
    · rw [← Option.some.inj h]
    · split at h
      · simp at h
      · rw [← Option.some.inj h]

theorem conclude_away {settled : Option DaemonState} {a : Approved}
    {signed : SignedTransactionResult} {signedTransaction : Option Json}
    {report : Option BroadcastReport} (h : ∀ s', settled = some s' → s'.agents = s.agents) :
    Away d agent s (d.conclude s settled a m signed signedTransaction report) := by
  unfold conclude
  split
  · exact (refuse_ended (.refl s) ..).away
  case h_2 s' =>
    refine ⟨h s' rfl, fun call hcall => ?_, fun f hf => by simp [respond] at hf⟩
    obtain ⟨entry, rfl⟩ := respond_calls _ _ call hcall
    exact id

theorem endSign_away {a : Approved} {result : SignedTransactionResult}
    (h : ¬ d.PastSwitch agent (.sign a)) : Away d agent s (d.endSign a result m s) := by
  unfold endSign
  split
  case isTrue hfused =>
    refine away_await rfl (fun huse => h ⟨huse, hfused⟩) id
  case isFalse => exact conclude_away fun s' => settle_agents

theorem endBroadcast_away {a : Approved} {result : SignedTransactionResult}
    {outcome : BroadcastOutcome} : Away d agent s (d.endBroadcast a result outcome m s) := by
  unfold endBroadcast
  split <;> exact conclude_away fun s' => settle_agents

theorem failSign_away {a : Approved} : Away d agent s (d.failSign a m s) := by
  have hstate : ((d.release s a m).getD s).agents = s.agents := by
    cases h : d.release s a m with
    | none => rfl
    | some s' => exact settle_agents h
  have haway : Away d agent ((d.release s a m).getD s) (d.failSign a m s) :=
    (refuse_ended (.refl _) ..).away
  exact ⟨haway.agents.trans hstate, haway.calls, haway.frame⟩

/-- A request that is resumed from a frame outside stays outside. -/
theorem resume_away {f : DaemonFrame} {x : Answer × Moment} {seg : Step}
    (hseg : d.resume f x s = some seg) (hf : ¬ d.PastSwitch agent f) : Away d agent s seg := by
  obtain ⟨answer, m⟩ := x
  refine resume_rule hseg (fun _ h => h.away) ?_ ?_ ?_ ?_ ?_ ?_ ?_
  · rintro c cached rfl rfl
    exact endPolicy_rule (fun _ h => h.away) fun p _ _ => bindIdentity_away hf
  · rintro b authorized rfl rfl
    exact endAuthority_rule (fun _ h => h.away) fun _ => provide_away hf
  · rintro b queries answers rfl rfl
    exact evaluate_away hf
  · rintro a result rfl rfl
    exact endSign_away hf
  · rintro a message rfl rfl
    exact failSign_away
  · rintro a signed outcome rfl rfl
    exact endBroadcast_away
  · rintro a signed message rfl rfl
    exact (refuse_ended (.refl s) ..).away

/-- A request that starts while the agent is disabled never enters. -/
theorem start_away {x : Line × Moment}
    (hoff : ∀ r ∈ s.agents, r.agent = agent → r.enabled = false) :
    Away d agent s (d.start x s) := by
  obtain ⟨line, m⟩ := x
  have hon : ∀ {name r}, s.runtime? name = some r → r.enabled = true → r.agent ≠ agent := by
    intro name r hr hen ha
    rw [hoff r (runtime?_mem hr) ha] at hen
    cases hen
  refine start_rule (fun _ h => h.away) (fun c nonces hin => ?_)
    (fun request runtime nonces hin => ?_) fun _ _ _ => away_await rfl id id
  · have hc : c.agent ≠ agent := hon hin.gates.registered hin.gates.enabled
    obtain ⟨hagents, hcalls, hframe⟩ :=
      loadPolicy_away (d := d) (m := m) (s := { s with nonces := nonces }) hc
    exact ⟨hagents, hcalls, hframe⟩
  · exact away_await rfl (hon hin.gates.registered hin.gates.enabled) id

/-! ## Runs -/

/-- The agent is disabled, and no request of it waits past the flag. Then nothing can be called for
it. -/
structure SwitchedOff (d : SignBoxDaemon) (agent : JsString) (w : DaemonWorld) :
    Prop where
  disabled : ∀ r ∈ w.shared.agents, r.agent = agent → r.enabled = false
  quiet : ∀ tf ∈ w.tasks, ¬ d.PastSwitch agent tf.2

theorem setEnabled_disabled {name : JsString} {on : Bool}
    (h : ∀ r ∈ s.agents, r.agent = agent → r.enabled = false) (hne : name = agent → on = false) :
    ∀ r ∈ (s.setEnabled name on).agents, r.agent = agent → r.enabled = false := by
  intro r hr ha
  obtain ⟨r₀, hr₀, rfl⟩ := List.mem_map.1 hr
  by_cases hn : r₀.agent = name
  · rw [if_pos hn] at ha ⊢
    exact hne (hn.symm.trans ha)
  · rw [if_neg hn] at ha ⊢
    exact h r₀ hr₀ ha

/-- The switch, set when no request waits past it, stays set. -/
theorem switchedOff_disable {w : DaemonWorld}
    (hquiet : ∀ tf ∈ w.tasks, ¬ d.PastSwitch agent tf.2) :
    SwitchedOff d agent (d.machine.next w (.admin (.disable agent))) where
  disabled := by
    intro r hr ha
    obtain ⟨r₀, -, rfl⟩ := List.mem_map.1 hr
    by_cases hn : r₀.agent = agent
    · rw [if_pos hn]
    · rw [if_neg hn] at ha
      exact absurd ha hn
  quiet := hquiet

theorem SwitchedOff.segment {w : DaemonWorld} {e : DaemonEvent} {t : ℕ}
    {seg : Step} (h : SwitchedOff d agent w) (hseg : d.machine.segment? w e = some (t, seg)) :
    Away d agent w.shared seg := by
  rcases segment?_cases hseg with ⟨x, -, -, rfl⟩ | ⟨f, x, -, hf, hres⟩
  · exact start_away h.disabled
  · exact resume_away hres (h.quiet _ (mem_of_lookup hf))

/-- One step: the agent stays switched off, and nothing is called for it. -/
theorem SwitchedOff.step {w : DaemonWorld} {e : DaemonEvent}
    (h : SwitchedOff d agent w) (he : e ≠ .admin (.enable agent)) :
    SwitchedOff d agent (d.machine.next w e) ∧
      ∀ t call, (t, .effect call) ∈ d.machine.outputs w e → ¬ call.Uses agent := by
  rcases next_cases (M := d.machine) w e with
    ⟨t, seg, hseg, hshared, htasks, -⟩ | ⟨op, rfl, hshared, hsub⟩ | ⟨hsame, hout⟩
  · have haway := h.segment hseg
    refine ⟨⟨?_, ?_⟩, ?_⟩
    · rw [hshared, haway.agents]
      exact h.disabled
    · rw [htasks]
      intro tf htf
      rcases List.mem_append.1 htf with htf | htf
      · exact haway.frame _ (mem_suspended.1 htf).2
      · exact h.quiet tf (mem_others.1 htf).1
    · intro t' call hcall
      obtain ⟨seg', hseg', ho⟩ := mem_outputs.1 hcall
      exact (h.segment hseg').calls call (effect_mem_outputs.1 ho)
  · refine ⟨⟨?_, fun tf htf => h.quiet tf (hsub.subset htf)⟩, fun t call hcall => ?_⟩
    · rw [hshared]
      cases op with
      | disable name => exact setEnabled_disabled h.disabled fun _ => rfl
      | enable name =>
        refine setEnabled_disabled h.disabled fun hn => absurd ?_ he
        rw [hn]
    · simp at hcall
  · rw [hsame, hout]
    exact ⟨h, fun t call hcall => by simp at hcall⟩

theorem SwitchedOff.run {w : DaemonWorld} (h : SwitchedOff d agent w)
    (es : List DaemonEvent) (hno : .admin (.enable agent) ∉ es) :
    ∀ t call, (t, .effect call) ∈ d.machine.emitted w es → ¬ call.Uses agent := by
  induction es generalizing w with
  | nil => intro t call hcall; simp [Machine.emitted, Machine.history] at hcall
  | cons e es ih =>
    rw [List.mem_cons, not_or] at hno
    obtain ⟨hnext, hcalls⟩ := h.step fun he => hno.1 he.symm
    intro t call hcall
    rw [emitted_cons, List.mem_append] at hcall
    rcases hcall with hcall | hcall
    · exact hcalls t call hcall
    · exact ih hnext hno.2 t call hcall

end SignBoxDaemon

/-- **The kill-switch.** In a run in which no request of an agent is past the flag whenever
the agent is disabled, neither the signer nor the broadcaster is called for the agent from a
`disableAgent` to the next `enableAgent`. -/
theorem disabled_unused (d : SignBoxDaemon) (s : DaemonState) (agent : JsString)
    (es : List DaemonEvent)
    (hquiet : ∀ pre post, es = pre ++ .admin (.disable agent) :: post →
      ∀ tf ∈ (d.machine.run (boot s) pre).tasks, ¬ d.PastSwitch agent tf.2) :
    ∀ pre mid post, es = pre ++ .admin (.disable agent) :: (mid ++ post) →
      .admin (.enable agent) ∉ mid → ∀ t call,
        (t, .effect call) ∈ d.machine.emitted
          (d.machine.run (boot s) (pre ++ [.admin (.disable agent)])) mid →
        ¬ call.Uses agent := by
  intro pre mid post hes hno
  rw [run_snoc]
  exact (SignBoxDaemon.switchedOff_disable (hquiet pre _ hes)).run mid hno

namespace InFlight

/-- The sample daemon, with policies read through the cache. -/
def daemon : SignBoxDaemon :=
  { Sample.daemon with deps := { Sample.daemon.deps with policyCache := true } }

/-- The policy of the sample agent, as the cache returns it. -/
def cached : CachedPolicy :=
  ⟨Sample.transferPolicy, 1, true, js "owner", js "active", true, 1783512000000⟩

/-- A request to sign and submit starts and awaits its policy. -/
def before : List DaemonEvent :=
  [.start (Sample.signLine "nonce-0123456789" true, Sample.moment)]

/-- After the agent is disabled, the cache and the signer answer. -/
def after : List DaemonEvent :=
  [.resume 0 (.policy (some cached), Sample.moment),
    .resume 0 (.signed (Sample.signed "digest"), Sample.moment)]

/-- The agents whose key or network a call uses. -/
def used : Async.Output Call Response → Option JsString
  | .effect (.sign a _ _) => some a
  | .effect (.broadcast a _) => some a
  | _ => none

/-- Both the signer and the broadcaster are called for an agent that is disabled: the flag was read
before the request awaited its policy. -/
theorem disabled_used : (daemon.machine.emitted
      (daemon.machine.run (boot (Sample.state Sample.transferPolicy))
        (before ++ [.admin (.disable (js "bot"))])) after).filterMap (fun o => used o.2) =
    [js "bot", js "bot"] := by decide +kernel

end InFlight

namespace BetweenRequests

/-- A plain request is signed and ends. -/
def served : List DaemonEvent :=
  [.start (Sample.signLine "nonce-0123456789" false, Sample.moment),
    .resume 0 (.signed (Sample.signed "digest"), Sample.moment)]

/-- The next request. -/
def next : List DaemonEvent :=
  [.start (Sample.signLine "nonce-9876543210" true, Sample.moment)]

/-- No request is left when the agent is disabled between the two, and nothing is called for
the second. -/
theorem disabled_unused_next :
    (Sample.daemon.machine.run (boot (Sample.state Sample.transferPolicy)) served).tasks.length = 0 ∧
    ∀ t call, (t, .effect call) ∈ Sample.daemon.machine.emitted
        (Sample.daemon.machine.run (boot (Sample.state Sample.transferPolicy))
          (served ++ [.admin (.disable (js "bot"))])) next →
      ¬ call.Uses (js "bot") := by
  have hends : (Sample.daemon.machine.run (boot (Sample.state Sample.transferPolicy))
      served).tasks.length = 0 := by decide +kernel
  refine ⟨hends, disabled_unused Sample.daemon (Sample.state Sample.transferPolicy) (js "bot")
    (served ++ .admin (.disable (js "bot")) :: next) ?_ served next [] (by simp)
    (by simp [next])⟩
  intro pre post hes tf htf
  obtain rfl : pre = served := by
    simp only [served, next, List.cons_append, List.nil_append] at hes
    rcases pre with _ | ⟨e₁, _ | ⟨e₂, _ | ⟨e₃, _ | ⟨e₄, pre⟩⟩⟩⟩ <;>
      simp_all [served]
  have hnil := List.eq_nil_of_length_eq_zero hends
  rw [hnil] at htf
  simp at htf

end BetweenRequests

end Signbox
