import Signbox.Proof.Rollback
import Signbox.Spec.Rpc

/-!
# Verified before use

A data request leaves the instance only after a verification: one that was accepted while the
request was waiting, or one that was fresh when the request was made. A call can join a
verification that has returned and is not settled yet; what it returned is fresh then, unless the
window has passed in between.

* `state_moves`: what a step does to the instance.
* `Sound`: where a verification and a suspended call come from, kept by every step.
* `Doomed`: a call that waits on a verification that has failed.
* `verified_before_use`: the guarantee, for every run.
-/

namespace Signbox

open Async Guard

namespace VerifiedRpc

abbrev RpcWorld := World RpcState Frame

abbrev RpcEvent := Event Call Reply Progress

variable {opts : VerifiedRpcOptions} {s : RpcState} {w : RpcWorld} {e : RpcEvent}
variable {es : List RpcEvent} {h : List (RpcWorld × RpcEvent)} {t v : ℕ} {a : Answer}
variable {request : RpcRequest} {now : ℤ} {phase : Phase}

/-! ## Answers -/

/-- The answer has the pinned chain id and a head that is not too old, which is what the checks
accept. -/
def Vouches (opts : VerifiedRpcOptions) (a : Answer) : Prop :=
  ∃ info headTime headMs, a.info = some info ∧
    (info.get (js "chain_id")).bind Json.str? = some opts.chainId ∧
    info.get (js "head_block_time") = some (.str headTime) ∧
    opts.dateParse (headTime ++ js "Z") = some headMs ∧ a.checkedMs - headMs ≤ opts.maxHeadLagMs

theorem vouches_of_accepts (h : accepts opts a = true) : Vouches opts a := by
  unfold accepts at h
  split at h
  · cases h
  case h_2 info hinfo =>
    split at h
    · cases h
    case isFalse hchain =>
      split at h
      case h_1 headTime hhead =>
        split at h
        case h_1 headMs hparse =>
          have hlag : a.checkedMs - headMs ≤ opts.maxHeadLagMs := by simpa using h
          exact ⟨info, headTime, headMs, hinfo, not_not.1 hchain, hhead, hparse, hlag⟩
        · cases h
      · cases h

/-- A step accepts an answer of `get_info`, at a time of the clock. It may be that of a shared
verification or of a call. -/
def AcceptsAt (opts : VerifiedRpcOptions) (x : RpcWorld × RpcEvent) (verifiedMs : ℤ) : Prop :=
  ∃ a, Vouches opts a ∧ a.verifiedMs = verifiedMs ∧
    ((∃ v, x.2 = .admin (.answered v a)) ∨ ∃ t, x.2 = .resume t (.answered a))

/-! ## Steps -/

/-- What a step does to the instance: nothing, an answer that is accepted, a verification that
begins, or one that goes on by a phase. -/
inductive Moves (opts : VerifiedRpcOptions) (w : RpcWorld) (e : RpcEvent) : RpcState → Prop
  | same : Moves opts w e w.shared
  | began (hidle : w.shared.inflight = none) :
    Moves opts w e { w.shared with
      inflight := some w.shared.verifications.length
      verifications := w.shared.verifications ++ [(w.shared.verifications.length, .asked)] }
  | accepted (verifiedMs : ℤ) (haccepts : AcceptsAt opts (w, e) verifiedMs) :
    Moves opts w e { w.shared with verifiedAtMs := some verifiedMs }
  | returned (v : ℕ) (verifiedMs : ℤ) (haccepts : AcceptsAt opts (w, e) verifiedMs)
    (hphase : w.shared.verifications.lookup v = some .asked) :
    Moves opts w e { w.shared with
      verifiedAtMs := some verifiedMs, verifications := setPhase w.shared v .returned }
  | threw (v : ℕ) (hphase : w.shared.verifications.lookup v = some .asked) :
    Moves opts w e { w.shared with verifications := setPhase w.shared v .threw }
  | settled (v : ℕ) (old new : Phase) (hphase : w.shared.verifications.lookup v = some old)
    (hsettles : old = .returned ∧ new = .fulfilled ∨ old = .threw ∧ new = .rejected) :
    Moves opts w e { w.shared with inflight := none, verifications := setPhase w.shared v new }

theorem startFetch_moves : Moves opts w e (startFetch opts w.shared request now).state := by
  unfold startFetch
  split
  · unfold ensureVerified
    split
    · exact .same
    · split
      · exact .same
      case h_2 hidle => exact .began hidle
  · exact .same

theorem progress_moves (p : Progress) :
    Moves opts w (.admin p) (progress opts w.shared p) := by
  cases p with
  | answered v a =>
    simp only [progress]
    split
    case h_1 hphase =>
      split
      case isTrue haccepts =>
        exact .returned v a.verifiedMs ⟨a, vouches_of_accepts haccepts, rfl, Or.inl ⟨v, rfl⟩⟩ hphase
      · exact .threw v hphase
    · exact .same
  | settled v =>
    simp only [progress]
    split
    case h_1 hphase => exact .settled v _ _ hphase (Or.inl ⟨rfl, rfl⟩)
    case h_2 hphase => exact .settled v _ _ hphase (Or.inr ⟨rfl, rfl⟩)
    · exact .same

theorem endWait_state {seg : Step} (h : endWait s v request = some seg) : seg.state = s := by
  unfold endWait at h
  split at h <;> cases h <;> rfl

/-- **The step rule of the instance.** A verification begins, is accepted, returns, throws or is
settled, and nothing else changes the instance. -/
theorem state_moves (w : RpcWorld) (e : RpcEvent) :
    Moves opts w e ((machine opts).next w e).shared := by
  rcases next_cases (M := machine opts) w e with
    ⟨t, seg, hseg, hshared, -, -⟩ | ⟨p, rfl, hshared, -⟩ | ⟨hsame, -⟩
  · rw [hshared]
    rcases segment?_cases hseg with ⟨i, rfl, -, rfl⟩ | ⟨f, r, rfl, hf, hres⟩
    · cases i with
      | fetch request now => exact startFetch_moves
      | getInfo => exact .same
    · cases f with
      | verified request =>
        cases r <;> cases hres
        exact .same
      | waiting v request =>
        cases r with
        | resumed =>
          rw [endWait_state hres]
          exact .same
        | answered a => cases hres
      | asking =>
        cases r with
        | resumed => cases hres
        | answered a =>
          cases hres
          unfold endGetInfo
          split
          case isTrue haccepts =>
            exact .accepted a.verifiedMs
              ⟨a, vouches_of_accepts haccepts, rfl, Or.inr ⟨t, rfl⟩⟩
          · exact .same
  · rw [hshared]
    exact progress_moves p
  · rw [hsame]
    exact .same

/-! ## Phases -/

theorem lookup_setPhase (s : RpcState) (v u : ℕ) (new : Phase) :
    (setPhase s v new).lookup u =
      if u = v then (s.verifications.lookup u).map fun _ => new else s.verifications.lookup u := by
  unfold setPhase
  induction s.verifications with
  | nil => simp
  | cons x l ih =>
    rw [List.map_cons, List.lookup_cons, List.lookup_cons]
    by_cases hx : x.1 = v
    · by_cases hu : u = v
      · simp [hx, hu]
      · have hne : (u == v) = false := by simpa using hu
        simp only [hx, if_true, hne, if_neg hu] at ih ⊢
        exact ih
    · rw [if_neg hx]
      cases hu : u == x.1 with
      | true =>
        have hux : u ≠ v := fun heq => hx (by rw [← heq]; exact (beq_iff_eq.1 hu).symm)
        simp [hux]
      | false => exact ih

/-- The ids of the verifications were drawn in order, so the next one is new. -/
def Drawn (s : RpcState) : Prop := ∀ x ∈ s.verifications, x.1 < s.verifications.length

theorem lookup_began (hdrawn : Drawn s) (u : ℕ) :
    (s.verifications ++ [(s.verifications.length, Phase.asked)]).lookup u =
      if u = s.verifications.length then some .asked else s.verifications.lookup u := by
  rw [List.lookup_append]
  by_cases hu : u = s.verifications.length
  · have hnone : s.verifications.lookup u = none := by
      cases hlook : s.verifications.lookup u with
      | none => rfl
      | some phase =>
        have hlt := hdrawn _ (mem_of_lookup hlook)
        omega
    rw [hnone, if_pos hu, hu]
    simp
  · have hne : (u == s.verifications.length) = false := by simpa using hu
    rw [if_neg hu, List.lookup_cons, hne]
    cases s.verifications.lookup u <;> rfl

theorem Drawn.setPhase {l : List (ℕ × Phase)} {new : Phase}
    (hdrawn : ∀ x ∈ s.verifications, x.1 < s.verifications.length)
    (hl : l = VerifiedRpc.setPhase s v new) : ∀ x ∈ l, x.1 < l.length := by
  subst hl
  intro x hx
  rw [VerifiedRpc.setPhase, List.length_map]
  obtain ⟨y, hy, rfl⟩ := List.mem_map.1 hx
  have hlt := hdrawn y hy
  split
  case isTrue heq => exact heq ▸ hlt
  case isFalse => exact hlt

theorem drawn_next (hdrawn : Drawn w.shared) (e : RpcEvent) :
    Drawn ((machine opts).next w e).shared := by
  have hmoves : Moves opts w e ((machine opts).next w e).shared := state_moves w e
  generalize ((machine opts).next w e).shared = s' at hmoves
  cases hmoves with
  | same => exact hdrawn
  | began hidle =>
    intro x hx
    rw [List.length_append, List.length_singleton]
    rcases List.mem_append.1 hx with hx | hx
    · exact Nat.lt_succ_of_lt (hdrawn x hx)
    · rw [List.mem_singleton.1 hx]
      exact Nat.lt_succ_self _
  | accepted _ _ => exact hdrawn
  | returned v _ _ _ => exact Drawn.setPhase hdrawn rfl
  | threw v _ => exact Drawn.setPhase hdrawn rfl
  | settled v _ _ _ _ => exact Drawn.setPhase hdrawn rfl

/-- The `get_info` of the verification has returned, whether or not its promise is settled yet. -/
def Passed (s : RpcState) (v : ℕ) : Prop :=
  s.verifications.lookup v = some .returned ∨ s.verifications.lookup v = some .fulfilled

/-- A verification passes when a step accepts its answer. -/
theorem passed_next (hdrawn : Drawn w.shared) (hpassed : Passed ((machine opts).next w e).shared v) :
    Passed w.shared v ∨ ∃ verifiedMs, AcceptsAt opts (w, e) verifiedMs := by
  have hmoves : Moves opts w e ((machine opts).next w e).shared := state_moves w e
  generalize ((machine opts).next w e).shared = s' at hmoves hpassed
  cases hmoves with
  | same => exact Or.inl hpassed
  | began hidle =>
    simp only [Passed, lookup_began hdrawn] at hpassed
    by_cases hv : v = w.shared.verifications.length
    · simp [hv] at hpassed
    · simp only [if_neg hv] at hpassed
      exact Or.inl hpassed
  | accepted verifiedMs haccepts => exact Or.inr ⟨verifiedMs, haccepts⟩
  | returned u verifiedMs haccepts hphase => exact Or.inr ⟨verifiedMs, haccepts⟩
  | threw u hphase =>
    simp only [Passed, lookup_setPhase] at hpassed
    by_cases hv : v = u
    · simp [hv] at hpassed
    · simp only [if_neg hv] at hpassed
      exact Or.inl hpassed
  | settled u old new hphase hsettles =>
    simp only [Passed, lookup_setPhase] at hpassed
    by_cases hv : v = u
    · subst hv
      rcases hsettles with ⟨rfl, rfl⟩ | ⟨rfl, rfl⟩
      · exact Or.inl (Or.inl hphase)
      · simp at hpassed
    · simp only [if_neg hv] at hpassed
      exact Or.inl hpassed

/-! ## Suspended calls -/

/-- Task `t` is a data request that was made after `before`, and `after` since. The history is
split at its start. -/
structure Made (h before after : List (RpcWorld × RpcEvent)) (t : ℕ) (request : RpcRequest)
    (now : ℤ) : Prop where
  split : ∃ w, h = before ++ (w, .start (.fetch request now)) :: after ∧ w.started = t
  data : request.path ≠ VERIFY_PATH

/-- A verification was accepted less than the window before the request was made. It may have been
made for any call. -/
def FreshWhenMade (opts : VerifiedRpcOptions) (before : List (RpcWorld × RpcEvent)) (now : ℤ) :
    Prop := ∃ x ∈ before, ∃ verifiedMs, AcceptsAt opts x verifiedMs ∧
  now - verifiedMs < opts.freshnessMs

/-- A verification was accepted while the request was waiting, so after it was made. -/
def WhileWaiting (opts : VerifiedRpcOptions) (after : List (RpcWorld × RpcEvent)) : Prop :=
  ∃ x ∈ after, ∃ verifiedMs, AcceptsAt opts x verifiedMs

/-- What a suspended call has behind it: a fresh verification, or one that it waits on, and that
returned, if it has, while it was waiting. -/
def Held (opts : VerifiedRpcOptions) (h : List (RpcWorld × RpcEvent)) (s : RpcState) (t : ℕ) :
    Frame → Prop
  | .verified request => ∃ before after now, Made h before after t request now ∧
      FreshWhenMade opts before now
  | .waiting v request => ∃ before after now, Made h before after t request now ∧
      (Passed s v → WhileWaiting opts after)
  | .asking => True

/-- Where a verification and the suspended calls come from. It is the invariant of every run
without a late joiner. -/
structure Sound (opts : VerifiedRpcOptions) (h : List (RpcWorld × RpcEvent)) (w : RpcWorld) :
    Prop where
  drawn : Drawn w.shared
  inflight : ∀ v, w.shared.inflight = some v → ∃ phase,
    w.shared.verifications.lookup v = some phase ∧ phase ≠ .fulfilled ∧ phase ≠ .rejected
  verified : ∀ verifiedMs, w.shared.verifiedAtMs = some verifiedMs →
    ∃ x ∈ h, AcceptsAt opts x verifiedMs
  calls : ∀ tf ∈ w.tasks, Held opts h w.shared tf.1 tf.2

/-- No data request joins a verification that has returned and is not fresh any more. It concerns
the moment of the call only. -/
def Joins (opts : VerifiedRpcOptions) (w : RpcWorld) : RpcEvent → Prop
  | .start (.fetch request now) => request.path ≠ VERIFY_PATH → fresh opts w.shared now = false →
      ∀ v, w.shared.inflight = some v → w.shared.verifications.lookup v ≠ some .returned
  | _ => True

theorem Made.snoc {before after : List (RpcWorld × RpcEvent)} (hm : Made h before after t request now)
    (x : RpcWorld × RpcEvent) : Made (h ++ [x]) before (after ++ [x]) t request now := by
  obtain ⟨⟨w, rfl, ht⟩, hdata⟩ := hm
  exact ⟨⟨w, by simp, ht⟩, hdata⟩

/-- A suspended call stays what it is. -/
theorem Held.next {f : Frame} (hh : Held opts h w.shared t f) (hdrawn : Drawn w.shared)
    (e : RpcEvent) : Held opts (h ++ [(w, e)]) ((machine opts).next w e).shared t f := by
  cases f with
  | verified request =>
    obtain ⟨before, after, now, hm, hfresh⟩ := hh
    exact ⟨before, _, now, hm.snoc _, hfresh⟩
  | waiting v request =>
    obtain ⟨before, after, now, hm, hwaiting⟩ := hh
    refine ⟨before, _, now, hm.snoc _, fun hpassed => ?_⟩
    rcases passed_next hdrawn hpassed with hold | ⟨verifiedMs, haccepts⟩
    · obtain ⟨x, hx, hrest⟩ := hwaiting hold
      exact ⟨x, List.mem_append_left _ hx, hrest⟩
    · exact ⟨(w, e), by simp, verifiedMs, haccepts⟩
  | asking => trivial

/-- How a call of `fetch` is suspended. -/
inductive Suspends (opts : VerifiedRpcOptions) (s : RpcState) (request : RpcRequest) (now : ℤ) :
    Step → Prop
  | verified (hdata : request.path ≠ VERIFY_PATH) (hfresh : fresh opts s now = true) :
    Suspends opts s request now ⟨s, [], .inl (.verified request)⟩
  | joined (hdata : request.path ≠ VERIFY_PATH) (hstale : fresh opts s now = false) (v : ℕ)
    (hinflight : s.inflight = some v) :
    Suspends opts s request now ⟨s, [], .inl (.waiting v request)⟩
  | began (hdata : request.path ≠ VERIFY_PATH) (hidle : s.inflight = none) :
    Suspends opts s request now ⟨{ s with
        inflight := some s.verifications.length
        verifications := s.verifications ++ [(s.verifications.length, .asked)] },
      [.send getInfoRequest], .inl (.waiting s.verifications.length request)⟩
  | passed (hpath : request.path = VERIFY_PATH) :
    Suspends opts s request now ⟨s, [.send request], .inr .sent⟩

theorem startFetch_cases : Suspends opts s request now (startFetch opts s request now) := by
  unfold startFetch
  split
  case isTrue hdata =>
    unfold ensureVerified
    split
    case isTrue hfresh => exact .verified hdata hfresh
    case isFalse hstale =>
      split
      case h_1 v hinflight => exact .joined hdata (by simpa using hstale) v hinflight
      case h_2 hidle => exact .began hdata hidle
  case isFalse hpath => exact .passed (not_not.1 hpath)

/-- A call that goes on ends. -/
theorem resume_done {f f' : Frame} {r : Reply} {seg : Step}
    (h : (machine opts).resume f r s = some seg) : seg.next ≠ .inl f' := by
  intro hnext
  cases f with
  | verified request =>
    cases r <;> cases h
    cases hnext
  | waiting v request =>
    cases r with
    | resumed =>
      change endWait s v request = some seg at h
      unfold endWait at h
      split at h <;> cases h <;> cases hnext
    | answered a => cases h
  | asking =>
    cases r with
    | resumed => cases h
    | answered a =>
      cases h
      unfold endGetInfo at hnext
      split at hnext <;> cases hnext

/-- A verification in flight is not settled, and setting the phase of one keeps that. -/
theorem inflight_setPhase {new : Phase} (hs : Sound opts h w)
    (hnew : new ≠ .fulfilled ∧ new ≠ .rejected) {u : ℕ} (hu : w.shared.inflight = some u) :
    ∃ phase, (setPhase w.shared v new).lookup u = some phase ∧ phase ≠ .fulfilled ∧
      phase ≠ .rejected := by
  obtain ⟨phase, hphase, hrest⟩ := hs.inflight u hu
  rw [lookup_setPhase, hphase]
  split
  · exact ⟨new, rfl, hnew⟩
  · exact ⟨phase, rfl, hrest⟩

/-- **One step**, as long as no request joins a verification that has lapsed. Joining such a one is
the single way in which a request is sent without a fresh verification. -/
theorem Sound.step (hs : Sound opts h w) (hjoins : Joins opts w e) :
    Sound opts (h ++ [(w, e)]) ((machine opts).next w e) where
  drawn := drawn_next hs.drawn e
  -- a verification in flight has not been settled: by cases on what the step does to the instance
  inflight := by
    have hmoves : Moves opts w e ((machine opts).next w e).shared := state_moves w e
    generalize ((machine opts).next w e).shared = s' at hmoves
    intro u hu
    cases hmoves with
    | same => exact hs.inflight u hu
    | began hidle =>
      rw [← Option.some.inj hu]
      exact ⟨.asked, by simp [lookup_began hs.drawn], by simp⟩
    | accepted _ _ => exact hs.inflight u hu
    | returned v _ _ _ => exact inflight_setPhase hs (by simp) hu
    | threw v _ => exact inflight_setPhase hs (by simp) hu
    | settled v _ _ _ _ => cases hu
  -- a recorded time comes from a verification that was accepted in the history
  verified := by
    have hmoves : Moves opts w e ((machine opts).next w e).shared := state_moves w e
    generalize ((machine opts).next w e).shared = s' at hmoves
    intro verifiedMs hverified
    have hold : w.shared.verifiedAtMs = some verifiedMs →
        ∃ x ∈ h ++ [(w, e)], AcceptsAt opts x verifiedMs := by
      intro heq
      obtain ⟨x, hx, haccepts⟩ := hs.verified verifiedMs heq
      exact ⟨x, List.mem_append_left _ hx, haccepts⟩
    cases hmoves with
    | same => exact hold hverified
    | began _ => exact hold hverified
    | accepted acceptedMs haccepts =>
      rw [← Option.some.inj hverified]
      exact ⟨(w, e), by simp, haccepts⟩
    | returned v acceptedMs haccepts _ =>
      rw [← Option.some.inj hverified]
      exact ⟨(w, e), by simp, haccepts⟩
    | threw _ _ => exact hold hverified
    | settled _ _ _ _ _ => exact hold hverified
  -- a call is new, or it stood there before and its obligations only got easier
  calls := by
    rintro ⟨t, f⟩ htf
    rcases mem_tasks_next htf with htf | ⟨seg, hseg, hnext⟩
    · exact (hs.calls _ htf).next hs.drawn e
    · rw [next_shared hseg]
      rcases segment?_cases hseg with ⟨i, rfl, ht, rfl⟩ | ⟨f', r, -, -, hres⟩
      · cases i with
        | getInfo =>
          cases hnext
          trivial
        -- a data request that starts now is fresh, joins, or begins a verification of its own
        | fetch request now =>
          have hmade : request.path ≠ VERIFY_PATH →
              Made (h ++ [(w, .start (.fetch request now))]) h [] t request now :=
            fun hdata => ⟨⟨w, rfl, ht.symm⟩, hdata⟩
          have hsuspends : Suspends opts w.shared request now
            ((machine opts).start (.fetch request now) w.shared) := startFetch_cases
          generalize (machine opts).start (.fetch request now) w.shared = seg at hsuspends hnext
          cases hsuspends with
          | verified hdata hfresh =>
            cases hnext
            refine ⟨h, [], now, hmade hdata, ?_⟩
            unfold fresh at hfresh
            split at hfresh
            · cases hfresh
            case h_2 verifiedMs hverified =>
              obtain ⟨x, hx, haccepts⟩ := hs.verified verifiedMs hverified
              exact ⟨x, hx, verifiedMs, haccepts, by simpa using hfresh⟩
          | joined hdata hstale v hinflight =>
            cases hnext
            refine ⟨h, [], now, hmade hdata, fun hpassed => ?_⟩
            -- what it joins has not returned yet, by the condition on the run
            obtain ⟨phase, hphase, hfulfilled, -⟩ := hs.inflight v hinflight
            rcases hpassed with hreturned | hpassed
            · exact absurd hreturned (hjoins hdata hstale v hinflight)
            · rw [hphase, Option.some.injEq] at hpassed
              exact absurd hpassed hfulfilled
          | began hdata hidle =>
            cases hnext
            refine ⟨h, [], now, hmade hdata, fun hpassed => ?_⟩
            simp [Passed, lookup_began hs.drawn] at hpassed
          | passed hpath => cases hnext
      · exact absurd hnext (resume_done hres)

theorem sound_run (hjoins : ∀ pre e post, es = pre ++ e :: post →
    Joins opts ((machine opts).run (boot wrapped) pre) e) :
    Sound opts ((machine opts).history (boot wrapped) es) ((machine opts).run (boot wrapped) es) :=
  run_invariant (P := Sound opts) (C := fun _ w e => Joins opts w e)
    ⟨by simp [Drawn, boot, wrapped], by simp [boot, wrapped], by simp [boot, wrapped],
      by simp [boot]⟩
    (fun _ _ _ hs hj => hs.step hj) hjoins

/-! ## What leaves the instance -/

/-- A data request is sent by a call that goes on. -/
theorem sent_cases (hdata : request.path ≠ VERIFY_PATH)
    (hout : (t, .effect (.send request)) ∈ (machine opts).outputs w e) :
    ∃ f, w.tasks.lookup t = some f ∧ (f = .verified request ∨
      ∃ v, f = .waiting v request ∧ w.shared.verifications.lookup v = some .fulfilled) := by
  obtain ⟨seg, hseg, ho⟩ := mem_outputs.1 hout
  have hsends : .send request ∈ seg.effects := by
    rcases List.mem_append.1 ho with ho | ho
    · obtain ⟨o, ho, heq⟩ := List.mem_map.1 ho
      exact (Output.effect.injEq o _ ▸ heq) ▸ ho
    · split at ho <;> simp at ho
  rcases segment?_cases hseg with ⟨i, -, -, rfl⟩ | ⟨f, r, -, hf, hres⟩
  · -- nothing but `get_info` is sent by a call that starts
    have hverify : request.path = VERIFY_PATH := by
      cases i with
      | getInfo =>
        have heq : request = getInfoRequest := Effect.send.inj (List.mem_singleton.1 hsends)
        rw [heq, getInfoRequest]
      | fetch request' now =>
        have hsuspends : Suspends opts w.shared request' now
          ((machine opts).start (.fetch request' now) w.shared) := startFetch_cases
        generalize (machine opts).start (.fetch request' now) w.shared = seg at hsuspends hsends
        cases hsuspends with
        | verified _ _ => cases hsends
        | joined _ _ v _ => cases hsends
        | began _ _ =>
          have heq : request = getInfoRequest := Effect.send.inj (List.mem_singleton.1 hsends)
          rw [heq, getInfoRequest]
        | passed hpath => rw [Effect.send.inj (List.mem_singleton.1 hsends), hpath]
    exact absurd hverify hdata
  -- a call that goes on sends its own request, after what it waited for has passed
  · refine ⟨f, hf, ?_⟩
    cases f with
    | verified request' =>
      cases r <;> cases hres
      rw [Effect.send.inj (List.mem_singleton.1 hsends)]
      exact Or.inl rfl
    | waiting v request' =>
      cases r with
      | resumed =>
        change endWait w.shared v request' = some seg at hres
        unfold endWait at hres
        split at hres
        case h_1 hphase =>
          cases hres
          rw [Effect.send.inj (List.mem_singleton.1 hsends)]
          exact Or.inr ⟨v, rfl, hphase⟩
        · cases hres
          cases hsends
        · cases hres
      | answered a => cases hres
    -- the call that verifies sends nothing when it is answered
    | asking =>
      cases r with
      | resumed => cases hres
      | answered a =>
        cases hres
        unfold endGetInfo at hsends
        split at hsends <;> cases hsends

/-! ## The clock -/

/-- The readings of the clock at a step. -/
def readings : RpcEvent → List ℤ
  | .start (.fetch _ now) => [now]
  | .admin (.answered _ a) => [a.checkedMs, a.verifiedMs]
  | .resume _ (.answered a) => [a.checkedMs, a.verifiedMs]
  | _ => []

/-- The clock does not go back. -/
def Clocked (es : List RpcEvent) : Prop := (es.flatMap readings).Pairwise (· ≤ ·)

theorem AcceptsAt.reading {x : RpcWorld × RpcEvent} {verifiedMs : ℤ}
    (haccepts : AcceptsAt opts x verifiedMs) : verifiedMs ∈ readings x.2 := by
  obtain ⟨a, -, rfl, ⟨v, he⟩ | ⟨t, he⟩⟩ := haccepts
  · simp [he, readings]
  · simp [he, readings]

/-- A verification before a request was not accepted later than it. -/
theorem Clocked.before {before after : List (RpcWorld × RpcEvent)} {x : RpcWorld × RpcEvent}
    {verifiedMs : ℤ} {w₀ : RpcWorld} (hc : Clocked es)
    (hm : Made ((machine opts).history w₀ es) before after t request now) (hx : x ∈ before)
    (haccepts : AcceptsAt opts x verifiedMs) : verifiedMs ≤ now := by
  obtain ⟨⟨w, hsplit, -⟩, -⟩ := hm
  have hes : es = before.map Prod.snd ++ .start (.fetch request now) :: after.map Prod.snd := by
    rw [← history_events (M := machine opts) w₀ es, hsplit, List.map_append, List.map_cons]
  rw [Clocked, hes, List.flatMap_append, List.flatMap_cons] at hc
  have hreading : verifiedMs ∈ (before.map Prod.snd).flatMap readings :=
    List.mem_flatMap.2 ⟨x.2, List.mem_map_of_mem hx, haccepts.reading⟩
  exact (List.pairwise_append.1 hc).2.2 _ hreading _ (by simp [readings])

/-! ## A verification that fails -/

/-- The `get_info` of the verification has thrown. Its promise is rejected, or will be. -/
def Failed (s : RpcState) (v : ℕ) : Prop :=
  s.verifications.lookup v = some .threw ∨ s.verifications.lookup v = some .rejected

theorem failed_next (hdrawn : Drawn w.shared) (hfailed : Failed w.shared v) (e : RpcEvent) :
    Failed ((machine opts).next w e).shared v := by
  have hmoves : Moves opts w e ((machine opts).next w e).shared := state_moves w e
  generalize ((machine opts).next w e).shared = s' at hmoves
  cases hmoves with
  | same => exact hfailed
  | began hidle =>
    have hne : v ≠ w.shared.verifications.length := by
      rintro rfl
      rcases hfailed with hphase | hphase
      · exact absurd (hdrawn _ (mem_of_lookup hphase)) (lt_irrefl _)
      · exact absurd (hdrawn _ (mem_of_lookup hphase)) (lt_irrefl _)
    simp only [Failed, lookup_began hdrawn, if_neg hne]
    exact hfailed
  | accepted _ _ => exact hfailed
  | returned u _ _ hphase =>
    have hne : v ≠ u := by
      rintro rfl
      simp [Failed, hphase] at hfailed
    simp only [Failed, lookup_setPhase, if_neg hne]
    exact hfailed
  | threw u hphase =>
    have hne : v ≠ u := by
      rintro rfl
      simp [Failed, hphase] at hfailed
    simp only [Failed, lookup_setPhase, if_neg hne]
    exact hfailed
  | settled u old new hphase hsettles =>
    by_cases hv : v = u
    · subst hv
      rcases hsettles with ⟨rfl, rfl⟩ | ⟨-, rfl⟩
      · simp [Failed, hphase] at hfailed
      · exact Or.inr (by rw [lookup_setPhase, if_pos rfl, hphase]; rfl)
    · simp only [Failed, lookup_setPhase, if_neg hv]
      exact hfailed

/-- Task `t` was made already, and if it has not ended it waits on `v`, which has failed. So it
cannot be sent. -/
structure Doomed (w : RpcWorld) (t v : ℕ) : Prop where
  drawn : Drawn w.shared
  failed : Failed w.shared v
  made : t < w.started
  waits : ∀ f, (t, f) ∈ w.tasks → ∃ request, f = .waiting v request

theorem Doomed.step (hd : Doomed w t v) (e : RpcEvent) : Doomed ((machine opts).next w e) t v where
  drawn := drawn_next hd.drawn e
  failed := failed_next hd.drawn hd.failed e
  made := lt_of_lt_of_le hd.made started_next
  waits := by
    intro f hf
    rcases mem_tasks_next hf with hold | ⟨seg, hseg, hnext⟩
    · exact hd.waits f hold
    · rcases segment?_cases hseg with ⟨i, -, ht, -⟩ | ⟨f', r, -, -, hres⟩
      · have hmade : t < w.started := hd.made
        have hnew : t = w.started := ht
        omega
      · exact absurd hnext (resume_done hres)

/-- All that a call which waits on it still lets out is its rejection. -/
theorem Doomed.output (hd : Doomed w t v) {o : Output Effect Result}
    (hout : (t, o) ∈ (machine opts).outputs w e) : o = .done .rejected := by
  obtain ⟨seg, hseg, ho⟩ := mem_outputs.1 hout
  rcases segment?_cases hseg with ⟨i, -, ht, -⟩ | ⟨f, r, -, hf, hres⟩
  · have hmade : t < w.started := hd.made
    omega
  · obtain ⟨request, rfl⟩ := hd.waits f (mem_of_lookup hf)
    cases r with
    | answered a => cases hres
    | resumed =>
      change endWait w.shared v request = some seg at hres
      rcases hd.failed with hphase | hphase
      · simp [endWait, hphase] at hres
      · simp only [endWait, hphase, Option.some.injEq] at hres
        subst hres
        simpa [Segment.outputs] using ho

theorem Doomed.run (hd : Doomed w t v) (es : List RpcEvent) {o : Output Effect Result}
    (hout : (t, o) ∈ (machine opts).emitted w es) : o = .done .rejected := by
  induction es generalizing w with
  | nil => cases hout
  | cons e es ih =>
    rw [emitted_cons] at hout
    rcases List.mem_append.1 hout with hout | hout
    · exact hd.output hout
    · exact ih (hd.step e) hout

/-- Once the promise of a verification that has failed is settled, a call that waits on it is
rejected. -/
theorem settled_rejects (hf : w.tasks.lookup t = some (.waiting v request))
    (hfailed : Failed w.shared v) :
    (machine opts).outputs ((machine opts).next w (.admin (.settled v))) (.resume t .resumed) =
      [(t, .done .rejected)] := by
  have hphase : (progress opts w.shared (.settled v)).verifications.lookup v = some .rejected := by
    rcases hfailed with hphase | hphase
    · simp [progress, hphase, lookup_setPhase]
    · simp [progress, hphase]
  have htasks : ((machine opts).next w (.admin (.settled v))).tasks.lookup t =
      some (.waiting v request) := hf
  have hseg : (machine opts).segment? ((machine opts).next w (.admin (.settled v)))
      (.resume t .resumed) =
        some (t, ⟨progress opts w.shared (.settled v), [], .inr .rejected⟩) := by
    refine segment?_resume.2 ⟨rfl, _, htasks, ?_⟩
    change endWait (progress opts w.shared (.settled v)) v request = _
    simp only [endWait, hphase]
  rw [Machine.outputs, hseg]
  rfl

theorem drawn_run (es : List RpcEvent) : Drawn ((machine opts).run (boot wrapped) es).shared := by
  induction es using List.reverseRecOn with
  | nil => simp [Drawn, Machine.run, boot, wrapped]
  | append_singleton es e ih =>
    rw [run_snoc]
    exact drawn_next ih e

theorem doomed_of_waiting
    (hf : ((machine opts).run (boot wrapped) es).tasks.lookup t = some (.waiting v request))
    (hfailed : Failed ((machine opts).run (boot wrapped) es).shared v) :
    Doomed ((machine opts).run (boot wrapped) es) t v := by
  have hwf : ((machine opts).run (boot wrapped) es).WF := wf_run (wf_boot wrapped) es
  refine ⟨drawn_run es, hfailed, hwf.drawn _ (mem_of_lookup hf), fun f hmem => ⟨request, ?_⟩⟩
  have hlookup := (lookup_iff_mem hwf.nodup).2 hmem
  rw [hf, Option.some.injEq] at hlookup
  exact hlookup.symm

/-- The verification that let a data request out. -/
theorem sent_verified (hs : Sound opts h w) (hdata : request.path ≠ VERIFY_PATH)
    (hout : (t, .effect (.send request)) ∈ (machine opts).outputs w e) :
    ∃ before after now, Made h before after t request now ∧
      (WhileWaiting opts after ∨ FreshWhenMade opts before now) := by
  obtain ⟨f, hf, hframe⟩ := sent_cases hdata hout
  have hheld : Held opts h w.shared t f := hs.calls _ (mem_of_lookup hf)
  rcases hframe with rfl | ⟨v, rfl, hphase⟩
  · obtain ⟨before, after, now, hmade, hfresh⟩ := hheld
    exact ⟨before, after, now, hmade, Or.inr hfresh⟩
  · obtain ⟨before, after, now, hmade, hwaiting⟩ := hheld
    exact ⟨before, after, now, hmade, Or.inl (hwaiting (Or.inr hphase))⟩

end VerifiedRpc

open VerifiedRpc in
/-- **Verified before use.** With a monotone clock, in every run in which no data request joins a
verification that has returned and is not fresh any more: a data request that is sent was made
before, and a verification was accepted since, or less than `freshnessMs` before it was made. A
call that waits on a verification that has failed lets out nothing but its rejection, and it is
rejected once the promise is settled. -/
theorem verified_before_use (opts : VerifiedRpcOptions) (es : List RpcEvent)
    (hclock : Clocked es) (hjoins : ∀ pre e post, es = pre ++ e :: post →
      Joins opts ((machine opts).run (boot wrapped) pre) e) :
    (∀ pre e post t request, es = pre ++ e :: post → request.path ≠ VERIFY_PATH →
      (t, .effect (.send request)) ∈
        (machine opts).outputs ((machine opts).run (boot wrapped) pre) e →
      ∃ before after now, Made ((machine opts).history (boot wrapped) pre) before after t request now ∧
        ((∃ x ∈ after, ∃ verifiedMs, AcceptsAt opts x verifiedMs) ∨
          ∃ x ∈ before, ∃ verifiedMs, AcceptsAt opts x verifiedMs ∧ verifiedMs ≤ now ∧
            now - verifiedMs < opts.freshnessMs)) ∧
    ∀ pre post t v request, es = pre ++ post →
      ((machine opts).run (boot wrapped) pre).tasks.lookup t = some (.waiting v request) →
      Failed ((machine opts).run (boot wrapped) pre).shared v →
      (∀ o, (t, o) ∈ (machine opts).emitted ((machine opts).run (boot wrapped) pre) post →
        o = .done .rejected) ∧
      (machine opts).outputs ((machine opts).next ((machine opts).run (boot wrapped) pre)
        (.admin (.settled v))) (.resume t .resumed) = [(t, .done .rejected)] := by
  refine ⟨?_, ?_⟩
  · intro pre e post t request hes hdata hout
    have hpre : Clocked pre := by
      rw [Clocked, hes, List.flatMap_append] at hclock
      exact (List.pairwise_append.1 hclock).1
    have hs : VerifiedRpc.Sound opts ((machine opts).history (boot wrapped) pre)
        ((machine opts).run (boot wrapped) pre) :=
      sound_run fun pre' e' post' hpre' => hjoins pre' e' (post' ++ e :: post) (by
        rw [hes, hpre', List.append_assoc, List.cons_append])
    obtain ⟨before, after, now, hmade, hwaiting | ⟨x, hx, verifiedMs, haccepts, hfresh⟩⟩ :=
      sent_verified hs hdata hout
    · exact ⟨before, after, now, hmade, Or.inl hwaiting⟩
    · exact ⟨before, after, now, hmade, Or.inr
        ⟨x, hx, verifiedMs, haccepts, hpre.before hmade hx haccepts, hfresh⟩⟩
  · intro pre post t v request hes hf hfailed
    exact ⟨fun o hout => (doomed_of_waiting hf hfailed).run post hout, settled_rejects hf hfailed⟩

/-! ## Two runs -/

namespace Late

open VerifiedRpc

/-- A window of five milliseconds. -/
def opts : VerifiedRpcOptions where
  chainId := js "384d"
  freshnessMs := 5
  maxHeadLagMs := DEFAULT_MAX_HEAD_LAG_MS
  dateParse text := if text = js "1970-01-01T00:00:00.000Z" then some 0 else none

def info : Json := .obj .ordinary
  [(js "chain_id", .str (js "384d")), (js "head_block_time", .str (js "1970-01-01T00:00:00.000"))]

/-- The answer of a sound endpoint. -/
def sound : VerifiedRpc.Answer := ⟨some info, 10, 10⟩

def rows : RpcRequest := ⟨js "/v1/chain/get_table_rows", .null⟩

def abi : RpcRequest := ⟨js "/v1/chain/get_abi", .null⟩

/-- Two requests, one after the other, while `get_info` is under way. -/
def shared : List RpcEvent :=
  [.start (.fetch rows 0), .start (.fetch abi 1), .admin (.answered 0 sound), .admin (.settled 0)]

/-- Both are let out. -/
theorem verified_before_use_shared : ∃ before after now,
    Made ((machine opts).history (boot wrapped) shared) before after 1 abi now ∧
      ((∃ x ∈ after, ∃ verifiedMs, AcceptsAt opts x verifiedMs) ∨
        ∃ x ∈ before, ∃ verifiedMs, AcceptsAt opts x verifiedMs ∧ verifiedMs ≤ now ∧
          now - verifiedMs < opts.freshnessMs) := by
  have hclock : Clocked (shared ++ [.resume 1 .resumed]) := by
    simp [Clocked, shared, readings, sound]
  refine (verified_before_use opts (shared ++ [.resume 1 .resumed]) hclock ?_).1 shared
    (.resume 1 .resumed) [] 1 abi rfl (by decide) (mem_outputs.2 ⟨_, rfl, List.mem_cons_self⟩)
  intro pre e post hes
  cases e with
  | resume t r => trivial
  | admin p => trivial
  | start call =>
    -- no verification has returned when a request is made
    rcases pre with _ | ⟨e₁, _ | ⟨e₂, _ | ⟨e₃, _ | ⟨e₄, _ | ⟨e₅, pre⟩⟩⟩⟩⟩
    · obtain rfl : .fetch rows 0 = call := Event.start.inj (List.cons.inj hes).1
      intro _ _ v hinflight
      cases hinflight
    · obtain ⟨rfl, hrest⟩ := List.cons.inj hes
      obtain rfl : .fetch abi 1 = call := Event.start.inj (List.cons.inj hrest).1
      intro _ _ v hinflight
      cases hinflight
      decide
    all_goals simp [shared] at hes

/-- The second request is made after the answer, before the promise is settled. -/
def joined : List RpcEvent :=
  [.start (.fetch rows 0), .admin (.answered 0 sound), .start (.fetch abi 20), .admin (.settled 0)]

theorem history_joined : (machine opts).history (boot wrapped) joined =
    [(boot wrapped, .start (.fetch rows 0)),
      ((machine opts).run (boot wrapped) (joined.take 1), .admin (.answered 0 sound)),
      ((machine opts).run (boot wrapped) (joined.take 2), .start (.fetch abi 20)),
      ((machine opts).run (boot wrapped) (joined.take 3), .admin (.settled 0))] := rfl

theorem made_joined {before after : List (RpcWorld × RpcEvent)} {now : ℤ}
    (hm : Made ((machine opts).history (boot wrapped) joined) before after 1 abi now) :
    now = 20 ∧ before = ((machine opts).history (boot wrapped) joined).take 2 ∧
      after = ((machine opts).history (boot wrapped) joined).drop 3 := by
  obtain ⟨⟨w, hsplit, hstarted⟩, -⟩ := hm
  rw [history_joined] at hsplit ⊢
  rcases before with _ | ⟨x₁, _ | ⟨x₂, _ | ⟨x₃, _ | ⟨x₄, before⟩⟩⟩⟩
  · have hfirst := (Prod.mk.inj (List.cons.inj hsplit).1).1
    rw [← hfirst] at hstarted
    cases hstarted
  · have hevent := (Prod.mk.inj (List.cons.inj (List.cons.inj hsplit).2).1).2
    cases hevent
  · obtain ⟨rfl, hrest⟩ := List.cons.inj hsplit
    obtain ⟨rfl, hrest'⟩ := List.cons.inj hrest
    obtain ⟨hthird, rfl⟩ := List.cons.inj hrest'
    have hcall := Event.start.inj (Prod.mk.inj hthird).2
    exact ⟨(VerifiedRpc.Call.fetch.inj hcall).2.symm, rfl, rfl⟩
  · have hfourth := (List.cons.inj (List.cons.inj (List.cons.inj (List.cons.inj hsplit).2).2).2).1
    cases (Prod.mk.inj hfourth).2
  · have hrest := (List.cons.inj (List.cons.inj (List.cons.inj (List.cons.inj hsplit).2).2).2).2
    simp at hrest

/-- **Joined too late.** The request is made ten milliseconds after the only verification, joins
it and is sent. -/
theorem joins_lapsed :
    Clocked (joined ++ [.resume 1 .resumed]) ∧ abi.path ≠ VERIFY_PATH ∧
    (1, .effect (.send abi)) ∈ (machine opts).outputs ((machine opts).run (boot wrapped) joined)
      (.resume 1 .resumed) ∧
    ∀ before after now,
      Made ((machine opts).history (boot wrapped) joined) before after 1 abi now →
      ¬ ((∃ x ∈ after, ∃ verifiedMs, AcceptsAt opts x verifiedMs) ∨
        ∃ x ∈ before, ∃ verifiedMs, AcceptsAt opts x verifiedMs ∧
          now - verifiedMs < opts.freshnessMs) := by
  have hclock : Clocked (joined ++ [.resume 1 .resumed]) := by
    simp [Clocked, joined, readings, sound]
  refine ⟨hclock, by decide, mem_outputs.2 ⟨_, rfl, List.mem_cons_self⟩, ?_⟩
  intro before after now hm
  obtain ⟨rfl, rfl, rfl⟩ := made_joined hm
  rw [history_joined]
  rintro (⟨x, hx, verifiedMs, haccepts⟩ | ⟨x, hx, verifiedMs, haccepts, hfresh⟩)
  · have hreading := haccepts.reading
    rw [List.mem_singleton.1 hx] at hreading
    cases hreading
  · have hreading := haccepts.reading
    have hfresh : 20 - verifiedMs < 5 := hfresh
    rcases List.mem_cons.1 hx with rfl | hx
    · -- the first request reads the clock, and accepts nothing
      obtain ⟨a, -, -, ⟨v, he⟩ | ⟨t, he⟩⟩ := haccepts
      · cases he
      · cases he
    · rw [List.mem_singleton.1 hx] at hreading
      simp only [readings, sound, List.mem_cons, List.not_mem_nil, or_false, or_self] at hreading
      omega

end Late

end Signbox
