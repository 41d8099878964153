import Signbox.Proof.Reply
import Signbox.Proof.Rollback

/-!
# Anti-replay

Sign requests and standalone broadcasts of an agent share one table of nonces. A nonce stays
in it until its request has expired, and no request is handled once it has: the window check
lets `expiresAt` pass only above the clock, and the table lets a nonce go only at or below it.

* `registerIn_live`, `registerIn_ok`, `registerIn_length`: one registration.
* `presented_spec`, `presented_congr`: what a request presents is its own, and depends on its
  agent alone. `next_nonces`: what a step does to the nonces.
* `anti_replay`: what holds over a run, for any arrival order.
-/

namespace Signbox

open Guard Async

namespace NonceCache

variable {cap : ℕ} {entries : List (JsString × ℤ)} {nonce nonce' : JsString}
variable {expiry expiresAt nowMs : ℤ} {cache : NonceCache} {agent other : JsString}

/-! ## One table -/

theorem lookup_purge (hlive : nowMs < expiry) (h : entries.lookup nonce = some expiry) :
    (purge entries nowMs).lookup nonce = some expiry := by
  induction entries with
  | nil => cases h
  | cons entry entries ih =>
    obtain ⟨k, v⟩ := entry
    rw [List.lookup_cons] at h
    unfold purge
    by_cases hk : nonce = k
    · subst hk
      simp only [beq_self_eq_true, Option.some.injEq] at h
      subst h
      simp [hlive]
    · have hne : (nonce == k) = false := by simpa using hk
      rw [hne] at h
      rw [List.filter_cons]
      split
      · rw [List.lookup_cons, hne]
        exact ih h
      · exact ih h

/-- **A live nonce is kept** by the registration of any nonce. The purge drops only what has
expired, and at capacity the registration is refused instead of making room. -/
theorem registerIn_live (hlive : nowMs < expiry) (h : entries.lookup nonce' = some expiry) :
    (registerIn cap entries nonce expiresAt nowMs).1.lookup nonce' = some expiry := by
  unfold registerIn
  split
  · exact h
  case isFalse hnot =>
    -- the nonce that is registered is not live, so it is another one
    have hne : nonce' ≠ nonce := by
      rintro rfl
      exact hnot ⟨expiry, by rw [h]; rfl, hlive⟩
    split
    · rw [lookup_mapSet, if_neg hne]
      exact h
    · dsimp only
      split
      · rw [lookup_mapSet, if_neg hne]
        exact lookup_purge hlive h
      · exact lookup_purge hlive h

/-- **A nonce is registered** only when it was not live, and is then remembered until its request
expires. -/
theorem registerIn_ok (h : (registerIn cap entries nonce expiresAt nowMs).2 = .ok) :
    (registerIn cap entries nonce expiresAt nowMs).1.lookup nonce = some expiresAt ∧
      ∀ expiry, entries.lookup nonce = some expiry → expiry ≤ nowMs := by
  unfold registerIn at h ⊢
  split at h
  · cases h
  case isFalse hnot =>
    have hold : ∀ expiry, entries.lookup nonce = some expiry → expiry ≤ nowMs :=
      fun expiry hexpiry => not_lt.1 fun hlt => hnot ⟨expiry, hexpiry, hlt⟩
    refine ⟨?_, hold⟩
    rw [if_neg hnot]
    split at h
    case isTrue hroom => rw [if_pos hroom, lookup_mapSet, if_pos rfl]
    case isFalse hroom =>
      rw [if_neg hroom]
      dsimp only at h ⊢
      split at h
      case isTrue hswept => rw [if_pos hswept, lookup_mapSet, if_pos rfl]
      · cases h

theorem registerIn_length (h : entries.length ≤ cap) :
    (registerIn cap entries nonce expiresAt nowMs).1.length ≤ cap := by
  have hpurge : (purge entries nowMs).length ≤ entries.length := List.length_filter_le ..
  unfold registerIn
  split
  · exact h
  · split
    · exact (length_mapSet_le ..).trans (by omega)
    · dsimp only
      split
      · exact (length_mapSet_le ..).trans (by omega)
      · exact hpurge.trans h

/-! ## The tables of all agents -/

/-- The table of an agent. -/
def tableOf (cache : NonceCache) (agent : JsString) : List (JsString × ℤ) :=
  (cache.perAgent.lookup agent).getD []

theorem register_state :
    (cache.register agent nonce expiresAt nowMs).2 =
      (registerIn cache.maxEntriesPerAgent (cache.tableOf agent) nonce expiresAt nowMs).2 := rfl

theorem tableOf_register :
    (cache.register agent nonce expiresAt nowMs).1.tableOf other =
      if other = agent then
        (registerIn cache.maxEntriesPerAgent (cache.tableOf agent) nonce expiresAt nowMs).1
      else cache.tableOf other := by
  show (List.lookup other (mapSet agent _ cache.perAgent)).getD [] = _
  rw [lookup_mapSet]
  split
  · rfl
  · rfl

end NonceCache

namespace SignBoxDaemon

variable {d : SignBoxDaemon} {s s' : DaemonState} {m : Moment}

/-! ## The anti-replay step of a request -/

/-- A request that the step does not let pass ends there. -/
theorem start_refused {x : Line × Moment} {p : Presented} (hp : d.presented? s x = some p)
    (hno : (p.register s.nonces).2 ≠ .ok) : ∃ requestId,
      (d.start x s).next = .inr (.sign (.denied requestId nonceReused)) ∨
        (d.start x s).next = .inr (.broadcast (.denied requestId nonceReused)) := by
  unfold presented? at hp
  unfold start
  split at hp
  case h_1 hop =>
    obtain ⟨request, hparse, hp⟩ := Option.bind_eq_some_iff.1 hp
    split at hp
    case h_1 runtime hgates =>
      cases hp
      refine ⟨request.requestId, Or.inl ?_⟩
      unfold startSign enter
      simp only [hop, hparse, hgates]
      split
      case h_1 nonces hnonce => exact absurd (congrArg Prod.snd hnonce) hno
      case h_2 => rfl
    · cases hp
  case h_2 hop =>
    obtain ⟨request, hparse, hp⟩ := Option.bind_eq_some_iff.1 hp
    split at hp
    case h_1 runtime hgates =>
      cases hp
      refine ⟨request.requestId, Or.inr ?_⟩
      unfold startBroadcast relaySigned
      simp only [hop, hparse, hgates]
      split
      case h_1 nonces hnonce => exact absurd (congrArg Prod.snd hnonce) hno
      case h_2 => rfl
    · cases hp
  · cases hp

/-- The agent a request line names. -/
def requester? (line : Line) : Option JsString :=
  match peekOp line with
  | .sign => (parseSignRequest line).map SignRequest.agent
  | .broadcast => (parseBroadcastRequest line).map BroadcastRequest.agent
  | _ => none

/-- What a request presents is its own, at the clock, inside its window. -/
theorem presented_spec {x : Line × Moment} {p : Presented} (h : d.presented? s x = some p) :
    requester? x.1 = some p.agent ∧ p.nowMs = x.2.nowMs ∧ p.nowMs < p.expiresAt := by
  unfold presented? at h
  have hwindow : ∀ requestedAt expiresAt, d.windowValid x.2.nowMs requestedAt expiresAt = true →
      x.2.nowMs < expiresAt := by
    intro requestedAt expiresAt hvalid
    unfold windowValid at hvalid
    simp only [decide_eq_true_eq, not_or, not_le] at hvalid
    exact hvalid.1
  split at h
  case h_1 hop =>
    obtain ⟨request, hparse, h⟩ := Option.bind_eq_some_iff.1 h
    split at h
    case h_1 runtime hgates =>
      cases h
      have hg := signGates_ok.1 hgates
      refine ⟨?_, rfl, hwindow _ _ hg.window⟩
      rw [requester?, hop]
      simp only [hparse, Option.map_some, runtime?_agent hg.registered]
    · cases h
  case h_2 hop =>
    obtain ⟨request, hparse, h⟩ := Option.bind_eq_some_iff.1 h
    split at h
    case h_1 runtime hgates =>
      cases h
      have hg := broadcastGates_ok.1 hgates
      refine ⟨?_, rfl, hwindow _ _ hg.window⟩
      rw [requester?, hop]
      simp only [hparse, Option.map_some, runtime?_agent hg.registered]
    · cases h
  · cases h

/-- What a line presents, apart from the clock, is in the line. -/
theorem presented_line {line : Line} {m m' : Moment} {p p' : Presented}
    (h : d.presented? s (line, m) = some p) (h' : d.presented? s' (line, m') = some p') :
    p.agent = p'.agent ∧ p.nonce = p'.nonce ∧ p.expiresAt = p'.expiresAt := by
  have hagent := (presented_spec h).1.symm.trans (presented_spec h').1
  refine ⟨Option.some.inj hagent, ?_⟩
  unfold presented? at h h'
  split at h
  case h_1 hop =>
    rw [hop] at h'
    obtain ⟨request, hparse, h⟩ := Option.bind_eq_some_iff.1 h
    rw [hparse] at h'
    dsimp only [Option.bind_some] at h'
    split at h <;> split at h' <;> cases h <;> cases h'
    exact ⟨rfl, rfl⟩
  case h_2 hop =>
    rw [hop] at h'
    obtain ⟨request, hparse, h⟩ := Option.bind_eq_some_iff.1 h
    rw [hparse] at h'
    dsimp only [Option.bind_some] at h'
    split at h <;> split at h' <;> cases h <;> cases h'
    exact ⟨rfl, rfl⟩
  · cases h

/-- Only the entry of the agent matters to what a request presents. -/
theorem presented_congr {x : Line × Moment} {agent : JsString} (hagent : requester? x.1 = some agent)
    (h : s.runtime? agent = s'.runtime? agent) : d.presented? s x = d.presented? s' x := by
  unfold requester? at hagent
  unfold presented?
  split
  case h_1 hop =>
    rw [hop] at hagent
    obtain ⟨request, hparse, rfl⟩ := Option.map_eq_some_iff.1 hagent
    rw [hparse, Option.bind_some, Option.bind_some]
    unfold signGates authenticated authenticate
    rw [h]
  case h_2 hop =>
    rw [hop] at hagent
    obtain ⟨request, hparse, rfl⟩ := Option.map_eq_some_iff.1 hagent
    rw [hparse, Option.bind_some, Option.bind_some]
    unfold broadcastGates authenticated authenticate
    rw [h]
  · rfl

/-! ## Runs -/

variable {w w' : DaemonWorld} {e : DaemonEvent} {h : DaemonHistory} {agent : JsString}

/-- The table of an agent in a world. -/
def nonceTable (w : DaemonWorld) (agent : JsString) : List (JsString × ℤ) :=
  w.shared.nonces.tableOf agent

/-- The clock at which a sign request or a standalone broadcast is handled. -/
def handledAt : DaemonEvent → Option ℤ
  | .start x =>
    match peekOp x.1 with
    | .sign => some x.2.nowMs
    | .broadcast => some x.2.nowMs
    | _ => none
  | _ => none

theorem presented_handledAt {x : Line × Moment} {p : Presented} (hp : d.presented? s x = some p) :
    handledAt (.start x) = some p.nowMs := by
  rw [(presented_spec hp).2.1]
  unfold presented? at hp
  unfold handledAt
  split at hp
  case h_1 hop => simp [hop]
  case h_2 hop => simp [hop]
  · cases hp

/-- What an event presents. -/
def presentedBy (d : SignBoxDaemon) (w : DaemonWorld) : DaemonEvent → Option Presented
  | .start x => d.presented? w.shared x
  | _ => none

/-- What the anti-replay step lets pass at an event. -/
def passed? (d : SignBoxDaemon) (w : DaemonWorld) (e : DaemonEvent) : Option Presented :=
  (d.presentedBy w e).filter fun p => (p.register w.shared.nonces).2 = .ok

/-- What it has let pass in a history, in order. -/
def passedBy (d : SignBoxDaemon) (h : DaemonHistory) : List Presented :=
  h.filterMap fun x => d.passed? x.1 x.2

theorem passed?_some {p : Presented} :
    d.passed? w e = some p ↔
      d.presentedBy w e = some p ∧ (p.register w.shared.nonces).2 = .ok := by
  unfold passed?
  rw [Option.filter_eq_some_iff]
  simp

theorem passedBy_snoc : passedBy d (h ++ [(w, e)]) = passedBy d h ++ (d.passed? w e).toList := by
  unfold passedBy
  rw [List.filterMap_append]
  cases hp : d.passed? w e <;> simp [hp]

/-- **The step rule of the nonces**: they change only by what the step presents. Administrative
operations and resumed requests leave them alone. -/
theorem next_nonces (w : DaemonWorld) (e : DaemonEvent) :
    (d.machine.next w e).shared.nonces = noncesAfter w.shared (d.presentedBy w e) := by
  cases e with
  | start x => exact (start_reply x).quiet.nonces
  | resume t r =>
    rcases next_cases (M := d.machine) w (.resume t r) with
      ⟨t', seg, hseg, hshared, -⟩ | ⟨op, he, -⟩ | ⟨hsame, -⟩
    · obtain ⟨-, f, -, hres⟩ := segment?_resume.1 hseg
      rw [hshared]
      exact (resume_reply hres).quiet.nonces
    · cases he
    · rw [hsame]
      rfl
  | admin op => cases op <;> rfl

/-- What a step does to the table of one agent. -/
theorem nonceTable_next (w : DaemonWorld) (e : DaemonEvent) (agent : JsString) :
    nonceTable (d.machine.next w e) agent = nonceTable w agent ∨
      ∃ p, d.presentedBy w e = some p ∧ p.agent = agent ∧
        nonceTable (d.machine.next w e) agent =
          (NonceCache.registerIn w.shared.nonces.maxEntriesPerAgent (nonceTable w agent) p.nonce
            p.expiresAt p.nowMs).1 := by
  unfold nonceTable
  rw [next_nonces]
  cases hp : d.presentedBy w e with
  | none => exact Or.inl rfl
  | some p =>
    unfold noncesAfter Presented.register
    dsimp only
    rw [NonceCache.tableOf_register]
    by_cases hagent : agent = p.agent
    · rw [if_pos hagent, hagent]
      exact Or.inr ⟨p, rfl, rfl, rfl⟩
    · rw [if_neg hagent]
      exact Or.inl rfl

theorem next_cap (w : DaemonWorld) (e : DaemonEvent) :
    (d.machine.next w e).shared.nonces.maxEntriesPerAgent =
      w.shared.nonces.maxEntriesPerAgent := by
  rw [next_nonces]
  cases d.presentedBy w e <;> rfl

theorem presentedBy_handledAt {p : Presented} (hp : d.presentedBy w e = some p) :
    handledAt e = some p.nowMs := by
  cases e with
  | start x => exact presented_handledAt hp
  | resume t r => cases hp
  | admin op => cases hp

/-- An entry that is live when the step is handled. -/
def LiveAt (e : DaemonEvent) (expiry : ℤ) : Prop := ∀ t, handledAt e = some t → t < expiry

/-- **A live nonce is never evicted**, whatever the step is and whichever agent it concerns. -/
theorem live_kept {nonce : JsString} {expiry : ℤ} (hlive : LiveAt e expiry)
    (hentry : (nonceTable w agent).lookup nonce = some expiry) :
    (nonceTable (d.machine.next w e) agent).lookup nonce = some expiry := by
  rcases nonceTable_next (d := d) w e agent with hsame | ⟨p, hp, -, hnext⟩
  · rw [hsame]
    exact hentry
  · rw [hnext]
    exact NonceCache.registerIn_live (hlive _ (presentedBy_handledAt hp)) hentry

/-- What a run has let pass is in the tables, until the clock has reached its expiry. -/
structure Remembers (d : SignBoxDaemon) (maxEntries : ℕ) (h : DaemonHistory) (w : DaemonWorld) :
    Prop where
  cap : w.shared.nonces.maxEntriesPerAgent = maxEntries
  length : ∀ agent, (nonceTable w agent).length ≤ maxEntries
  kept : ∀ p ∈ passedBy d h, (nonceTable w p.agent).lookup p.nonce = some p.expiresAt ∨
    ∃ x ∈ h, ∃ t, handledAt x.2 = some t ∧ p.expiresAt ≤ t
  apart : (passedBy d h).Pairwise fun p q =>
    p.agent = q.agent → p.nonce = q.nonce → p.expiresAt ≤ q.nowMs

/-- The clock has not gone back. -/
def Later (h : DaemonHistory) (e : DaemonEvent) : Prop :=
  ∀ x ∈ h, ∀ t t', handledAt x.2 = some t → handledAt e = some t' → t ≤ t'

/-- A request that passes has its nonce in the table, where no live one was. -/
theorem passed_entry {q : Presented} (hq : d.passed? w e = some q) :
    (nonceTable (d.machine.next w e) q.agent).lookup q.nonce = some q.expiresAt ∧
      ∀ expiry, (nonceTable w q.agent).lookup q.nonce = some expiry → expiry ≤ q.nowMs := by
  obtain ⟨hp, hok⟩ := passed?_some.1 hq
  have hreg := NonceCache.registerIn_ok hok
  refine ⟨?_, hreg.2⟩
  unfold nonceTable
  rw [next_nonces, hp]
  show ((q.register w.shared.nonces).1.tableOf q.agent).lookup q.nonce = _
  unfold Presented.register
  rw [NonceCache.tableOf_register, if_pos rfl]
  exact hreg.1

/-- **One step.** What was presented before is still remembered as long as it is live, because the
clock of the step is not behind. -/
theorem Remembers.step {maxEntries : ℕ} (hr : Remembers d maxEntries h w) (hlater : Later h e) :
    Remembers d maxEntries (h ++ [(w, e)]) (d.machine.next w e) where
  cap := (next_cap w e).trans hr.cap
  length := by
    intro agent
    rcases nonceTable_next (d := d) w e agent with hsame | ⟨p, -, -, hnext⟩
    · rw [hsame]
      exact hr.length agent
    · rw [hnext, hr.cap]
      exact NonceCache.registerIn_length (hr.length agent)
  kept := by
    intro p hp
    rw [passedBy_snoc, List.mem_append, Option.mem_toList] at hp
    rcases hp with hp | hp
    · rcases hr.kept p hp with hentry | ⟨x, hx, t, ht, hle⟩
      · -- the entry is dropped only at a clock that has reached its expiry
        by_cases hlive : LiveAt e p.expiresAt
        · exact Or.inl (live_kept hlive hentry)
        · unfold LiveAt at hlive
          push Not at hlive
          obtain ⟨t, ht, hle⟩ := hlive
          exact Or.inr ⟨(w, e), by simp, t, ht, hle⟩
      · exact Or.inr ⟨x, List.mem_append_left _ hx, t, ht, hle⟩
    · exact Or.inl (passed_entry hp).1
  apart := by
    rw [passedBy_snoc, List.pairwise_append]
    refine ⟨hr.apart, ?_, fun p hp q hq hagent hnonce => ?_⟩
    · cases d.passed? w e <;> simp
    · rw [Option.mem_toList] at hq
      have hclock := presentedBy_handledAt (passed?_some.1 hq).1
      rcases hr.kept p hp with hentry | ⟨x, hx, t, ht, hle⟩
      · rw [hagent, hnonce] at hentry
        exact (passed_entry hq).2 _ hentry
      · exact hle.trans (hlater x hx t q.nowMs ht hclock)

/-! ## Other agents -/

/-- The event is a request of the agent, or switches the agent on or off. -/
def concerns (agent : JsString) : DaemonEvent → Bool
  | .start x => requester? x.1 = some agent
  | .admin (.disable a) => a = agent
  | .admin (.enable a) => a = agent
  | .resume _ _ => false

/-- The worlds agree on what the step reads for the agent. -/
structure SameFor (agent : JsString) (w w' : DaemonWorld) : Prop where
  runtime : w.shared.runtime? agent = w'.shared.runtime? agent
  table : nonceTable w agent = nonceTable w' agent
  cap : w.shared.nonces.maxEntriesPerAgent = w'.shared.nonces.maxEntriesPerAgent

theorem SameFor.trans {w₁ w₂ w₃ : DaemonWorld} (h₁ : SameFor agent w₁ w₂)
    (h₂ : SameFor agent w₂ w₃) : SameFor agent w₁ w₃ :=
  ⟨h₁.runtime.trans h₂.runtime, h₁.table.trans h₂.table, h₁.cap.trans h₂.cap⟩

theorem SameFor.symm (hs : SameFor agent w w') : SameFor agent w' w :=
  ⟨hs.runtime.symm, hs.table.symm, hs.cap.symm⟩

theorem runtime?_setEnabled {other : JsString} {enabled : Bool} :
    (s.setEnabled other enabled).runtime? agent = (s.runtime? agent).map fun r =>
      if r.agent = other then { r with enabled := enabled } else r := by
  unfold DaemonState.setEnabled DaemonState.runtime?
  rw [List.find?_map]
  congr 2
  funext r
  simp only [Function.comp_apply]
  split <;> rfl

/-- The switches an event throws. -/
def switched (s : DaemonState) : DaemonEvent → DaemonState
  | .admin (.disable a) => s.setEnabled a false
  | .admin (.enable a) => s.setEnabled a true
  | _ => s

theorem runtime?_next (w : DaemonWorld) (e : DaemonEvent) (agent : JsString) :
    (d.machine.next w e).shared.runtime? agent = (switched w.shared e).runtime? agent := by
  suffices hagents : (d.machine.next w e).shared.agents = (switched w.shared e).agents by
    unfold DaemonState.runtime?
    rw [hagents]
  cases e with
  | start x => exact (start_reply x).quiet.agents
  | resume t r =>
    rcases next_cases (M := d.machine) w (.resume t r) with
      ⟨t', seg, hseg, hshared, -⟩ | ⟨op, he, -⟩ | ⟨hsame, -⟩
    · obtain ⟨-, f, -, hres⟩ := segment?_resume.1 hseg
      rw [hshared]
      exact (resume_reply hres).quiet.agents
    · cases he
    · rw [hsame]
      rfl
  | admin op => cases op <;> rfl

theorem runtime?_setEnabled_other {other : JsString} {enabled : Bool} (hne : other ≠ agent) :
    (s.setEnabled other enabled).runtime? agent = s.runtime? agent := by
  rw [runtime?_setEnabled]
  cases hr : s.runtime? agent with
  | none => rfl
  | some r =>
    have hagent : r.agent ≠ other := by
      rw [runtime?_agent hr]
      exact hne.symm
    rw [Option.map_some, if_neg hagent]

/-- **Requests of others** change nothing for the agent: its nonces and its runtime stay, and so
does the cap on nonces. -/
theorem SameFor.other (hnot : concerns agent e = false) : SameFor agent w (d.machine.next w e) := by
  refine ⟨?_, ?_, (next_cap w e).symm⟩
  · rw [runtime?_next]
    cases e with
    | start x => rfl
    | resume t r => rfl
    | admin op =>
      cases op with
      | disable a => exact (runtime?_setEnabled_other (by simpa [concerns] using hnot)).symm
      | enable a => exact (runtime?_setEnabled_other (by simpa [concerns] using hnot)).symm
  · rcases nonceTable_next (d := d) w e agent with hsame | ⟨p, hp, hagent, -⟩
    · exact hsame.symm
    · cases e with
      | start x =>
        have hreq := (presented_spec hp).1
        rw [hagent] at hreq
        simp [concerns, hreq] at hnot
      | resume t r => cases hp
      | admin op => cases hp

theorem SameFor.presentedBy (hs : SameFor agent w w') (hmine : concerns agent e = true) :
    d.presentedBy w e = d.presentedBy w' e := by
  cases e with
  | start x => exact presented_congr (by simpa [concerns] using hmine) hs.runtime
  | resume t r => rfl
  | admin op => rfl

/-- **An event of the agent** does the same to worlds that agree on the agent, so what happened to
others does not show. -/
theorem SameFor.mine (hs : SameFor agent w w') (hmine : concerns agent e = true) :
    SameFor agent (d.machine.next w e) (d.machine.next w' e) := by
  refine ⟨?_, ?_, by rw [next_cap, next_cap, hs.cap]⟩
  · rw [runtime?_next, runtime?_next]
    cases e with
    | start x => exact hs.runtime
    | resume t r => exact hs.runtime
    | admin op =>
      cases op with
      | disable a =>
        unfold switched
        rw [runtime?_setEnabled, runtime?_setEnabled, hs.runtime]
      | enable a =>
        unfold switched
        rw [runtime?_setEnabled, runtime?_setEnabled, hs.runtime]
  · have htable := hs.table
    unfold nonceTable at htable ⊢
    rw [next_nonces, next_nonces, hs.presentedBy hmine]
    cases hp : d.presentedBy w' e with
    | none => exact htable
    | some p =>
      show (p.register w.shared.nonces).1.tableOf agent = (p.register w'.shared.nonces).1.tableOf agent
      unfold Presented.register
      rw [NonceCache.tableOf_register, NonceCache.tableOf_register, hs.cap]
      by_cases hagent : agent = p.agent
      · rw [if_pos hagent, if_pos hagent, ← hagent, htable]
      · rw [if_neg hagent, if_neg hagent, htable]

theorem SameFor.step (hs : SameFor agent w w') (e : DaemonEvent) :
    SameFor agent (d.machine.next w e) (d.machine.next w' e) := by
  cases hmine : concerns agent e with
  | true => exact hs.mine hmine
  | false => exact ((SameFor.other hmine).symm.trans hs).trans (SameFor.other hmine)

/-- The outcome of one event for the agent. -/
def outcome? (d : SignBoxDaemon) (agent : JsString) (w : DaemonWorld) :
    DaemonEvent → Option (Option NonceState)
  | .start x =>
    if requester? x.1 = some agent then
      some ((d.presented? w.shared x).map fun p => (p.register w.shared.nonces).2)
    else none
  | _ => none

theorem SameFor.outcome (hs : SameFor agent w w') (e : DaemonEvent) :
    d.outcome? agent w e = d.outcome? agent w' e := by
  cases e with
  | start x =>
    unfold outcome?
    dsimp only
    by_cases hreq : requester? x.1 = some agent
    · rw [if_pos hreq, if_pos hreq, presented_congr hreq hs.runtime]
      cases hp : d.presented? w'.shared x with
      | none => rfl
      | some p =>
        have hagent : p.agent = agent := Option.some.inj ((presented_spec hp).1.symm.trans hreq)
        have htable := hs.table
        unfold nonceTable at htable
        simp only [Option.map_some, Presented.register, NonceCache.register_state, hs.cap, hagent,
          htable]
    · rw [if_neg hreq, if_neg hreq]
  | resume t r => rfl
  | admin op => rfl

theorem outcome_other (hnot : concerns agent e = false) : d.outcome? agent w e = none := by
  cases e with
  | start x =>
    have hreq : ¬ requester? x.1 = some agent := by simpa [concerns] using hnot
    exact if_neg hreq
  | resume t r => rfl
  | admin op => rfl

/-- What the anti-replay step made of each request of an agent, in order; `none` for a request
that its first gates refused. -/
def outcomesOf (d : SignBoxDaemon) (agent : JsString) (h : DaemonHistory) :
    List (Option NonceState) :=
  h.filterMap fun x => d.outcome? agent x.1 x.2

theorem outcomesOf_cons {es : List DaemonEvent} :
    d.outcomesOf agent (d.machine.history w (e :: es)) =
      (d.outcome? agent w e).toList ++ d.outcomesOf agent (d.machine.history (d.machine.next w e) es) := by
  unfold outcomesOf
  rw [Machine.history, List.filterMap_cons]
  cases d.outcome? agent w e <;> rfl

theorem outcomesOf_congr (hs : SameFor agent w w') (es : List DaemonEvent) :
    d.outcomesOf agent (d.machine.history w es) = d.outcomesOf agent (d.machine.history w' es) := by
  induction es generalizing w w' with
  | nil => rfl
  | cons e es ih => rw [outcomesOf_cons, outcomesOf_cons, hs.outcome e, ih (hs.step e)]

/-- **The outcomes of an agent are made by its own requests.** Leaving out every request of the
others changes none of them. -/
theorem outcomesOf_filter (w : DaemonWorld) (es : List DaemonEvent) :
    d.outcomesOf agent (d.machine.history w es) =
      d.outcomesOf agent (d.machine.history w (es.filter (concerns agent))) := by
  induction es generalizing w with
  | nil => rfl
  | cons e es ih =>
    cases hmine : concerns agent e with
    | true =>
      rw [List.filter_cons_of_pos hmine, outcomesOf_cons, outcomesOf_cons, ih]
    | false =>
      rw [List.filter_cons_of_neg (by simp [hmine]), outcomesOf_cons, outcome_other hmine, ih]
      exact outcomesOf_congr (SameFor.other hmine).symm _

/-! ## The law -/

/-- What a daemon keeps over a run, with tables of `maxEntries` nonces. -/
structure AntiReplay (d : SignBoxDaemon) (maxEntries : ℕ) (w₀ : DaemonWorld)
    (es : List DaemonEvent) : Prop where
  /-- A nonce passes again only when the first request with it has expired. -/
  apart : (passedBy d (d.machine.history w₀ es)).Pairwise fun p q =>
    p.agent = q.agent → p.nonce = q.nonce → p.expiresAt ≤ q.nowMs
  /-- No line passes twice. -/
  lines : ∀ pre mid post line m m', es = pre ++ .start (line, m) :: (mid ++ .start (line, m') :: post) →
    d.passed? (d.machine.run w₀ pre) (.start (line, m)) ≠ none →
    d.passed? (d.machine.run w₀ (pre ++ .start (line, m) :: mid)) (.start (line, m')) = none
  /-- A request that does not pass is refused there. -/
  refused : ∀ pre x post p, es = pre ++ .start x :: post →
    d.presented? (d.machine.run w₀ pre).shared x = some p →
    d.passed? (d.machine.run w₀ pre) (.start x) = none → ∃ requestId,
      (d.start x (d.machine.run w₀ pre).shared).next = .inr (.sign (.denied requestId nonceReused)) ∨
      (d.start x (d.machine.run w₀ pre).shared).next =
        .inr (.broadcast (.denied requestId nonceReused))
  /-- What passes is entered, and a live entry stays. -/
  entered : ∀ pre e post p, es = pre ++ e :: post → d.passed? (d.machine.run w₀ pre) e = some p →
    (nonceTable (d.machine.run w₀ (pre ++ [e])) p.agent).lookup p.nonce = some p.expiresAt
  live : ∀ pre e post agent nonce expiry, es = pre ++ e :: post → LiveAt e expiry →
    (nonceTable (d.machine.run w₀ pre) agent).lookup nonce = some expiry →
    (nonceTable (d.machine.run w₀ (pre ++ [e])) agent).lookup nonce = some expiry
  /-- No table grows beyond its capacity. -/
  capacity : ∀ agent, (nonceTable (d.machine.run w₀ es) agent).length ≤ maxEntries
  /-- Requests of other agents make no difference. -/
  independent : ∀ agent es', es'.filter (concerns agent) = es.filter (concerns agent) →
    d.outcomesOf agent (d.machine.history w₀ es') = d.outcomesOf agent (d.machine.history w₀ es)

theorem remembers_run {maxEntries : ℕ} {s : DaemonState} {es : List DaemonEvent}
    (hclock : (es.filterMap handledAt).Pairwise (· ≤ ·)) :
    Remembers d maxEntries
      (d.machine.history (boot { s with nonces := ⟨maxEntries, []⟩ }) es)
      (d.machine.run (boot { s with nonces := ⟨maxEntries, []⟩ }) es) := by
  refine run_invariant (C := fun h _ e => Later h e) ?_ (fun h w e hr hlater => hr.step hlater) ?_
  · refine ⟨rfl, fun agent => Nat.zero_le _, fun p hp => ?_, .nil⟩
    cases hp
  · intro pre e post hes x hx t t' ht ht'
    obtain ⟨pre₁, post₁, hpre, -⟩ := history_split hx
    rw [hes, hpre, List.append_assoc, List.cons_append] at hclock
    rw [List.filterMap_append, List.pairwise_append] at hclock
    have hrest := hclock.2.1
    rw [List.filterMap_cons_some ht, List.pairwise_cons] at hrest
    exact hrest.1 t' (List.mem_filterMap.2 ⟨e, by simp, ht'⟩)

end SignBoxDaemon

open SignBoxDaemon in
/-- **Anti-replay.** In every run in which the clock does not go back from one sign request or
standalone broadcast to the next, whatever the agents, the arrival order and the interleaving: a
nonce of an agent passes again only after its first request has expired, a line never passes twice,
what does not pass is refused with `NONCE_REUSED`, no table outgrows its capacity, and the requests
of other agents make no difference. -/
theorem anti_replay (d : SignBoxDaemon) (s : DaemonState) (maxEntries : ℕ) (es : List DaemonEvent)
    (hclock : (es.filterMap handledAt).Pairwise (· ≤ ·)) :
    AntiReplay d maxEntries (boot { s with nonces := ⟨maxEntries, []⟩ }) es where
  apart := (remembers_run hclock).apart
  lines := by
    intro pre mid post line m m' hes hfirst
    rw [← List.cons_append, ← List.append_assoc] at hes
    obtain ⟨p, hp⟩ := Option.ne_none_iff_exists'.1 hfirst
    rw [Option.eq_none_iff_forall_ne_some]
    intro q hq
    have hremembers : Remembers d maxEntries
        (d.machine.history (boot { s with nonces := ⟨maxEntries, []⟩ }) es) _ := remembers_run hclock
    have hapart := hremembers.apart
    rw [hes, history_append] at hapart
    unfold passedBy at hapart
    rw [List.filterMap_append, List.pairwise_append] at hapart
    obtain ⟨hagent, hnonce, hexpires⟩ :=
      presented_line (passed?_some.1 hp).1 (passed?_some.1 hq).1
    have hle : p.expiresAt ≤ q.nowMs :=
      hapart.2.2 p (List.mem_filterMap.2 ⟨_, mem_history, hp⟩) q
        (List.mem_filterMap.2 ⟨_, List.mem_cons_self, hq⟩) hagent hnonce
    -- the second request is inside its window, which is the window of the first
    have hlt : q.nowMs < q.expiresAt := (presented_spec (passed?_some.1 hq).1).2.2
    omega
  refused := by
    intro pre x post p _ hp hnot
    refine start_refused hp fun hok => ?_
    have hpassed : d.passed? (d.machine.run _ pre) (.start x) = some p := passed?_some.2 ⟨hp, hok⟩
    rw [hpassed] at hnot
    cases hnot
  entered := by
    intro pre e post p _ hp
    rw [run_snoc]
    exact (passed_entry hp).1
  live := by
    intro pre e post agent nonce expiry _ hlive hentry
    rw [run_snoc]
    exact live_kept hlive hentry
  capacity := (remembers_run hclock).length
  independent := by
    intro agent es' hsame
    rw [outcomesOf_filter, hsame, ← outcomesOf_filter]

open SignBoxDaemon in
/-- The same line twice, of which the second is a replay. -/
theorem anti_replay_line :
    AntiReplay Sample.daemon 2
      (boot { Sample.state Sample.transferPolicy with nonces := ⟨2, []⟩ })
      [.start (Sample.signLine "nonce-0123456789" false, Sample.moment),
        .start (Sample.signLine "nonce-0123456789" false, Sample.moment)] :=
  anti_replay Sample.daemon (Sample.state Sample.transferPolicy) 2 _ (by decide +kernel)

end Signbox
