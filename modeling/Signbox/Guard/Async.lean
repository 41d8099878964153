import Signbox.Guard.Keyed
import Mathlib.Data.List.Nodup
import Mathlib.Data.List.Induction
import Mathlib.Order.Nat

/-!
# Cooperative tasks

Tasks on one thread, as an event loop runs them. A task runs undisturbed until it awaits
something; then it is suspended in a frame, other tasks run, and later a reply resumes it
with whatever the shared state has become in the meantime.

* `Machine`: what a task does between two suspensions; `World`: the shared state and the
  suspended tasks; `Event`: a new task, a reply, or an operation from outside.
* `run`, `history`, `emitted`: the world after a list of events, the events with the worlds
  they met, and what the tasks let out.
* `run_invariant`: an invariant of world and history that each step keeps holds in every
  run whose steps meet the step condition; `frames_hold` is the rule for what a suspended
  task has behind it.
* `emitted_atMostOnce`: an output that a task can only let out once in its life.
* `traced_run`: what the outputs of one task say about where it is suspended, or how it ended.
-/

namespace Async

open Guard

/-- What a task does without interruption: the state it leaves, what it lets out on the
way, and the frame it is suspended in, or its result. -/
structure Segment (σ φ ω δ : Type*) where
  state : σ
  effects : List ω
  next : φ ⊕ δ

/-- A program of cooperative tasks. A reply that does not answer the frame resumes nothing. -/
structure Machine (σ ι φ ρ α ω δ : Type*) where
  start : ι → σ → Segment σ φ ω δ
  resume : φ → ρ → σ → Option (Segment σ φ ω δ)
  /-- An operation that is no task, on the shared state. -/
  admin : α → σ → σ
  /-- The operations that end every suspended task. -/
  ends : α → Bool

/-- What happens next: a new task, an answer to a suspended one, or an operation of the
administrator between the tasks. -/
inductive Event (ι ρ α : Type*) where
  | start (input : ι)
  | resume (task : ℕ) (reply : ρ)
  | admin (op : α)

/-- The shared state, the suspended tasks, and the number of tasks started so far. -/
structure World (σ φ : Type*) where
  shared : σ
  tasks : List (ℕ × φ)
  started : ℕ

/-- What is seen from outside: an effect on the way, or the result at the end. -/
inductive Output (ω δ : Type*) where
  | effect (o : ω)
  | done (d : δ)

variable {σ ι φ ρ α ω δ : Type*}

/-- No task is suspended. -/
def boot (s : σ) : World σ φ := ⟨s, [], 0⟩

/-- The task as it is left suspended, if it is. -/
def Segment.suspended (seg : Segment σ φ ω δ) (task : ℕ) : List (ℕ × φ) :=
  match seg.next with
  | .inl f => [(task, f)]
  | .inr _ => []

/-- The effects of a segment in their order, and its result at the end if it has one. -/
def Segment.outputs (seg : Segment σ φ ω δ) : List (Output ω δ) :=
  seg.effects.map .effect ++ match seg.next with
    | .inl _ => []
    | .inr d => [.done d]

namespace World

variable (w : World σ φ) (task : ℕ)

/-- The tasks that are suspended, `task` apart. -/
def others : List (ℕ × φ) := w.tasks.filter fun tf => tf.1 ≠ task

/-- `task` has run a segment. -/
def settle (started : ℕ) (seg : Segment σ φ ω δ) : World σ φ :=
  ⟨seg.state, seg.suspended task ++ w.others task, started⟩

/-- Task ids are distinct and were drawn. -/
structure WF : Prop where
  nodup : (w.tasks.map Prod.fst).Nodup
  drawn : ∀ tf ∈ w.tasks, tf.1 < w.started

end World

namespace Machine

variable (M : Machine σ ι φ ρ α ω δ)

/-- The segment an event runs, and the task it belongs to. -/
def segment? (w : World σ φ) : Event ι ρ α → Option (ℕ × Segment σ φ ω δ)
  | .start i => some (w.started, M.start i w.shared)
  | .resume task r => (w.tasks.lookup task).bind fun f =>
    (M.resume f r w.shared).map fun seg => (task, seg)
  | .admin _ => none

/-- One event: its segment is put into the world, an answer that no task accepts changes nothing,
and an operation of the administrator may drop the tasks. -/
def next (w : World σ φ) : Event ι ρ α → World σ φ
  | .start i => w.settle w.started (w.started + 1) (M.start i w.shared)
  | .resume task r =>
    match M.segment? w (.resume task r) with
    | some (task, seg) => w.settle task w.started seg
    | none => w
  | .admin op => ⟨M.admin op w.shared, if M.ends op then [] else w.tasks, w.started⟩

/-- What an event lets out, by task. -/
def outputs (w : World σ φ) (e : Event ι ρ α) : List (ℕ × Output ω δ) :=
  match M.segment? w e with
  | some (task, seg) => seg.outputs.map fun o => (task, o)
  | none => []

/-- A whole run, event after event. -/
def run (w : World σ φ) (es : List (Event ι ρ α)) : World σ φ := es.foldl M.next w

/-- The events of a run, each with the world it met. -/
def history (w : World σ φ) : List (Event ι ρ α) → List (World σ φ × Event ι ρ α)
  | [] => []
  | e :: es => (w, e) :: history (M.next w e) es

/-- Everything let out in a run, each output with its task. -/
def emitted (w : World σ φ) (es : List (Event ι ρ α)) : List (ℕ × Output ω δ) :=
  (M.history w es).flatMap fun x => M.outputs x.1 x.2

end Machine

variable {M : Machine σ ι φ ρ α ω δ} {w w₀ : World σ φ} {e : Event ι ρ α}
variable {es es' : List (Event ι ρ α)}

/-! ## Runs -/

/-- A run in two parts. -/
theorem run_append : M.run w (es ++ es') = M.run (M.run w es) es' := by
  simp [Machine.run]

/-- A run and one more event: the induction over runs goes this way. -/
theorem run_snoc : M.run w (es ++ [e]) = M.next (M.run w es) e := by
  simp [Machine.run]

/-- The history of a run in two parts. -/
theorem history_append :
    M.history w (es ++ es') = M.history w es ++ M.history (M.run w es) es' := by
  induction es generalizing w with
  | nil => rfl
  | cons e es ih => simp [Machine.history, ih, Machine.run]

/-- The history gains the world as it was before the event. -/
theorem history_snoc : M.history w (es ++ [e]) = M.history w es ++ [(M.run w es, e)] := by
  rw [history_append]
  rfl

/-- The step of a run at `e`. -/
theorem mem_history : (M.run w es, e) ∈ M.history w (es ++ e :: es') := by
  rw [history_append]
  simp [Machine.history]

/-- The events of a history are those of the run. -/
theorem history_events (w : World σ φ) (es : List (Event ι ρ α)) :
    (M.history w es).map Prod.snd = es := by
  induction es generalizing w with
  | nil => rfl
  | cons e es ih => rw [Machine.history, List.map_cons, ih]

/-- One more event adds its own outputs, -/
theorem emitted_snoc :
    M.emitted w (es ++ [e]) = M.emitted w es ++ M.outputs (M.run w es) e := by
  simp [Machine.emitted, history_snoc]

/-- and a first one puts its own in front. -/
theorem emitted_cons :
    M.emitted w (e :: es) = M.outputs w e ++ M.emitted (M.next w e) es := rfl

/-- A step of a run is the last step of a shorter one. -/
theorem history_split {x : World σ φ × Event ι ρ α} (hx : x ∈ M.history w es) :
    ∃ pre post, es = pre ++ x.2 :: post ∧ x.1 = M.run w pre := by
  induction es generalizing w with
  | nil => simp [Machine.history] at hx
  | cons e es ih =>
    rcases List.mem_cons.1 hx with rfl | hx
    · exact ⟨[], es, rfl, rfl⟩
    · obtain ⟨pre, post, rfl, hw⟩ := ih hx
      exact ⟨e :: pre, post, rfl, hw⟩

/-- **The run rule.** An invariant of the world and of the steps behind it, kept by every
step that meets the condition, holds after every run all of whose steps meet it. -/
theorem run_invariant {P : List (World σ φ × Event ι ρ α) → World σ φ → Prop}
    {C : List (World σ φ × Event ι ρ α) → World σ φ → Event ι ρ α → Prop} (h₀ : P [] w₀)
    (hstep : ∀ h w e, P h w → C h w e → P (h ++ [(w, e)]) (M.next w e))
    (hC : ∀ pre e post, es = pre ++ e :: post → C (M.history w₀ pre) (M.run w₀ pre) e) :
    P (M.history w₀ es) (M.run w₀ es) := by
  induction es using List.reverseRecOn with
  | nil => exact h₀
  | append_singleton es e ih =>
    rw [history_snoc, run_snoc]
    refine hstep _ _ _ (ih fun pre e' post hes => ?_) (hC es e [] rfl)
    exact hC pre e' (post ++ [e]) (by rw [hes]; simp)

/-! ## Suspended tasks -/

/-- An answer runs a segment exactly when the task is suspended and its frame accepts the
answer. -/
theorem segment?_resume {t t' : ℕ} {r : ρ} {seg : Segment σ φ ω δ} :
    M.segment? w (.resume t r) = some (t', seg) ↔
      t' = t ∧ ∃ f, w.tasks.lookup t = some f ∧ M.resume f r w.shared = some seg := by
  simp only [Machine.segment?, Option.bind_eq_some_iff, Option.map_eq_some_iff, Prod.mk.injEq]
  constructor
  · rintro ⟨f, hf, seg', hseg, rfl, rfl⟩
    exact ⟨rfl, f, hf, hseg⟩
  · rintro ⟨rfl, f, hf, hseg⟩
    exact ⟨f, hf, seg, hseg, rfl, rfl⟩

/-- A new task always runs its first segment, under the next number. -/
@[simp] theorem segment?_start {i : ι} :
    M.segment? w (.start i) = some (w.started, M.start i w.shared) := rfl

/-- An operation of the administrator runs no segment, -/
@[simp] theorem segment?_admin {op : α} : M.segment? w (.admin op) = none := rfl

/-- so nothing is let out in it. -/
@[simp] theorem outputs_admin {op : α} : M.outputs w (.admin op) = [] := rfl

/-- A segment is the first of a new task, or goes on from the frame of a suspended one. -/
theorem segment?_cases {t : ℕ} {seg : Segment σ φ ω δ} (h : M.segment? w e = some (t, seg)) :
    (∃ i, e = .start i ∧ t = w.started ∧ seg = M.start i w.shared) ∨
    ∃ f r, e = .resume t r ∧ w.tasks.lookup t = some f ∧ M.resume f r w.shared = some seg := by
  cases e with
  | start i =>
    simp only [segment?_start, Option.some.injEq, Prod.mk.injEq] at h
    exact Or.inl ⟨i, rfl, h.1.symm, h.2.symm⟩
  | resume t' r =>
    obtain ⟨rfl, f, hf, hseg⟩ := segment?_resume.1 h
    exact Or.inr ⟨f, r, rfl, hf, hseg⟩
  | admin op => simp at h

/-- What an event lets out is let out by its segment. -/
theorem mem_outputs {t : ℕ} {o : Output ω δ} :
    (t, o) ∈ M.outputs w e ↔ ∃ seg, M.segment? w e = some (t, seg) ∧ o ∈ seg.outputs := by
  unfold Machine.outputs
  cases hseg : M.segment? w e with
  | none => simp
  | some x =>
    obtain ⟨t', seg⟩ := x
    simp only [List.mem_map, Prod.mk.injEq, Option.some.injEq]
    constructor
    · rintro ⟨o', ho, rfl, rfl⟩
      exact ⟨seg, ⟨rfl, rfl⟩, ho⟩
    · rintro ⟨seg', ⟨rfl, rfl⟩, ho⟩
      exact ⟨o, ho, rfl, rfl⟩

/-- The number of tasks started never goes down. -/
theorem started_next : w.started ≤ (M.next w e).started := by
  cases e with
  | start i => exact Nat.le_succ _
  | resume t r =>
    simp only [Machine.next]
    split <;> exact le_rfl
  | admin op => exact le_rfl

/-- A task that runs was started before or just now. -/
theorem segment?_lt_started {t : ℕ} {seg : Segment σ φ ω δ} (hw : w.WF)
    (h : M.segment? w e = some (t, seg)) : t < (M.next w e).started := by
  rcases segment?_cases h with ⟨i, rfl, rfl, -⟩ | ⟨f, r, -, hf, -⟩
  · exact Nat.lt_succ_self _
  · exact lt_of_lt_of_le (hw.drawn _ (mem_of_lookup hf)) started_next

/-- **The step rule.** A step either runs one segment of one task, and touches no other task,
or is an operation from outside, or changes nothing. -/
theorem next_cases (w : World σ φ) (e : Event ι ρ α) :
    (∃ t seg, M.segment? w e = some (t, seg) ∧ (M.next w e).shared = seg.state ∧
      (M.next w e).tasks = seg.suspended t ++ w.others t ∧
      M.outputs w e = seg.outputs.map fun o => (t, o)) ∨
    (∃ op, e = .admin op ∧ (M.next w e).shared = M.admin op w.shared ∧
      (M.next w e).tasks.Sublist w.tasks) ∨
    (M.next w e = w ∧ M.outputs w e = []) := by
  cases e with
  | start i => exact Or.inl ⟨_, _, rfl, rfl, rfl, rfl⟩
  | resume t r =>
    cases hseg : M.segment? w (.resume t r) with
    | some x =>
      refine Or.inl ⟨x.1, x.2, rfl, ?_, ?_, ?_⟩ <;>
        simp [Machine.next, Machine.outputs, hseg, World.settle]
    | none => exact Or.inr (Or.inr (by simp [Machine.next, Machine.outputs, hseg]))
  | admin op =>
    refine Or.inr (Or.inl ⟨op, rfl, rfl, ?_⟩)
    simp only [Machine.next]
    split
    · exact List.nil_sublist _
    · exact List.Sublist.refl _

/-- The effects let out are the segment's, -/
theorem effect_mem_outputs {seg : Segment σ φ ω δ} {o : ω} :
    .effect o ∈ seg.outputs ↔ o ∈ seg.effects := by
  unfold Segment.outputs
  cases seg.next <;> simp

/-- and a result is let out exactly when the segment ends the task. -/
theorem done_mem_outputs {seg : Segment σ φ ω δ} {r : δ} :
    .done r ∈ seg.outputs ↔ seg.next = .inr r := by
  unfold Segment.outputs
  cases seg.next <;> simp [eq_comm]

/-- After a segment the shared state is the one it left. -/
theorem next_shared {t : ℕ} {seg : Segment σ φ ω δ} (h : M.segment? w e = some (t, seg)) :
    (M.next w e).shared = seg.state := by
  cases e with
  | start i =>
    simp only [segment?_start, Option.some.injEq, Prod.mk.injEq] at h
    rw [← h.2]
    rfl
  | resume t' r => simp [Machine.next, h, World.settle]
  | admin op => simp at h

/-- The other tasks are those with another number. -/
theorem mem_others {t : ℕ} {tf : ℕ × φ} : tf ∈ w.others t ↔ tf ∈ w.tasks ∧ tf.1 ≠ t := by
  simp [World.others]

/-- A segment leaves its own task suspended, or none. -/
theorem mem_suspended {seg : Segment σ φ ω δ} {t : ℕ} {tf : ℕ × φ} :
    tf ∈ seg.suspended t ↔ tf.1 = t ∧ seg.next = .inl tf.2 := by
  obtain ⟨t', f⟩ := tf
  unfold Segment.suspended
  split
  case h_1 f' h => simp [h, eq_comm]
  case h_2 d h => simp [h]

/-- The tasks suspended after a segment. -/
theorem mem_next_tasks {t : ℕ} {seg : Segment σ φ ω δ} (h : M.segment? w e = some (t, seg))
    {tf : ℕ × φ} : tf ∈ (M.next w e).tasks ↔
      tf.1 = t ∧ seg.next = .inl tf.2 ∨ tf ∈ w.tasks ∧ tf.1 ≠ t := by
  have htasks : (M.next w e).tasks = seg.suspended t ++ w.others t := by
    cases e with
    | start i =>
      simp only [segment?_start, Option.some.injEq, Prod.mk.injEq] at h
      obtain ⟨rfl, rfl⟩ := h
      rfl
    | resume t' r => simp [Machine.next, h, World.settle]
    | admin op => simp at h
  rw [htasks, List.mem_append, mem_suspended, mem_others]

/-- A task suspended after a step was suspended before, or was suspended by this step. -/
theorem mem_tasks_next {tf : ℕ × φ} (h : tf ∈ (M.next w e).tasks) :
    tf ∈ w.tasks ∨ ∃ seg, M.segment? w e = some (tf.1, seg) ∧ seg.next = .inl tf.2 := by
  rcases next_cases (M := M) w e with ⟨t, seg, hseg, -, htasks, -⟩ | ⟨op, -, -, hsub⟩ | ⟨hw, -⟩
  · rw [htasks] at h
    rcases List.mem_append.1 h with h | h
    · obtain ⟨rfl, hnext⟩ := mem_suspended.1 h
      exact Or.inr ⟨seg, hseg, hnext⟩
    · exact Or.inl (mem_others.1 h).1
  · exact Or.inl (hsub.subset h)
  · rw [hw] at h
    exact Or.inl h

/-- At the start no task is suspended. -/
theorem wf_boot (s : σ) : (boot s : World σ φ).WF := ⟨by simp [boot], by simp [boot]⟩

/-- Putting a segment's result into the world keeps task numbers distinct and below the count. -/
theorem wf_settle {t started : ℕ} {seg : Segment σ φ ω δ} (h : w.WF) (hle : w.started ≤ started)
    (ht : t < started) : (w.settle t started seg).WF where
  nodup := by
    have hrest : ((w.others t).map Prod.fst).Nodup :=
      List.Nodup.sublist (List.Sublist.map _ List.filter_sublist) h.nodup
    unfold World.settle Segment.suspended
    split
    · simp only [List.singleton_append, List.map_cons, List.nodup_cons]
      refine ⟨fun hmem => ?_, hrest⟩
      obtain ⟨tf, htf, heq⟩ := List.mem_map.1 hmem
      exact (mem_others.1 htf).2 heq
    · exact hrest
  drawn := by
    intro tf htf
    rcases List.mem_append.1 htf with htf | htf
    · rw [(mem_suspended.1 htf).1]
      exact ht
    · exact lt_of_lt_of_le (h.drawn tf (mem_others.1 htf).1) hle

/-- So does any event, -/
theorem wf_next (h : w.WF) (e : Event ι ρ α) : (M.next w e).WF := by
  cases e with
  | start i => exact wf_settle h (Nat.le_succ _) (Nat.lt_succ_self _)
  | resume t r =>
    simp only [Machine.next]
    cases hseg : M.segment? w (.resume t r) with
    | some x =>
      obtain ⟨ht, f, hf, -⟩ := segment?_resume.1 (show _ = some (x.1, x.2) from hseg)
      refine wf_settle h le_rfl ?_
      rw [ht]
      exact h.drawn _ (mem_of_lookup hf)
    | none => exact h
  | admin op =>
    simp only [Machine.next]
    split
    · exact ⟨by simp, by simp⟩
    · exact ⟨h.nodup, h.drawn⟩

/-- and any run. -/
theorem wf_run (h : w.WF) (es : List (Event ι ρ α)) : (M.run w es).WF := by
  induction es generalizing w with
  | nil => exact h
  | cons e es ih => exact ih (wf_next h e)

/-- **The frame rule.** What every segment establishes for the frame it is suspended in,
given that it was established for the frame it was resumed from, and what no later step
destroys, holds for every suspended task. -/
theorem frames_hold {K : List (World σ φ × Event ι ρ α) → ℕ → φ → Prop}
    (hmono : ∀ h x t f, K h t f → K (h ++ [x]) t f)
    (hseg : ∀ h w e t seg f, w.WF → (∀ tf ∈ w.tasks, K h tf.1 tf.2) →
      M.segment? w e = some (t, seg) → seg.next = .inl f → K (h ++ [(w, e)]) t f)
    (h₀ : w₀.WF) (hK : ∀ tf ∈ w₀.tasks, K [] tf.1 tf.2) (es : List (Event ι ρ α)) :
    ∀ tf ∈ (M.run w₀ es).tasks, K (M.history w₀ es) tf.1 tf.2 := by
  induction es using List.reverseRecOn with
  | nil => exact hK
  | append_singleton es e ih =>
    rw [history_snoc, run_snoc]
    intro tf htf
    rcases mem_tasks_next htf with htf | ⟨seg, hs, hnext⟩
    · exact hmono _ _ _ _ (ih tf htf)
    · exact hseg _ _ _ _ _ _ (wf_run h₀ es) ih hs hnext

/-! ## Outputs a task lets out once -/

section Once

variable (p : Output ω δ → Bool) (spent : φ → Prop)

/-- The outputs of `task` that satisfy `p`. -/
def countOf (task : ℕ) (outs : List (ℕ × Output ω δ)) : ℕ :=
  outs.countP fun o => o.1 = task ∧ p o.2

/-- A segment lets out at most one output of the kind, and is then suspended, if at all, in a
frame from which no more come. -/
structure Segment.Once (seg : Segment σ φ ω δ) : Prop where
  atMost : seg.outputs.countP p ≤ 1
  spends : seg.outputs.countP p = 1 → ∀ f, seg.next = .inl f → spent f

/-- A segment that lets out nothing of the kind, and whose frame lets out no more. -/
structure Segment.Silent (seg : Segment σ φ ω δ) : Prop where
  none : seg.outputs.countP p = 0
  spends : ∀ f, seg.next = .inl f → spent f

/-- Where a task stands: what it has let out, and what that says about its frame. -/
structure Standing (w : World σ φ) (outs : List (ℕ × Output ω δ)) (t : ℕ) : Prop where
  atMost : countOf p t outs ≤ 1
  spends : countOf p t outs = 1 → ∀ f, (t, f) ∈ w.tasks → spent f
  fresh : w.started ≤ t → countOf p t outs = 0

variable {p spent}

/-- Counts over a run in two parts add up. -/
theorem countOf_append {t : ℕ} {l l' : List (ℕ × Output ω δ)} :
    countOf p t (l ++ l') = countOf p t l + countOf p t l' := by
  simp [countOf, List.countP_append]

/-- The outputs of one segment count for its own task only. -/
theorem countOf_map (t t' : ℕ) (l : List (Output ω δ)) :
    countOf p t (l.map fun o => (t', o)) = if t' = t then l.countP p else 0 := by
  unfold countOf
  rw [List.countP_map]
  split
  case isTrue h => simp [h, Function.comp_def]
  case isFalse h => simp [h, Function.comp_def]

/-- What a task adds to its standing by running a segment. -/
theorem Standing.add {outs : List (ℕ × Output ω δ)} {t : ℕ} {seg : Segment σ φ ω δ}
    {w' : World σ φ} (h : Standing p spent w outs t) (hw' : w'.tasks = seg.suspended t ++ w.others t)
    (hlt : t < w'.started) (honce : countOf p t outs = 0 → seg.Once p spent)
    (hsilent : countOf p t outs = 1 → seg.Silent p spent) :
    Standing p spent w' (outs ++ seg.outputs.map fun o => (t, o)) t := by
  have hframe : ∀ f, (t, f) ∈ w'.tasks → seg.next = .inl f := by
    intro f hf
    rw [hw'] at hf
    rcases List.mem_append.1 hf with hf | hf
    · exact (mem_suspended.1 hf).2
    · exact absurd rfl (mem_others.1 hf).2
  have hsum : countOf p t (outs ++ seg.outputs.map fun o => (t, o)) =
      countOf p t outs + seg.outputs.countP p := by
    rw [countOf_append, countOf_map, if_pos rfl]
  have hle := h.atMost
  rcases Nat.eq_zero_or_pos (countOf p t outs) with hzero | hpos
  · obtain ⟨hatMost, hspends⟩ := honce hzero
    rw [hzero, Nat.zero_add] at hsum
    exact ⟨by rw [hsum]; exact hatMost, fun hone f hf => hspends (hsum ▸ hone) f (hframe f hf),
      fun hfresh => by omega⟩
  · have hone : countOf p t outs = 1 := by omega
    obtain ⟨hnone, hspends⟩ := hsilent hone
    rw [hone, hnone, Nat.add_zero] at hsum
    exact ⟨hsum.le, fun _ f hf => hspends f (hframe f hf), fun hfresh => by omega⟩

/-- Segments of other tasks and operations from outside leave the standing of a task. -/
theorem Standing.keep {outs outs' : List (ℕ × Output ω δ)} {t : ℕ} {w' : World σ φ}
    (h : Standing p spent w outs t) (hw' : ∀ f, (t, f) ∈ w'.tasks → (t, f) ∈ w.tasks)
    (hle : w.started ≤ w'.started) (hout : countOf p t outs' = 0) :
    Standing p spent w' (outs ++ outs') t := by
  have hsum : countOf p t (outs ++ outs') = countOf p t outs := by rw [countOf_append, hout]; rfl
  refine ⟨?_, ?_, ?_⟩ <;> rw [hsum]
  · exact h.atMost
  · exact fun hone f hf => h.spends hone f (hw' f hf)
  · exact fun hfresh => h.fresh (hle.trans hfresh)

/-- **At most once.** If every segment lets out at most one output of a kind, and after it the
task never lets out another, then each task lets out at most one in any run. -/
theorem emitted_atMostOnce (hstart : ∀ i s, (M.start i s).Once p spent)
    (hresume : ∀ f r s seg, M.resume f r s = some seg → seg.Once p spent)
    (hspent : ∀ f r s seg, spent f → M.resume f r s = some seg → seg.Silent p spent)
    (s : σ) (es : List (Event ι ρ α)) (t : ℕ) : countOf p t (M.emitted (boot s) es) ≤ 1 := by
  suffices h : ∀ t, Standing p spent (M.run (boot s) es) (M.emitted (boot s) es) t from
    (h t).atMost
  induction es using List.reverseRecOn with
  | nil =>
    have hzero : ∀ t, countOf p t (M.emitted (boot s) []) = 0 := fun _ => rfl
    exact fun t => ⟨by rw [hzero]; omega, fun hone => by simp [hzero] at hone, fun _ => hzero t⟩
  | append_singleton es e ih =>
    intro t
    have hw : (M.run (boot s) es).WF := wf_run (wf_boot s) es
    rw [emitted_snoc, run_snoc]
    rcases next_cases (M := M) (M.run (boot s) es) e with
      ⟨t', seg, hseg, -, htasks, hout⟩ | ⟨op, rfl, -, hsub⟩ | ⟨hsame, hout⟩
    · rw [hout]
      by_cases ht : t' = t
      · subst ht
        refine (ih t').add htasks (segment?_lt_started hw hseg) ?_ ?_
        · intro _
          rcases segment?_cases hseg with ⟨i, -, rfl, rfl⟩ | ⟨f, r, -, -, hres⟩
          · exact hstart _ _
          · exact hresume f r _ _ hres
        · intro hone
          rcases segment?_cases hseg with ⟨i, -, rfl, -⟩ | ⟨f, r, -, hf, hres⟩
          · have := (ih _).fresh le_rfl
            omega
          · exact hspent f r _ _ ((ih t').spends hone f (mem_of_lookup hf)) hres
      · refine (ih t).keep (fun f hf => ?_) started_next (by rw [countOf_map, if_neg ht])
        rw [htasks] at hf
        rcases List.mem_append.1 hf with hf | hf
        · exact absurd (mem_suspended.1 hf).1.symm ht
        · exact (mem_others.1 hf).1
    · exact (ih t).keep (fun f hf => hsub.subset hf) started_next rfl
    · rw [hout, hsame]
      exact (ih t).keep (fun _ hf => hf) le_rfl rfl

end Once

/-! ## What one task has let out -/

section Traces

/-- What `task` has let out. -/
def traceOf (task : ℕ) (outs : List (ℕ × Output ω δ)) : List (Output ω δ) :=
  (outs.filter fun o => o.1 = task).map Prod.snd

/-- Traces over a run in two parts are joined. -/
theorem traceOf_append {t : ℕ} {l l' : List (ℕ × Output ω δ)} :
    traceOf t (l ++ l') = traceOf t l ++ traceOf t l' := by
  simp [traceOf, List.filter_append]

/-- The outputs of one segment are in the trace of its own task only. -/
theorem traceOf_map (t t' : ℕ) (l : List (Output ω δ)) :
    traceOf t (l.map fun o => (t', o)) = if t' = t then l else [] := by
  unfold traceOf
  rw [List.filter_map, List.map_map]
  by_cases h : t' = t
  · simp [h, Function.comp_def]
  · simp [h, Function.comp_def]

/-- What is in a task's trace was let out by it. -/
theorem mem_traceOf {t : ℕ} {o : Output ω δ} {outs : List (ℕ × Output ω δ)} :
    o ∈ traceOf t outs ↔ (t, o) ∈ outs := by
  unfold traceOf
  simp only [List.mem_map, List.mem_filter, decide_eq_true_eq]
  constructor
  · rintro ⟨⟨t', o'⟩, ⟨hmem, rfl⟩, rfl⟩
    exact hmem
  · exact fun hmem => ⟨_, ⟨hmem, rfl⟩, rfl⟩

variable (K : φ → List (Output ω δ) → Prop) (D : δ → List (Output ω δ) → Prop)

/-- A segment run after the trace leaves one that fits its frame, or its result. -/
structure Segment.Fits (trace : List (Output ω δ)) (seg : Segment σ φ ω δ) : Prop where
  frame : ∀ f, seg.next = .inl f → K f (trace ++ seg.outputs)
  result : ∀ r, seg.next = .inr r → D r (trace ++ seg.outputs)

/-- Each task's trace fits the frame it is suspended in, or the result it has ended with. -/
structure Traced (w : World σ φ) (outs : List (ℕ × Output ω δ)) : Prop where
  fresh : ∀ t, w.started ≤ t → traceOf t outs = []
  suspended : ∀ tf ∈ w.tasks, K tf.2 (traceOf tf.1 outs) ∧ ∀ r, .done r ∉ traceOf tf.1 outs
  ended : ∀ t r, .done r ∈ traceOf t outs → D r (traceOf t outs)

variable {K D}

/-- One segment, of a task that had not ended. -/
theorem Traced.segment {outs : List (ℕ × Output ω δ)} {t : ℕ} {seg : Segment σ φ ω δ}
    (h : Traced K D w outs) (hw : w.WF) (hseg : M.segment? w e = some (t, seg))
    (hout : M.outputs w e = seg.outputs.map fun o => (t, o))
    (hnot : ∀ r, .done r ∉ traceOf t outs) (hfits : seg.Fits K D (traceOf t outs)) :
    Traced K D (M.next w e) (outs ++ M.outputs w e) := by
  have hself : traceOf t (outs ++ M.outputs w e) = traceOf t outs ++ seg.outputs := by
    rw [traceOf_append, hout, traceOf_map, if_pos rfl]
  have hother : ∀ t', t' ≠ t → traceOf t' (outs ++ M.outputs w e) = traceOf t' outs := by
    intro t' ht'
    rw [traceOf_append, hout, traceOf_map, if_neg ht'.symm, List.append_nil]
  refine ⟨fun t' ht' => ?_, fun tf htf => ?_, fun t' r hr => ?_⟩
  · have hne : t' ≠ t := by
      have := segment?_lt_started hw hseg
      omega
    rw [hother t' hne]
    exact h.fresh t' (started_next.trans ht')
  · rcases (mem_next_tasks hseg).1 htf with ⟨ht, hnext⟩ | ⟨hmem, hne⟩
    · rw [ht, hself]
      refine ⟨hfits.frame _ hnext, fun r hr => ?_⟩
      rcases List.mem_append.1 hr with hr | hr
      · exact hnot r hr
      · rw [done_mem_outputs, hnext] at hr
        cases hr
    · rw [hother tf.1 hne]
      exact h.suspended tf hmem
  · by_cases ht : t' = t
    · subst ht
      rw [hself] at hr ⊢
      rcases List.mem_append.1 hr with hr | hr
      · exact absurd hr (hnot r)
      · exact hfits.result r (done_mem_outputs.1 hr)
    · rw [hother t' ht] at hr ⊢
      exact h.ended t' r hr

/-- **The trace rule.** If every segment that a run may take fits what its task has let out
before, then so do all traces of the run. -/
theorem traced_run {C : World σ φ → Event ι ρ α → Prop}
    (hstart : ∀ w i, C w (.start i) → (M.start i w.shared).Fits K D [])
    (hresume : ∀ w t r f seg trace, C w (.resume t r) → w.tasks.lookup t = some f →
      M.resume f r w.shared = some seg → K f trace → seg.Fits K D trace)
    (s : σ) (es : List (Event ι ρ α))
    (hC : ∀ pre e post, es = pre ++ e :: post → C (M.run (boot s) pre) e) :
    Traced K D (M.run (boot s) es) (M.emitted (boot s) es) := by
  induction es using List.reverseRecOn with
  | nil =>
    refine ⟨fun _ _ => rfl, fun tf htf => ?_, fun t r hr => ?_⟩
    · cases htf
    · cases hr
  | append_singleton es e ih =>
    have htraced := ih fun pre e' post hes => hC pre e' (post ++ [e]) (by rw [hes]; simp)
    have hcond := hC es e [] rfl
    have hw : (M.run (boot s) es).WF := wf_run (wf_boot s) es
    rw [emitted_snoc, run_snoc]
    rcases next_cases (M := M) (M.run (boot s) es) e with
      ⟨t, seg, hseg, -, htasks, hout⟩ | ⟨op, rfl, -, hsub⟩ | ⟨hsame, hout⟩
    · rcases segment?_cases hseg with ⟨i, rfl, rfl, rfl⟩ | ⟨f, r, rfl, hf, hres⟩
      · have hempty := htraced.fresh _ le_rfl
        refine htraced.segment hw hseg hout (by simp [hempty]) ?_
        rw [hempty]
        exact hstart _ i hcond
      · obtain ⟨hK, hnot⟩ := htraced.suspended _ (mem_of_lookup hf)
        exact htraced.segment hw hseg hout hnot (hresume _ t r f seg _ hcond hf hres hK)
    · rw [outputs_admin, List.append_nil]
      exact ⟨fun t ht => htraced.fresh t (started_next.trans ht),
        fun tf htf => htraced.suspended tf (hsub.subset htf), htraced.ended⟩
    · rw [hout, hsame, List.append_nil]
      exact htraced

end Traces

end Async
