import Signbox.Guard.ShortCircuit

/-!
# Computations that ask

A computation is a tree: it is done, or it asks a question and goes on from the answer. A
table of answers runs it. The questions that a run asks are all it depends on.

* `outcome_congr`: tables that agree on the questions asked give the same result.
* `asked_differs`: tables that differ on a question asked by the run of one differ on a
  question asked by the run of the other.
* `Relays`: a failing answer ends the run with that failure, and the failures of a class come
  from answers only. `Relays.fails_of_differs`: two tables, where the second fails in that class
  wherever it differs from the first.
-/

namespace Guard

/-- A computation with a result in `α` that asks questions of `Q`, answered in `A`. -/
inductive Asking (Q A α : Type) where
  | done (a : α)
  | ask (q : Q) (next : A → Asking Q A α)

namespace Asking

variable {Q A α β : Type}

/-- One computation after another: the questions of the second depend on the answer of the
first. -/
def bind (t : Asking Q A α) (f : α → Asking Q A β) : Asking Q A β :=
  match t with
  | .done a => f a
  | .ask q next => .ask q fun b => (next b).bind f

/-- The sequencing that `do` uses. -/
instance : Monad (Asking Q A) where
  pure := .done
  bind := Asking.bind

/-- The result when the questions are answered by `m`. -/
def run (m : Q → A) : Asking Q A α → α
  | .done a => a
  | .ask q next => (next (m q)).run m

/-- The questions asked when they are answered by `m`, in order. -/
def asked (m : Q → A) : Asking Q A α → List Q
  | .done _ => []
  | .ask q next => q :: (next (m q)).asked m

variable {m m' : Q → A}

/-- Answered by an oracle, a sequence runs its parts one after the other. -/
theorem run_bind (t : Asking Q A α) (f : α → Asking Q A β) :
    (t >>= f).run m = (f (t.run m)).run m := by
  induction t with
  | done a => rfl
  | ask q next ih => exact ih (m q)

/-- And the questions asked are those of the first part, then those of the second. -/
theorem asked_bind (t : Asking Q A α) (f : α → Asking Q A β) :
    (t >>= f).asked m = t.asked m ++ (f (t.run m)).asked m := by
  induction t with
  | done a => rfl
  | ask q next ih => exact congrArg (q :: ·) (ih (m q))

/-- A run depends only on the answers it asked for. -/
theorem run_congr {t : Asking Q A α} (h : ∀ q ∈ t.asked m, m' q = m q) :
    t.run m' = t.run m := by
  induction t with
  | done a => rfl
  | ask q next ih =>
    obtain ⟨hq, hrest⟩ := List.forall_mem_cons.1 h
    have hnext := ih (m q) hrest
    rw [run, run, hq, hnext]

/-- Up to the first difference both runs ask the same. -/
theorem asked_differs {t : Asking Q A α} (h : ∃ q ∈ t.asked m, m' q ≠ m q) :
    ∃ q ∈ t.asked m', m' q ≠ m q := by
  induction t with
  | done a =>
    obtain ⟨q, hq, -⟩ := h
    exact absurd hq List.not_mem_nil
  | ask q next ih =>
    by_cases hq : m' q = m q
    · obtain ⟨q', hq', hne⟩ := h
      rcases List.mem_cons.1 hq' with rfl | hq'
      · exact absurd hq hne
      · obtain ⟨r, hr, hne⟩ := ih (m q) ⟨q', hq', hne⟩
        refine ⟨r, List.mem_cons_of_mem _ ?_, hne⟩
        rwa [hq]
    · exact ⟨q, List.mem_cons_self, hq⟩

end Asking

/-! ## Computations that can fail -/

/-- A computation that can fail with `δ`, and whose questions can fail with `ε`. -/
abbrev Inquiry (Q ε A δ : Type) : Type → Type := ExceptT δ (Asking Q (Except ε A))

namespace Inquiry

variable {Q ε A δ α β : Type} {m m' : Q → Except ε A}

/-- The result when every question is answered by `m`. -/
def outcome (m : Q → Except ε A) (t : Inquiry Q ε A δ α) : Except δ α := Asking.run m t.run

/-- The questions that are then asked, in their order. -/
def asked (m : Q → Except ε A) (t : Inquiry Q ε A δ α) : List Q := Asking.asked m t.run

/-- Ask, and fail with the failure of the answer. -/
def inquire (embed : ε → δ) (q : Q) : Inquiry Q ε A δ A :=
  ExceptT.mk (.ask q fun x => .done (x.mapError embed))

/-- A computation without questions. -/
def settled (x : Except δ α) : Inquiry Q ε A δ α := ExceptT.mk (.done x)

/-- A question comes to its answer, a failing answer being embedded. -/
@[simp] theorem outcome_inquire (embed : ε → δ) (q : Q) :
    outcome m (inquire embed q) = (m q).mapError embed := rfl

/-- A settled computation comes to its result without an oracle. -/
@[simp] theorem outcome_settled (x : Except δ α) : outcome m (settled x) = x := rfl

@[simp] theorem outcome_pure (a : α) : outcome m (pure a : Inquiry Q ε A δ α) = .ok a := rfl

/-- A sequence comes to what its parts come to, and stops where one of them fails. -/
@[simp] theorem outcome_bind (t : Inquiry Q ε A δ α) (f : α → Inquiry Q ε A δ β) :
    outcome m (t >>= f) = outcome m t >>= fun a => outcome m (f a) := by
  have hrun := Asking.run_bind (m := m) t.run (ExceptT.bindCont f)
  have hbind : outcome m (t >>= f) = Asking.run m (ExceptT.bindCont f (outcome m t)) := hrun
  rw [hbind]
  cases outcome m t <;> rfl

/-- A question of a sequence is asked by its first part, or by its second after the first has
succeeded. -/
theorem mem_asked_bind {t : Inquiry Q ε A δ α} {f : α → Inquiry Q ε A δ β} {q : Q} :
    q ∈ asked m (t >>= f) ↔ q ∈ asked m t ∨ ∃ a, outcome m t = .ok a ∧ q ∈ asked m (f a) := by
  have hrun := Asking.asked_bind (m := m) t.run (ExceptT.bindCont f)
  have hbind : asked m (t >>= f) =
    asked m t ++ Asking.asked m (ExceptT.bindCont f (outcome m t)) := hrun
  rw [hbind, List.mem_append]
  cases outcome m t with
  | error d => simp [ExceptT.bindCont, Pure.pure, Asking.asked]
  | ok a => simp [ExceptT.bindCont, asked, ExceptT.run]

/-- Oracles that agree on the questions asked give one outcome. This is what lets evidence be
fetched in advance for these questions alone. -/
theorem outcome_congr {t : Inquiry Q ε A δ α} (h : ∀ q ∈ asked m t, m' q = m q) :
    outcome m' t = outcome m t :=
  Asking.run_congr h

variable {embed : ε → δ}

/-! ## Failures -/

/-- A failing answer ends the run, and a failure in `E` is that of an answer. -/
structure Relays (embed : ε → δ) (E : δ → Prop) (t : Inquiry Q ε A δ α) : Prop where
  stops : ∀ m q e, q ∈ asked m t → m q = .error e → outcome m t = .error (embed e)
  origin : ∀ m d, outcome m t = .error d → E d → ∃ q ∈ asked m t, ∃ e, m q = .error e ∧ embed e = d

namespace Relays

variable {E : δ → Prop} {t : Inquiry Q ε A δ α}

/-- A settled computation relays vacuously, unless it fails on its own account. -/
theorem settled {x : Except δ α} (h : ∀ d, x = .error d → ¬ E d) :
    Relays embed E (settled x : Inquiry Q ε A δ α) := by
  constructor
  · intro m q e hq
    exact absurd hq List.not_mem_nil
  · intro m d hd hE
    exact absurd hE (h d hd)

/-- A question relays its failing answer. -/
theorem inquire (q : Q) : Relays embed E (inquire embed q : Inquiry Q ε A δ A) := by
  constructor
  · intro m q' e hq' he
    obtain rfl := List.mem_singleton.1 hq'
    rw [outcome_inquire, he]
    rfl
  · intro m d hd _
    rw [outcome_inquire] at hd
    cases hm : m q with
    | ok a => rw [hm] at hd; exact nomatch hd
    | error e =>
      rw [hm] at hd
      exact ⟨q, List.mem_singleton.2 rfl, e, hm, Except.error.inj hd⟩

/-- Relaying is kept by sequencing, since whatever the first part relays ends the whole. -/
theorem bind {f : α → Inquiry Q ε A δ β} (ht : Relays embed E t)
    (hf : ∀ a, Relays embed E (f a)) : Relays embed E (t >>= f) := by
  constructor
  · intro m q e hq he
    rw [outcome_bind]
    rcases mem_asked_bind.1 hq with hq | ⟨a, ha, hq⟩
    · rw [ht.stops m q e hq he]
      rfl
    · rw [ha]
      exact (hf a).stops m q e hq he
  · intro m d hd hE
    rw [outcome_bind] at hd
    rcases bind_error.1 hd with hd | ⟨a, ha, hd⟩
    · obtain ⟨q, hq, he⟩ := ht.origin m d hd hE
      exact ⟨q, mem_asked_bind.2 (Or.inl hq), he⟩
    · obtain ⟨q, hq, he⟩ := (hf a).origin m d hd hE
      exact ⟨q, mem_asked_bind.2 (Or.inr ⟨a, ha, hq⟩), he⟩

/-- A result relays nothing. -/
theorem pure (a : α) : Relays embed E (pure a : Inquiry Q ε A δ α) :=
  settled fun _ h => nomatch h

/-- Nor does a failure of another kind. -/
theorem throw {d : δ} (h : ¬ E d) : Relays embed E (throw d : Inquiry Q ε A δ α) :=
  settled fun _ hd => Except.error.inj hd ▸ h

/-- Where a table differs from another by a failure in `E`, its run ends with such a failure. -/
theorem fails_of_differs (ht : Relays embed E t)
    (hm : ∀ q, m' q = m q ∨ ∃ e, E (embed e) ∧ m' q = .error e)
    (h : ∃ q ∈ asked m t, m' q ≠ m q) : ∃ d, E d ∧ outcome m' t = .error d := by
  obtain ⟨q, hq, hne⟩ := Asking.asked_differs h
  obtain ⟨e, hE, he⟩ := (hm q).resolve_left hne
  exact ⟨embed e, hE, ht.stops m' q e hq he⟩

end Relays

/-! ## Loops -/

variable {γ : Type} {l : List γ}

/-- A search that asks at each element comes to the search over the answers, -/
theorem outcome_anyM (p : γ → Inquiry Q ε A δ Bool) (l : List γ) :
    outcome m (l.anyM p) = l.anyM fun x => outcome m (p x) := by
  induction l with
  | nil => rfl
  | cons x l ih =>
    rw [List.anyM, List.anyM, outcome_bind]
    refine bind_congr_ok fun b _ => ?_
    cases b
    · exact ih
    · rfl

/-- so does the one for a first element, -/
theorem outcome_findM? (p : γ → Inquiry Q ε A δ Bool) (l : List γ) :
    outcome m (l.findM? p) = l.findM? fun x => outcome m (p x) := by
  induction l with
  | nil => rfl
  | cons x l ih =>
    rw [List.findM?, List.findM?, outcome_bind]
    refine bind_congr_ok fun b _ => ?_
    cases b
    · exact ih
    · rfl

/-- and so does a fold. -/
theorem outcome_foldlM (f : β → γ → Inquiry Q ε A δ β) (b : β) (l : List γ) :
    outcome m (l.foldlM f b) = l.foldlM (fun b x => outcome m (f b x)) b := by
  induction l generalizing b with
  | nil => rfl
  | cons x l ih =>
    rw [List.foldlM_cons, List.foldlM_cons, outcome_bind]
    exact bind_congr_ok fun c _ => ih c

variable {E : δ → Prop}

/-- Searches relay when their steps do, -/
theorem Relays.anyM {p : γ → Inquiry Q ε A δ Bool} (h : ∀ x, Relays embed E (p x)) :
    Relays embed E (l.anyM p) := by
  induction l with
  | nil => exact .pure false
  | cons x l ih =>
    rw [List.anyM]
    refine (h x).bind fun b => ?_
    cases b
    · exact ih
    · exact .pure true

/-- whichever of the two they are, -/
theorem Relays.findM? {p : γ → Inquiry Q ε A δ Bool} (h : ∀ x, Relays embed E (p x)) :
    Relays embed E (l.findM? p) := by
  induction l with
  | nil => exact .pure none
  | cons x l ih =>
    rw [List.findM?]
    refine (h x).bind fun b => ?_
    cases b
    · exact ih
    · exact .pure (some x)

/-- and folds likewise. -/
theorem Relays.foldlM {f : β → γ → Inquiry Q ε A δ β} (h : ∀ b x, Relays embed E (f b x)) (b : β) :
    Relays embed E (l.foldlM f b) := by
  induction l generalizing b with
  | nil => exact .pure b
  | cons x l ih =>
    rw [List.foldlM_cons]
    exact (h b x).bind ih

end Inquiry

end Guard
