import Signbox.Guard.Asking

/-!
# Transcripts

A computation that asks may be answered by anybody: each answer is one that its question may get,
and the same question may get another answer the next time. A transcript is the questions that
were asked, with their answers.

* `Answered`: a computation ends with a result after a transcript.
* `Answered.allowed`: every answer of a transcript is one that its question may get.
* `Answered.bind_iff`: the transcript of a sequence is the transcripts of its parts.
* `Inquiry.Answered`: the same for computations that can fail, `Inquiry.answered_bind` for their
  sequence.
-/

namespace Guard

namespace Asking

variable {Q A α β : Type}

/-- `t` ends with the last argument, when its questions are answered as the transcript says; `R`
says which answers a question may get. -/
inductive Answered (R : Q → A → Prop) : Asking Q A α → List (Q × A) → α → Prop
  | done (a : α) : Answered R (.done a) [] a
  | ask {q : Q} {next : A → Asking Q A α} {b : A} {tr : List (Q × A)} {a : α} (h : R q b)
      (hrest : Answered R (next b) tr a) : Answered R (.ask q next) ((q, b) :: tr) a

variable {R R' : Q → A → Prop} {t : Asking Q A α} {tr : List (Q × A)} {a : α}

theorem Answered.allowed (h : Answered R t tr a) : ∀ p ∈ tr, R p.1 p.2 := by
  induction h with
  | done a => simp
  | ask hq _ ih =>
    intro p hp
    rcases List.mem_cons.1 hp with rfl | hp
    · exact hq
    · exact ih p hp

theorem Answered.mono (h : Answered R t tr a) (hR : ∀ q b, R q b → R' q b) : Answered R' t tr a := by
  induction h with
  | done a => exact .done a
  | ask hq _ ih => exact .ask (hR _ _ hq) ih

theorem Answered.bind {f : α → Asking Q A β} {tr' : List (Q × A)} {b : β} (ht : Answered R t tr a)
    (hf : Answered R (f a) tr' b) : Answered R (t >>= f) (tr ++ tr') b := by
  induction ht with
  | done a => exact hf
  | ask hq _ ih => exact .ask hq (ih hf)

/-- **The transcript of a sequence** is that of its first part and then that of its second, run on
the result of the first. -/
theorem Answered.bind_iff {f : α → Asking Q A β} {b : β} : Answered R (t >>= f) tr b ↔
    ∃ tr₁ tr₂ a, tr = tr₁ ++ tr₂ ∧ Answered R t tr₁ a ∧ Answered R (f a) tr₂ b := by
  constructor
  · intro h
    induction t generalizing tr with
    | done a => exact ⟨[], tr, a, rfl, .done a, h⟩
    | ask q next ih =>
      have h' : Answered R (.ask q fun c => next c >>= f) tr b := h
      cases h' with
      | ask hq hrest =>
        obtain ⟨tr₁, tr₂, a, rfl, hnext, hf⟩ := ih _ hrest
        exact ⟨_, tr₂, a, rfl, .ask hq hnext, hf⟩
  · rintro ⟨tr₁, tr₂, a, rfl, ht, hf⟩
    exact ht.bind hf

/-- The answers of a table make a transcript. -/
theorem answered_run (m : Q → A) (hm : ∀ q ∈ t.asked m, R q (m q)) :
    Answered R t ((t.asked m).map fun q => (q, m q)) (t.run m) := by
  induction t with
  | done a => exact .done a
  | ask q next ih =>
    obtain ⟨hq, hrest⟩ := List.forall_mem_cons.1 hm
    exact .ask hq (ih (m q) hrest)

end Asking

namespace Inquiry

variable {Q ε A δ α β : Type}

/-- A computation that can fail ends, with a result or a failure, after a transcript. -/
def Answered (R : Q → Except ε A → Prop) (t : Inquiry Q ε A δ α) (tr : List (Q × Except ε A))
    (x : Except δ α) : Prop := Asking.Answered R t.run tr x

variable {R : Q → Except ε A → Prop} {t : Inquiry Q ε A δ α} {tr : List (Q × Except ε A)}

theorem Answered.allowed {x : Except δ α} (h : Answered R t tr x) : ∀ p ∈ tr, R p.1 p.2 :=
  Asking.Answered.allowed h

theorem answered_run (m : Q → Except ε A) (hm : ∀ q ∈ asked m t, R q (m q)) :
    Answered R t ((asked m t).map fun q => (q, m q)) (outcome m t) := Asking.answered_run m hm

/-- **A sequence that succeeds** has a first part that succeeds, so its transcript can be cut at
the result. A failure anywhere else would have ended it. -/
theorem answered_bind {f : α → Inquiry Q ε A δ β} {b : β} : Answered R (t >>= f) tr (.ok b) ↔
    ∃ tr₁ tr₂ a, tr = tr₁ ++ tr₂ ∧ Answered R t tr₁ (.ok a) ∧ Answered R (f a) tr₂ (.ok b) := by
  have hbind : Answered R (t >>= f) tr (.ok b) ↔
      Asking.Answered R (t.run >>= ExceptT.bindCont f) tr (.ok b) := Iff.rfl
  rw [hbind, Asking.Answered.bind_iff]
  constructor
  · rintro ⟨tr₁, tr₂, x, heq, ht, hf⟩
    cases x with
    | error e => cases hf
    | ok a => exact ⟨tr₁, tr₂, a, heq, ht, hf⟩
  · rintro ⟨tr₁, tr₂, a, heq, ht, hf⟩
    exact ⟨tr₁, tr₂, .ok a, heq, ht, hf⟩

/-- A part without questions. -/
theorem answered_settled {x : Except δ α} {y : Except δ α} :
    Answered R (settled x : Inquiry Q ε A δ α) tr y ↔ tr = [] ∧ y = x := by
  constructor
  · intro h
    have h' : Asking.Answered R (.done x) tr y := h
    cases h'
    exact ⟨rfl, rfl⟩
  · rintro ⟨rfl, rfl⟩
    exact .done _

/-- One question that is answered. -/
theorem answered_inquire {embed : ε → δ} {q : Q} {a : A} :
    Answered R (inquire embed q) tr (.ok a) ↔ tr = [(q, .ok a)] ∧ R q (.ok a) := by
  constructor
  · intro h
    have h' : Asking.Answered R (.ask q fun x => .done (x.mapError embed)) tr (.ok a) := h
    generalize hout : (Except.ok a : Except δ A) = out at h'
    cases h' with
    | @ask _ _ b _ _ hq hrest =>
      cases hrest
      cases b with
      | error e => cases hout
      | ok b =>
        obtain rfl := Except.ok.inj hout
        exact ⟨rfl, hq⟩
  · rintro ⟨rfl, hq⟩
    exact .ask hq (.done _)

end Inquiry

end Guard
