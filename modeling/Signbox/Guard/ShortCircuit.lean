import Mathlib.Data.List.Forall2
import Mathlib.Tactic.Tauto

/-!
# Short-circuit checks that can fail

A check is a function to `Except ε Bool`: it answers yes, answers no, or fails. A list
of checks is run from the left and stops as soon as the answer is known, so a later
check never shows through an earlier decisive one.

* `FirstAt B A l x`: `x` is in `l`, satisfies `A`, and everything before it satisfies `B`.
* `allM_ok_true`, `allM_ok_false`, `anyM_ok_false`, `anyM_ok_true`, `findM?_ok_some`: the
  outcomes of the three loops in these terms. `mapM_ok_mem` says where a result comes from.
* `foldlM_leaves`: what every step of a loop with a growing accumulator leaves behind;
  `foldlM_guarded`: a loop that checks each element and adds its row.
* `allM_reorder`: when another order of the checks gives the same outcome.
* `bind_ok`, `bind_error`: the inversion of a sequenced computation; `failIf` is its
  early exit. `FailsIn`: the class its errors are in.
-/

namespace Guard

variable {ε α β : Type}

/-! ## Sequencing -/

/-- Returning a value is succeeding with it. -/
@[simp] theorem pure_eq (a : α) : (pure a : Except ε α) = .ok a := rfl

/-- Throwing is failing with the error. -/
@[simp] theorem throw_eq (e : ε) : (throw e : Except ε α) = .error e := rfl

/-- After a success the computation goes on with its value. -/
@[simp] theorem ok_bind (a : α) (f : α → Except ε β) : Except.ok a >>= f = f a := rfl

/-- After a failure nothing more is done. -/
@[simp] theorem error_bind (e : ε) (f : α → Except ε β) : Except.error e >>= f = .error e := rfl

/-- A sequence succeeds when its first part does and the rest succeeds on what the first part gave.
Every proof that takes a check apart goes through here. -/
theorem bind_ok {x : Except ε α} {f : α → Except ε β} {b : β} :
    x >>= f = .ok b ↔ ∃ a, x = .ok a ∧ f a = .ok b := by
  cases x <;> simp [Bind.bind, Except.bind]

/-- A sequence fails in its first part, or in the rest after the first part succeeded. -/
theorem bind_error {x : Except ε α} {f : α → Except ε β} {e : ε} :
    x >>= f = .error e ↔ x = .error e ∨ ∃ a, x = .ok a ∧ f a = .error e := by
  cases x <;> simp [Bind.bind, Except.bind]

/-! ## Stateful runs -/

/-- The same with a state, which a failing first part has already changed. -/
theorem run_bind {σ : Type} (x : EStateM ε σ α) (f : α → EStateM ε σ β) (w : σ) :
    (x >>= f) w = match x w with
      | .ok a w' => f a w'
      | .error e w' => .error e w' := by
  show EStateM.bind x f w = _
  unfold EStateM.bind
  cases x w <;> rfl

/-- A handler starts from the state the error was thrown in. -/
theorem run_tryCatch {σ : Type} (x : EStateM ε σ α) (handle : ε → EStateM ε σ α) (w : σ) :
    (tryCatch x handle) w = match x w with
      | .ok a w' => .ok a w'
      | .error e w' => handle e w' := by
  show EStateM.tryCatch x handle w = _
  unfold EStateM.tryCatch
  cases x w <;> rfl

/-- Stop with `e` when `c` holds. -/
def failIf (c : Prop) [Decidable c] (e : ε) : Except ε Unit := if c then .error e else .ok ()

/-- A check passes exactly when what it rejects does not hold. -/
@[simp] theorem failIf_ok {c : Prop} [Decidable c] {e : ε} {u : Unit} :
    failIf c e = .ok u ↔ ¬ c := by
  unfold failIf
  by_cases h : c <;> simp [h]

/-- A check fails with its own error, and only when what it rejects holds. -/
@[simp] theorem failIf_error {c : Prop} [Decidable c] {e e' : ε} :
    failIf c e = .error e' ↔ c ∧ e = e' := by
  unfold failIf
  by_cases h : c <;> simp [h]

/-- Run a check on a value that is there. -/
def whenSome (o : Option α) (f : α → Except ε Unit) : Except ε Unit :=
  match o with
  | none => .ok ()
  | some a => f a

/-- A check of an optional value passes when the value is absent or passes. -/
@[simp] theorem whenSome_ok {o : Option α} {f : α → Except ε Unit} {u : Unit} :
    whenSome o f = .ok u ↔ ∀ a, o = some a → f a = .ok () := by
  cases o <;> simp [whenSome]

/-- A bind sees only the values its first part returns. -/
theorem bind_congr_ok {x : Except ε α} {f g : α → Except ε β}
    (h : ∀ a, x = .ok a → f a = g a) : x >>= f = x >>= g := by
  cases x with
  | error e => rfl
  | ok a => exact h a rfl

/-- Every error of the computation satisfies `P`. -/
def FailsIn (P : ε → Prop) (x : Except ε α) : Prop := ∀ e, x = .error e → P e

namespace FailsIn

variable {P : ε → Prop}

/-- A success fails in no way at all. -/
theorem ok (a : α) : FailsIn P (.ok a) := fun _ h => nomatch h

/-- A failure of the given kind is of that kind. -/
theorem error {e : ε} (h : P e) : FailsIn P (.error e : Except ε α) :=
  fun _ he => Except.error.inj he ▸ h

/-- A sequence fails in the kind that both of its parts fail in. -/
theorem bind {x : Except ε α} {f : α → Except ε β} (hx : FailsIn P x)
    (hf : ∀ a, FailsIn P (f a)) : FailsIn P (x >>= f) := by
  intro e he
  rcases bind_error.1 he with he | ⟨a, -, he⟩
  · exact hx e he
  · exact hf a e he

/-- A check fails in the kind of its error. -/
theorem failIf {c : Prop} [Decidable c] {e : ε} (h : P e) : FailsIn P (Guard.failIf c e) := by
  rintro e' he
  obtain ⟨-, rfl⟩ := failIf_error.1 he
  exact h

/-- A computation under an option fails in the kind it has by itself. -/
theorem optionMapM {f : α → Except ε β} (hf : ∀ a, FailsIn P (f a)) (o : Option α) :
    FailsIn P (o.mapM f) := by
  cases o with
  | none => exact ok none
  | some a => exact (hf a).bind fun b => ok (some b)

end FailsIn

/-! ## The first decisive element -/

/-- `x` is an element of `l` that satisfies `A`, and all elements before it satisfy `B`. -/
def FirstAt (B A : α → Prop) (l : List α) (x : α) : Prop :=
  ∃ pre post, l = pre ++ x :: post ∧ (∀ y ∈ pre, B y) ∧ A x

/-- The element found is one of the list. -/
theorem FirstAt.mem {B A : α → Prop} {l : List α} {x : α} (h : FirstAt B A l x) : x ∈ l := by
  obtain ⟨pre, post, rfl, -, -⟩ := h
  simp

/-- The element found has the property searched for. -/
theorem FirstAt.holds {B A : α → Prop} {l : List α} {x : α} (h : FirstAt B A l x) : A x := by
  obtain ⟨-, -, -, -, hx⟩ := h
  exact hx

/-- In an empty list nothing is found. -/
theorem not_firstAt_nil {B A : α → Prop} {x : α} : ¬ FirstAt B A [] x := by
  rintro ⟨pre, post, h, -⟩
  simp at h

/-- The first element is the one found, or it is passed over and the rest is searched. -/
theorem firstAt_cons {B A : α → Prop} {a x : α} {l : List α} :
    FirstAt B A (a :: l) x ↔ (x = a ∧ A a) ∨ (B a ∧ FirstAt B A l x) := by
  constructor
  · rintro ⟨pre, post, h, hB, hA⟩
    cases pre with
    | nil =>
      simp only [List.nil_append, List.cons.injEq] at h
      obtain ⟨rfl, -⟩ := h
      exact Or.inl ⟨rfl, hA⟩
    | cons b pre =>
      simp only [List.cons_append, List.cons.injEq] at h
      obtain ⟨rfl, rfl⟩ := h
      exact Or.inr ⟨hB a (by simp), pre, post, rfl, fun y hy => hB y (by simp [hy]), hA⟩
  · rintro (⟨rfl, hA⟩ | ⟨hB, pre, post, rfl, hpre, hA⟩)
    · exact ⟨[], l, rfl, by simp, hA⟩
    · refine ⟨a :: pre, post, rfl, ?_, hA⟩
      intro y hy
      rcases List.mem_cons.1 hy with rfl | hy
      · exact hB
      · exact hpre y hy

/-- A weaker condition on what is passed over, and on what is found, finds the same element. -/
theorem FirstAt.mono {B B' A A' : α → Prop} {l : List α} {x : α} (h : FirstAt B A l x)
    (hB : ∀ y ∈ l, B y → B' y) (hA : A x → A' x) : FirstAt B' A' l x := by
  obtain ⟨pre, post, rfl, hpre, hx⟩ := h
  exact ⟨pre, post, rfl, fun y hy => hB y (by simp [hy]) (hpre y hy), hA hx⟩

/-- Two first elements of one list agree when no element can be both before and at. -/
theorem FirstAt.unique {B A : α → Prop} {l : List α} {x y : α} (hAB : ∀ z, A z → ¬ B z)
    (hx : FirstAt B A l x) (hy : FirstAt B A l y) : x = y := by
  induction l with
  | nil => exact absurd hx not_firstAt_nil
  | cons a l ih =>
    rcases firstAt_cons.1 hx with ⟨rfl, hA⟩ | ⟨hB, hx⟩ <;>
      rcases firstAt_cons.1 hy with ⟨rfl, hA'⟩ | ⟨hB', hy⟩
    · rfl
    · exact absurd hB' (hAB _ hA)
    · exact absurd hB (hAB _ hA')
    · exact ih hx hy

/-- Past a list that holds nothing the search goes on in the next one. -/
theorem firstAt_append {B A : α → Prop} {l l' : List α} {x : α} :
    FirstAt B A (l ++ l') x ↔ FirstAt B A l x ∨ ((∀ y ∈ l, B y) ∧ FirstAt B A l' x) := by
  induction l with
  | nil => simp [not_firstAt_nil]
  | cons a l ih =>
    rw [List.cons_append, firstAt_cons, firstAt_cons, ih]
    simp only [List.forall_mem_cons]
    tauto

/-! ## The three loops -/

variable {p q : α → Except ε Bool} {l : List α}

/-- One step of the conjunction: it stops at the first element that does not hold. -/
theorem allM_cons {a : α} : (a :: l).allM p = p a >>= fun b => if b then l.allM p else .ok false := by
  rw [List.allM]
  congr 1
  funext b
  cases b <;> rfl

/-- One step of the disjunction: it stops at the first element that holds. -/
theorem anyM_cons {a : α} : (a :: l).anyM p = p a >>= fun b => if b then .ok true else l.anyM p := by
  rw [List.anyM]
  congr 1
  funext b
  cases b <;> rfl

/-- One step of the search: it stops at the first element that holds. -/
theorem findM?_cons {a : α} :
    (a :: l).findM? p = p a >>= fun b => if b then .ok (some a) else l.findM? p := by
  rw [List.findM?]
  congr 1
  funext b
  cases b <;> rfl

/-- The conjunction holds exactly when every element does, so every element was looked at and none
of them failed. -/
theorem allM_ok_true : l.allM p = .ok true ↔ ∀ x ∈ l, p x = .ok true := by
  induction l with
  | nil => simp [List.allM, Pure.pure, Except.pure]
  | cons a l ih =>
    rw [allM_cons, bind_ok]
    constructor
    · rintro ⟨b, ha, h⟩
      cases b with
      | false => simp at h
      | true => simpa [ha] using ih.1 h
    · intro h
      exact ⟨true, h a (by simp), ih.2 fun x hx => h x (by simp [hx])⟩

/-- The conjunction is refuted at a first element, and what stands before it held. What stands
after it was not looked at. -/
theorem allM_ok_false :
    l.allM p = .ok false ↔ ∃ x, FirstAt (fun y => p y = .ok true) (fun y => p y = .ok false) l x := by
  induction l with
  | nil => simp [List.allM, Pure.pure, Except.pure, not_firstAt_nil]
  | cons a l ih =>
    rw [allM_cons, bind_ok]
    constructor
    · rintro ⟨b, ha, h⟩
      cases b with
      | false => exact ⟨a, firstAt_cons.2 (Or.inl ⟨rfl, ha⟩)⟩
      | true =>
        obtain ⟨x, hx⟩ := ih.1 h
        exact ⟨x, firstAt_cons.2 (Or.inr ⟨ha, hx⟩)⟩
    · rintro ⟨x, hx⟩
      rcases firstAt_cons.1 hx with ⟨-, ha⟩ | ⟨ha, hx⟩
      · exact ⟨false, ha, rfl⟩
      · exact ⟨true, ha, ih.2 ⟨x, hx⟩⟩

/-- The disjunction is refuted exactly when every element is, none of them failing. -/
theorem anyM_ok_false : l.anyM p = .ok false ↔ ∀ x ∈ l, p x = .ok false := by
  induction l with
  | nil => simp [List.anyM, Pure.pure, Except.pure]
  | cons a l ih =>
    rw [anyM_cons, bind_ok]
    constructor
    · rintro ⟨b, ha, h⟩
      cases b with
      | true => simp at h
      | false => simpa [ha] using ih.1 h
    · intro h
      exact ⟨false, h a (by simp), ih.2 fun x hx => h x (by simp [hx])⟩

/-- The disjunction holds at a first element, and what stands before it was refuted without
failing. -/
theorem anyM_ok_true :
    l.anyM p = .ok true ↔ ∃ x, FirstAt (fun y => p y = .ok false) (fun y => p y = .ok true) l x := by
  induction l with
  | nil => simp [List.anyM, Pure.pure, Except.pure, not_firstAt_nil]
  | cons a l ih =>
    rw [anyM_cons, bind_ok]
    constructor
    · rintro ⟨b, ha, h⟩
      cases b with
      | true => exact ⟨a, firstAt_cons.2 (Or.inl ⟨rfl, ha⟩)⟩
      | false =>
        obtain ⟨x, hx⟩ := ih.1 h
        exact ⟨x, firstAt_cons.2 (Or.inr ⟨ha, hx⟩)⟩
    · rintro ⟨x, hx⟩
      rcases firstAt_cons.1 hx with ⟨-, ha⟩ | ⟨ha, hx⟩
      · exact ⟨true, ha, rfl⟩
      · exact ⟨false, ha, ih.2 ⟨x, hx⟩⟩

/-- A search finds the first element that holds, past elements that were refuted without
failing. -/
theorem findM?_ok_some {x : α} : l.findM? p = .ok (some x) ↔
    FirstAt (fun y => p y = .ok false) (fun y => p y = .ok true) l x := by
  induction l with
  | nil => simp [List.findM?, Pure.pure, Except.pure, not_firstAt_nil]
  | cons a l ih =>
    rw [findM?_cons, bind_ok, firstAt_cons]
    constructor
    · rintro ⟨b, ha, h⟩
      cases b with
      | true =>
        simp only [if_true, Except.ok.injEq, Option.some.injEq] at h
        exact Or.inl ⟨h.symm, ha⟩
      | false => exact Or.inr ⟨ha, ih.1 h⟩
    · rintro (⟨rfl, ha⟩ | ⟨ha, hx⟩)
      · exact ⟨true, ha, rfl⟩
      · exact ⟨false, ha, ih.2 hx⟩

/-- A loop of checks passes when each of them does. -/
theorem forM_ok {f : α → Except ε Unit} : forM l f = .ok () ↔ ∀ x ∈ l, f x = .ok () := by
  induction l with
  | nil => simp
  | cons a l ih =>
    rw [List.forM_cons, bind_ok]
    constructor
    · rintro ⟨⟨⟩, ha, hl⟩ x hx
      rcases List.mem_cons.1 hx with rfl | hx
      · exact ha
      · exact ih.1 hl x hx
    · intro h
      exact ⟨(), h a (by simp), ih.2 fun x hx => h x (by simp [hx])⟩

/-! ## Loops with an accumulator -/

variable {σ : Type} {f : σ → α → Except ε σ}

/-- A loop whose accumulator only grows leaves behind what each of its steps leaves. -/
theorem foldlM_leaves {R : σ → σ → Prop} {P : α → σ → Prop} (hrefl : ∀ s, R s s)
    (htrans : ∀ s t u, R s t → R t u → R s u) (hmono : ∀ a s t, R s t → P a s → P a t)
    (hstep : ∀ a ∈ l, ∀ s t, f s a = .ok t → R s t ∧ P a t) :
    ∀ {s t : σ}, l.foldlM f s = .ok t → R s t ∧ ∀ a ∈ l, P a t := by
  induction l with
  | nil =>
    intro s t h
    simp only [List.foldlM_nil, pure_eq, Except.ok.injEq] at h
    subst h
    exact ⟨hrefl s, by simp⟩
  | cons a l ih =>
    intro s t h
    rw [List.foldlM_cons] at h
    obtain ⟨u, hu, h⟩ := bind_ok.1 h
    obtain ⟨hsu, hau⟩ := hstep a (by simp) s u hu
    obtain ⟨hut, hl⟩ := ih (fun b hb => hstep b (by simp [hb])) h
    exact ⟨htrans s u t hsu hut, List.forall_mem_cons.2 ⟨hmono a u t hut hau, hl⟩⟩

/-- A loop none of whose steps fails ends. -/
theorem foldlM_total (hstep : ∀ a ∈ l, ∀ s, ∃ t, f s a = .ok t) (s : σ) :
    ∃ t, l.foldlM f s = .ok t := by
  induction l generalizing s with
  | nil => exact ⟨s, rfl⟩
  | cons a l ih =>
    obtain ⟨u, hu⟩ := hstep a (by simp) s
    obtain ⟨t, ht⟩ := ih (fun b hb => hstep b (by simp [hb])) u
    exact ⟨t, by rw [List.foldlM_cons, hu, ok_bind, ht]⟩

/-- A loop that checks each element against the rows so far and then adds the element's row:
it ends exactly when each check passes, with all rows added. -/
theorem foldlM_guarded {check : List β → α → Except ε Unit} {row : α → β} :
    ∀ {s t : List β}, l.foldlM (fun s a => do check s a; return s ++ [row a]) s = .ok t ↔
      t = s ++ l.map row ∧ ∀ pre a post, l = pre ++ a :: post →
        check (s ++ pre.map row) a = .ok () := by
  induction l with
  | nil =>
    intro s t
    simp [eq_comm]
  | cons b l ih =>
    intro s t
    rw [List.foldlM_cons, bind_ok]
    constructor
    · rintro ⟨u, hu, h⟩
      obtain ⟨⟨⟩, hb, hu⟩ := bind_ok.1 hu
      simp only [pure_eq, Except.ok.injEq] at hu
      subst hu
      obtain ⟨rfl, hchecks⟩ := ih.1 h
      refine ⟨by simp, ?_⟩
      intro pre a post hl
      cases pre with
      | nil =>
        simp only [List.nil_append, List.cons.injEq] at hl
        rw [← hl.1]
        simpa using hb
      | cons c pre =>
        simp only [List.cons_append, List.cons.injEq] at hl
        have hc := hchecks pre a post hl.2
        rw [hl.1] at hc
        simpa using hc
    · rintro ⟨rfl, hchecks⟩
      have hb : check s b = .ok () := by simpa using hchecks [] b l rfl
      refine ⟨s ++ [row b], by rw [hb]; rfl, ih.2 ⟨by simp, ?_⟩⟩
      intro pre a post hl
      simpa using hchecks (b :: pre) a post (by rw [hl]; rfl)

/-- Two steps that agree on the elements of a list fold alike over it. -/
theorem foldlM_congr {f' : σ → α → Except ε σ} (h : ∀ s, ∀ x ∈ l, f s x = f' s x) (s : σ) :
    l.foldlM f s = l.foldlM f' s := by
  induction l generalizing s with
  | nil => rfl
  | cons a l ih =>
    rw [List.foldlM_cons, List.foldlM_cons, h s a (by simp)]
    exact bind_congr_ok fun t _ => ih (fun s x hx => h s x (by simp [hx])) t

/-- Every element of the second list is related to one of the first. -/
theorem forall₂_right {R : α → β → Prop} {l' : List β} {b : β} (h : List.Forall₂ R l l')
    (hb : b ∈ l') : ∃ a ∈ l, R a b := by
  induction h with
  | nil => simp at hb
  | cons hab _ ih =>
    rcases List.mem_cons.1 hb with rfl | hb
    · exact ⟨_, by simp, hab⟩
    · obtain ⟨a, ha, hR⟩ := ih hb
      exact ⟨a, List.mem_cons_of_mem _ ha, hR⟩

/-- A mapping loop that does not throw. -/
theorem mapM_ok {f : α → Except ε β} {l' : List β} :
    l.mapM f = .ok l' ↔ List.Forall₂ (fun a b => f a = .ok b) l l' := by
  induction l generalizing l' with
  | nil => rw [List.mapM_nil, pure_eq, Except.ok.injEq, List.forall₂_nil_left_iff, eq_comm]
  | cons a l ih =>
    rw [List.mapM_cons, List.forall₂_cons_left_iff]
    simp only [bind_ok, pure_eq, Except.ok.injEq]
    constructor
    · rintro ⟨b, hb, bs, hbs, rfl⟩
      exact ⟨b, bs, hb, ih.1 hbs, rfl⟩
    · rintro ⟨b, bs, hb, hbs, rfl⟩
      exact ⟨b, hb, bs, ih.2 hbs, rfl⟩

/-- A result of a mapping loop comes from an element of the list. -/
theorem mapM_ok_mem {f : α → Except ε β} {l' : List β} {b : β} (h : l.mapM f = .ok l')
    (hb : b ∈ l') : ∃ a ∈ l, f a = .ok b :=
  forall₂_right (R := fun a b => f a = Except.ok b) (mapM_ok.1 h) hb

/-- A loop that reads every element. -/
theorem mapM_some {f : α → Option β} {l' : List β} :
    l.mapM f = some l' ↔ List.Forall₂ (fun a b => f a = some b) l l' := by
  induction l generalizing l' with
  | nil =>
    rw [List.mapM_nil, Option.pure_def, Option.some.injEq, List.forall₂_nil_left_iff, eq_comm]
  | cons a l ih =>
    rw [List.mapM_cons, List.forall₂_cons_left_iff]
    simp only [Option.bind_eq_bind, Option.bind_eq_some_iff, Option.pure_def, Option.some.injEq]
    constructor
    · rintro ⟨b, hb, bs, hbs, rfl⟩
      exact ⟨b, bs, hb, ih.1 hbs, rfl⟩
    · rintro ⟨b, bs, hb, hbs, rfl⟩
      exact ⟨b, hb, bs, ih.2 hbs, rfl⟩

/-- Each value of a mapped list comes from an element of the list. -/
theorem mapM_some_mem {f : α → Option β} {l' : List β} {b : β} (h : l.mapM f = some l')
    (hb : b ∈ l') : ∃ a ∈ l, f a = some b :=
  forall₂_right (R := fun a b => f a = some b) (mapM_some.1 h) hb

/-! ## Loops that see only part of what a check does -/

/-- Predicates that agree on a list, failures included, have one conjunction over it, -/
theorem allM_congr (h : ∀ x ∈ l, p x = q x) : l.allM p = l.allM q := by
  induction l with
  | nil => rfl
  | cons a l ih => rw [allM_cons, allM_cons, h a (by simp), ih fun x hx => h x (by simp [hx])]

/-- one disjunction -/
theorem anyM_congr (h : ∀ x ∈ l, p x = q x) : l.anyM p = l.anyM q := by
  induction l with
  | nil => rfl
  | cons a l ih => rw [anyM_cons, anyM_cons, h a (by simp), ih fun x hx => h x (by simp [hx])]

/-- and one first element. -/
theorem findM?_congr (h : ∀ x ∈ l, p x = q x) : l.findM? p = l.findM? q := by
  induction l with
  | nil => rfl
  | cons a l ih => rw [findM?_cons, findM?_cons, h a (by simp), ih fun x hx => h x (by simp [hx])]

/-- A conjunction split in two runs the second part only when the first holds. -/
theorem allM_append {l' : List α} :
    (l ++ l').allM p = l.allM p >>= fun b => if b then l'.allM p else .ok false := by
  induction l with
  | nil => rfl
  | cons a l ih =>
    rw [List.cons_append, allM_cons, allM_cons, ih]
    cases p a with
    | error e => rfl
    | ok b => cases b <;> rfl

/-- The disjunction over a mapped list asks the mapped elements. -/
theorem anyM_map {f : β → α} {p : α → Except ε Bool} {l : List β} :
    (l.map f).anyM p = l.anyM fun b => p (f b) := by
  induction l with
  | nil => rfl
  | cons a l ih => rw [List.map_cons, anyM_cons, anyM_cons, ih]

/-- The search in a mapped list finds the image of what is found in the list. -/
theorem findM?_map {f : β → α} {p : α → Except ε Bool} {l : List β} :
    (l.map f).findM? p = (l.findM? fun b => p (f b)).map (Option.map f) := by
  induction l with
  | nil => rfl
  | cons a l ih =>
    rw [List.map_cons, findM?_cons, findM?_cons, ih]
    cases p (f a) with
    | error e => rfl
    | ok b => cases b <;> rfl

/-- The conjunction over a mapped list asks the mapped elements. -/
theorem allM_map {f : β → α} {p : α → Except ε Bool} {l : List β} :
    (l.map f).allM p = l.allM fun b => p (f b) := by
  induction l with
  | nil => rfl
  | cons a l ih => rw [List.map_cons, allM_cons, allM_cons, ih]

/-! ## Checks that are made twice -/

/-- An element that holds may be left out of the conjunction. -/
theorem allM_filter_ne [BEq α] [LawfulBEq α] {a : α} (ha : p a = .ok true) :
    (l.filter fun b => !b == a).allM p = l.allM p := by
  induction l with
  | nil => rfl
  | cons b l ih =>
    by_cases hb : b = a
    · rw [List.filter_cons_of_neg (by simp [hb]), ih, allM_cons, hb, ha]
      rfl
    · rw [List.filter_cons_of_pos (by simp [hb]), allM_cons, allM_cons, ih]

/-- A check that is made again changes nothing. -/
theorem allM_eraseDups [BEq α] [LawfulBEq α] : ∀ (n : ℕ) {l : List α}, l.length ≤ n →
    l.eraseDups.allM p = l.allM p
  | _, [], _ => rfl
  | n + 1, a :: l, h => by
    have hlen : (l.filter fun b => !b == a).length ≤ n :=
      Nat.le_trans (List.length_filter_le _ _) (Nat.le_of_succ_le_succ h)
    rw [List.eraseDups_cons, allM_cons, allM_cons, allM_eraseDups n hlen]
    refine bind_congr_ok fun b hb => ?_
    cases b with
    | false => rfl
    | true => exact allM_filter_ne hb

/-- Lists with the same first occurrences make the same checks. -/
theorem allM_of_eraseDups [BEq α] [LawfulBEq α] {l' : List α}
    (h : l.eraseDups = l'.eraseDups) : l.allM p = l'.allM p := by
  rw [← allM_eraseDups l.length (Nat.le_refl _), h,
    allM_eraseDups l'.length (Nat.le_refl _)]

/-! ## Checks in another order -/

/-- A check that answers. -/
def Answers (p : α → Except ε Bool) (x : α) : Prop := ∃ b, p x = .ok b

/-- A loop over checks that answer gives an answer. -/
theorem anyM_answers {l : List α} (h : ∀ x ∈ l, Answers p x) : ∃ b, l.anyM p = .ok b := by
  induction l with
  | nil => exact ⟨false, rfl⟩
  | cons a l ih =>
    obtain ⟨b, hb⟩ := h a (by simp)
    obtain ⟨c, hc⟩ := ih fun x hx => h x (by simp [hx])
    rw [anyM_cons, hb, hc]
    cases b
    · exact ⟨c, rfl⟩
    · exact ⟨true, rfl⟩

/-- A check that answers can run before others that answer. -/
theorem allM_move {a : α} {l l' : List α} (ha : Answers p a) (hl : ∀ x ∈ l, Answers p x) :
    (l ++ a :: l').allM p = (a :: (l ++ l')).allM p := by
  induction l with
  | nil => rfl
  | cons x l ih =>
    obtain ⟨b, hb⟩ := ha
    obtain ⟨c, hc⟩ := hl x (by simp)
    have ih' := ih fun y hy => hl y (by simp [hy])
    rw [List.cons_append, allM_cons, ih', allM_cons, List.cons_append, allM_cons, allM_cons, hb, hc]
    cases b <;> cases c <;> rfl

/-- **Reordering checks.** The outcome stays when both checks of every pair that changes its
order answer. -/
theorem allM_reorder {l l' : List α} (hp : l.Perm l')
    (h : ∀ x y, [x, y].Sublist l → [y, x].Sublist l' → Answers p x ∧ Answers p y) :
    l.allM p = l'.allM p := by
  induction l' generalizing l with
  | nil => rw [hp.eq_nil]
  | cons a l' ih =>
    obtain ⟨pre, post, rfl⟩ := List.append_of_mem (hp.mem_iff.2 (List.mem_cons_self))
    have hrest : (pre ++ post).Perm l' := (List.perm_middle.symm.trans hp).cons_inv
    have hsub : (pre ++ post).Sublist (pre ++ a :: post) :=
      (List.Sublist.refl pre).append (List.sublist_cons_self a post)
    -- everything in front of `a` comes after it in the new order
    have hpair : ∀ x ∈ pre, Answers p x ∧ Answers p a := by
      intro x hx
      refine h x a ?_ ?_
      · exact (List.singleton_sublist.2 hx).append (List.singleton_sublist.2 (by simp))
      · have hx' : x ∈ l' := hrest.mem_iff.1 (List.mem_append_left _ hx)
        exact (List.singleton_sublist.2 hx').cons_cons a
    have hih := ih hrest fun x y hxy hyx => h x y (hxy.trans hsub) (hyx.cons a)
    have hmove : (pre ++ a :: post).allM p = (a :: (pre ++ post)).allM p := by
      cases pre with
      | nil => rfl
      | cons x pre =>
        exact allM_move (hpair x (by simp)).2 fun y hy => (hpair y hy).1
    rw [hmove, allM_cons, allM_cons, hih]

end Guard
