import Signbox.Guard.ShortCircuit
import Signbox.Spec.Engine
import Mathlib.Data.List.Forall2

/-!
# Actions that a policy cannot tell apart

The engine reads an action through its dialect: the values at paths, of which it only sees a text,
a comparison and whether there is one, the asset, the recipient, and how many authorizations there
are. Two transactions whose actions read alike are decided alike, with the same demands.

* `ReadAlike`: two values that every predicate and every variable takes for the same.
* `Indistinct`: two actions that read alike.
* `evaluatePolicy_indistinct`: the law.
-/

namespace Signbox

open Guard

/-! ## Values -/

/-- Values that the engine cannot tell apart: as texts, as nullish values and against every bound
they are the same. -/
structure ReadAlike (v w : JsValue) : Prop where
  str : v.str? = w.str?
  nullish : v.isNullish = w.isNullish
  ordered : ∀ bound, compareOrdered v bound = compareOrdered w bound

theorem ReadAlike.refl (v : JsValue) : ReadAlike v v := ⟨rfl, rfl, fun _ => rfl⟩

/-- What two paths resolve to: the same error, or values that are read alike. -/
inductive ResolvedAlike : Except JsError JsValue → Except JsError JsValue → Prop
  | error (e : JsError) : ResolvedAlike (.error e) (.error e)
  | ok {v w : JsValue} (h : ReadAlike v w) : ResolvedAlike (.ok v) (.ok w)

theorem ResolvedAlike.bind_eq {α : Type} {x y : Except JsError JsValue} {f : JsValue → Except JsError α}
    (h : ResolvedAlike x y) (hf : ∀ v w, ReadAlike v w → f v = f w) : x >>= f = y >>= f := by
  cases h with
  | error e => rfl
  | ok halike => exact hf _ _ halike

/-- Actions that the engine cannot tell apart, whatever the policy: every path, the asset and the
recipient are alike. -/
structure Indistinct (ctx : EvaluationContext) (a b : DecodedAction) : Prop where
  authorization : a.authorization.length = b.authorization.length
  paths : ∀ path, ResolvedAlike (ctx.dialect.resolvePath a path) (ctx.dialect.resolvePath b path)
  asset : ctx.dialect.assetOf a = ctx.dialect.assetOf b
  recipient : ctx.dialect.recipientOf a = ctx.dialect.recipientOf b

variable {ctx : EvaluationContext} {a b : DecodedAction} {policy : Policy}
  {tx ty : DecodedTransaction}

theorem predicateHolds_alike {v w : JsValue} (h : ReadAlike v w) (expected : MatchValue) :
    predicateHolds v expected ctx = predicateHolds w expected ctx := by
  cases expected <;>
    simp only [predicateHolds, equalsText, h.str, h.nullish, h.ordered]

/-! ## Rules -/

theorem Indistinct.fieldHolds (h : Indistinct ctx a b) (field : JsString × MatchValue) :
    fieldHolds a ctx field = fieldHolds b ctx field :=
  (h.paths field.1).bind_eq fun _ _ halike => predicateHolds_alike halike field.2

theorem Indistinct.staticMatch (h : Indistinct ctx a b) (rule : PolicyRule) :
    staticMatch a rule ctx = staticMatch b rule ctx :=
  allM_congr fun field _ => h.fieldHolds field

theorem Indistinct.substituteArg (h : Indistinct ctx a b) (value : JsString) :
    substituteArg value a ctx = substituteArg value b ctx := by
  unfold Signbox.substituteArg
  split_ifs <;> first
    | rfl
    | exact (h.paths (value.drop 1)).bind_eq fun v w halike => by simp only [halike.str]

theorem Indistinct.providerQuery (h : Indistinct ctx a b) (req : TableRowProvider) :
    providerQuery req a ctx = providerQuery req b ctx := by
  have hargs : resolveTableRowArgs req a ctx = resolveTableRowArgs req b ctx := by
    simp only [resolveTableRowArgs, h.substituteArg]
  rw [Signbox.providerQuery, hargs]
  rfl

theorem Indistinct.providerHolds (h : Indistinct ctx a b) (req : TableRowProvider) :
    providerHolds req a ctx = providerHolds req b ctx := by
  have hrow : ∀ row, rowHolds req a ctx row = rowHolds req b ctx row := by
    intro row
    simp only [rowHolds, h.substituteArg]
  simp only [Signbox.providerHolds, h.providerQuery, hrow]

theorem Indistinct.ruleMatches (h : Indistinct ctx a b) (rule : PolicyRule) :
    ruleMatches a rule ctx = ruleMatches b rule ctx := by
  simp only [Signbox.ruleMatches, h.staticMatch, h.providerHolds]

theorem Indistinct.governingRule (h : Indistinct ctx a b) :
    governingRule policy ctx a = governingRule policy ctx b :=
  findM?_congr fun rule _ => by rw [h.ruleMatches]

/-! ## Transactions -/

theorem Indistinct.applyLimits (h : Indistinct ctx a b) (governing : PolicyRule) (tally : Tally) :
    applyLimits ctx a governing tally = applyLimits ctx b governing tally := by
  simp only [Signbox.applyLimits, h.asset, demandWindow, h.recipient]

theorem Indistinct.tallyAction (h : Indistinct ctx a b) (tally : Tally) :
    tallyAction policy ctx tally a = tallyAction policy ctx tally b := by
  simp only [Signbox.tallyAction, h.governingRule, h.applyLimits]

theorem anyM_forall₂ {ε α β : Type} {R : α → β → Prop} {p : α → Except ε Bool} {q : β → Except ε Bool}
    (hpq : ∀ x y, R x y → p x = q y) {l : List α} {l' : List β} (h : List.Forall₂ R l l') :
    l.anyM p = l'.anyM q := by
  induction h with
  | nil => rfl
  | cons hxy _ ih => rw [anyM_cons, anyM_cons, hpq _ _ hxy, ih]

theorem foldlM_forall₂ {ε α β σ : Type} {R : α → β → Prop} {f : σ → α → Except ε σ}
    {g : σ → β → Except ε σ} (hfg : ∀ s x y, R x y → f s x = g s y) {l : List α} {l' : List β}
    (h : List.Forall₂ R l l') (s : σ) : l.foldlM f s = l'.foldlM g s := by
  induction h generalizing s with
  | nil => rfl
  | cons hxy _ ih =>
    rw [List.foldlM_cons, List.foldlM_cons, hfg s _ _ hxy]
    exact congrArg _ (funext fun s' => ih s')

theorem forall₂_exists {α β : Type} {R : α → β → Prop} {P : α → Prop} {Q : β → Prop}
    (hPQ : ∀ x y, R x y → (P x ↔ Q y)) {l : List α} {l' : List β} (h : List.Forall₂ R l l') :
    (∃ x ∈ l, P x) ↔ ∃ y ∈ l', Q y := by
  induction h with
  | nil => simp
  | cons hxy _ ih => simp only [List.exists_mem_cons_iff, ih, hPQ _ _ hxy]

/-- **Transactions that read alike are decided alike.** All that the engine reads of an action goes
through its paths, its asset and its recipient. -/
theorem evaluatePolicy_indistinct (hcontext : tx.context = ty.context)
    (h : List.Forall₂ (Indistinct ctx) tx.actions ty.actions) :
    evaluatePolicy tx policy ctx = evaluatePolicy ty policy ctx := by
  have hnil : tx.actions = [] ↔ ty.actions = [] := by
    rw [← List.length_eq_zero_iff, ← List.length_eq_zero_iff, h.length_eq]
  have hauths : (∃ a ∈ tx.actions, a.authorization.length ≠ 1) ↔
      ∃ b ∈ ty.actions, b.authorization.length ≠ 1 :=
    forall₂_exists (fun a b hab => by rw [hab.authorization]) h
  have hdenied : explicitlyDenied tx policy ctx = explicitlyDenied ty policy ctx :=
    anyM_forall₂ (fun a b hab => anyM_congr fun rule _ => by rw [hab.ruleMatches]) h
  have htally : ∀ tally, tx.actions.foldlM (tallyAction policy ctx) tally =
      ty.actions.foldlM (tallyAction policy ctx) tally :=
    foldlM_forall₂ (fun tally a b hab => hab.tallyAction tally) h
  have hactions : evaluateActions tx policy ctx = evaluateActions ty policy ctx := by
    simp only [evaluateActions, hcontext, hnil, hauths, hdenied, h.length_eq, htally]
  rw [evaluatePolicy, evaluatePolicy, hactions]

end Signbox
