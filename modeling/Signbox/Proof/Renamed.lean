import Signbox.Spec.Engine

/-!
# Rules under other names

A rule id is only a name: the engine groups totals by it and reports it. When every rule of a
policy is replaced by one that matches the same actions, with the same effect and limits and
an id of its own, the evaluation is the same up to the ids.

* `SameRule`: a rule and its replacement.
* `evaluatePolicy_renamed`: the evaluation of a policy whose rules are replaced.
-/

namespace Signbox

open Guard

variable {ctx : EvaluationContext} {policy policy' : Policy} {tx : DecodedTransaction}

/-! ## Renaming -/

def Decision.rename (f : JsString → JsString) : Decision → Decision
  | .allow ids version => .allow (ids.map f) version
  | .deny code reason version => .deny code reason version

def QuotaDemand.rename (f : JsString → JsString) (d : QuotaDemand) : QuotaDemand :=
  { d with ruleId := f d.ruleId }

/-- A result with other rule ids. -/
def EvaluationResult.rename (f : JsString → JsString) (r : EvaluationResult) : EvaluationResult :=
  ⟨r.decision.rename f, r.quotaDemands.map (·.rename f)⟩

def Tally.rename (f : JsString → JsString) (t : Tally) : Tally :=
  ⟨t.ruleIds.map f, t.quotaDemands.map (·.rename f), t.perRuleTotals.map fun e => (f e.1, e.2)⟩

/-- `r'` does what `r` does, whatever it is called. -/
structure SameRule (ctx : EvaluationContext) (r r' : PolicyRule) : Prop where
  effect : r'.effect = r.effect
  limits : r'.limits = r.limits
  matching : ∀ action, ruleMatches action r' ctx = ruleMatches action r ctx

variable {f : JsString → JsString} {g : PolicyRule → PolicyRule} {action : DecodedAction}

/-! ## One action -/

theorem explicitlyDenied_renamed (hrules : policy'.rules = policy.rules.map g)
    (hsame : ∀ r ∈ policy.rules, SameRule ctx r (g r)) :
    explicitlyDenied tx policy' ctx = explicitlyDenied tx policy ctx := by
  refine anyM_congr fun action _ => ?_
  rw [hrules, anyM_map]
  refine anyM_congr fun r hr => ?_
  rw [(hsame r hr).effect, (hsame r hr).matching]

theorem governingRule_renamed (hrules : policy'.rules = policy.rules.map g)
    (hsame : ∀ r ∈ policy.rules, SameRule ctx r (g r)) :
    governingRule policy' ctx action = (governingRule policy ctx action).map (Option.map g) := by
  rw [governingRule, governingRule, hrules, findM?_map]
  congr 1
  refine findM?_congr fun r hr => ?_
  rw [(hsame r hr).effect, (hsame r hr).matching]

theorem addTotal_renamed {totals : List (JsString × RuleTotal)} {id : JsString} {units : ℕ}
    {cap : AssetAmount} (hinj : ∀ t ∈ totals, f t.1 = f id → t.1 = id) :
    addTotal (totals.map fun e => (f e.1, e.2)) (f id) units cap =
      (addTotal totals id units cap).map fun e => (f e.1, e.2) := by
  induction totals with
  | nil => rfl
  | cons t totals ih =>
    have ih' := ih fun s hs => hinj s (List.mem_cons_of_mem _ hs)
    simp only [List.map_cons, addTotal]
    by_cases hid : t.1 = id
    · rw [if_pos hid, if_pos (congrArg f hid)]
      rfl
    · have hne : f t.1 ≠ f id := fun h => hid (hinj t (by simp) h)
      rw [if_neg hid, if_neg hne, List.map_cons, ih']

theorem demandWindow_renamed {r r' : PolicyRule} (hid : r'.id = f r.id) (limits : RuleLimits)
    (asset : AssetAmount) (demands : List QuotaDemand) :
    demandWindow ctx action r' limits asset (demands.map (·.rename f)) =
      (demandWindow ctx action r limits asset demands).map fun ds => ds.map (·.rename f) := by
  unfold demandWindow quotaDemand
  split
  · rw [hid]
    cases limits.maxPerHour.mapM ctx.dialect.parseAssetLimit with
    | error e => rfl
    | ok h =>
      cases limits.maxPerDay.mapM ctx.dialect.parseAssetLimit with
      | error e => rfl
      | ok d =>
        simp only [ok_bind]
        cases failIf (limits.cooldownPerRecipientMs.isSome ∧
            ctx.dialect.recipientOf action = none)
            (JsError.ambiguous (js "cooldownPerRecipientMs requires a recipient on the action")) with
        | error e => rfl
        | ok u =>
          simp only [ok_bind]
          cases failIf (limits.maxCountPerRecipientPerHour.isSome ∧
              ctx.dialect.recipientOf action = none) (JsError.ambiguous
                (js "maxCountPerRecipientPerHour requires a recipient on the action")) with
          | error e => rfl
          | ok u =>
            simp only [ok_bind, pure_eq, Except.map, List.map_append, List.map_cons,
              List.map_nil]
            rfl
  · rfl

theorem applyLimits_renamed {r : PolicyRule} (hsame : SameRule ctx r (g r))
    (hid : (g r).id = f r.id) {t : Tally}
    (hinj : ∀ e ∈ t.perRuleTotals, f e.1 = f r.id → e.1 = r.id) :
    applyLimits ctx action (g r) (t.rename f) =
      (applyLimits ctx action r t).map (Tally.rename f) := by
  unfold applyLimits
  rw [hsame.limits]
  cases r.limits with
  | none => rfl
  | some limits =>
    cases ctx.dialect.assetOf action with
    | error e => rfl
    | ok asset =>
      have hcap : capTotals ctx.dialect (g r) limits asset (t.rename f).perRuleTotals =
          (capTotals ctx.dialect r limits asset t.perRuleTotals).map
            fun ts => ts.map fun e => (f e.1, e.2) := by
        unfold capTotals
        cases limits.maxPerTransaction with
        | none => rfl
        | some raw =>
          simp only
          cases transactionCap ctx.dialect asset raw with
          | error e => rfl
          | ok cap =>
            rw [ok_bind, ok_bind, hid]
            exact congrArg Except.ok (addTotal_renamed hinj)
      simp only [ok_bind, hcap]
      cases capTotals ctx.dialect r limits asset t.perRuleTotals with
      | error e => rfl
      | ok totals =>
        have hwin : demandWindow ctx action (g r) limits asset (t.quotaDemands.map (·.rename f)) =
            (demandWindow ctx action r limits asset t.quotaDemands).map
              fun ds => ds.map (·.rename f) := demandWindow_renamed hid limits asset t.quotaDemands
        simp only [Except.map, ok_bind]
        rw [show (t.rename f).quotaDemands = t.quotaDemands.map (·.rename f) from rfl, hwin]
        cases demandWindow ctx action r limits asset t.quotaDemands <;> rfl

/-- The totals of a tally are kept under ids of rules of the policy. -/
def Tally.Named (policy : Policy) (t : Tally) : Prop :=
  ∀ e ∈ t.perRuleTotals, ∃ r ∈ policy.rules, r.id = e.1

theorem addTotal_named {totals : List (JsString × RuleTotal)} {id : JsString} {units : ℕ}
    {cap : AssetAmount} : ∀ e ∈ addTotal totals id units cap, e.1 = id ∨ ∃ t ∈ totals, t.1 = e.1 := by
  induction totals with
  | nil => simp [addTotal]
  | cons t totals ih =>
    simp only [addTotal]
    split
    · intro e he
      rcases List.mem_cons.1 he with rfl | he
      · exact Or.inr ⟨t, by simp, rfl⟩
      · exact Or.inr ⟨e, List.mem_cons_of_mem _ he, rfl⟩
    · intro e he
      rcases List.mem_cons.1 he with rfl | he
      · exact Or.inr ⟨_, by simp, rfl⟩
      · rcases ih e he with h | ⟨s, hs, h⟩
        · exact Or.inl h
        · exact Or.inr ⟨s, List.mem_cons_of_mem _ hs, h⟩

theorem applyLimits_named {r : PolicyRule} (hr : r ∈ policy.rules) {t t' : Tally}
    (ht : t.Named policy) (h : applyLimits ctx action r t = .ok t') : t'.Named policy := by
  unfold applyLimits at h
  cases hl : r.limits with
  | none =>
    rw [hl] at h
    simp only [pure_eq, Except.ok.injEq] at h
    rwa [← h]
  | some limits =>
    simp only [hl, bind_ok, pure_eq, Except.ok.injEq] at h
    obtain ⟨asset, -, totals, htotals, demands, -, rfl⟩ := h
    intro e he
    unfold capTotals at htotals
    cases hm : limits.maxPerTransaction with
    | none =>
      simp only [hm, pure_eq, Except.ok.injEq] at htotals
      subst htotals
      exact ht e he
    | some raw =>
      simp only [hm, bind_ok, pure_eq, Except.ok.injEq] at htotals
      obtain ⟨cap, -, rfl⟩ := htotals
      rcases addTotal_named e he with hid | ⟨s, hs, hid⟩
      · exact ⟨r, hr, hid.symm⟩
      · obtain ⟨r', hr', hid'⟩ := ht s hs
        exact ⟨r', hr', hid'.trans hid⟩

/-! ## All actions -/

theorem map_bind {ε α β γ : Type} (x : Except ε α) (k : α → Except ε β) (F : β → γ) :
    (x >>= k).map F = x >>= fun a => (k a).map F := by
  cases x <;> rfl

variable (hrules : policy'.rules = policy.rules.map g)
  (hsame : ∀ r ∈ policy.rules, SameRule ctx r (g r))
  (hid : ∀ r ∈ policy.rules, (g r).id = f r.id)
  (hinj : ∀ r ∈ policy.rules, ∀ s ∈ policy.rules, f r.id = f s.id → r.id = s.id)

include hrules hsame hid hinj

theorem tallyAction_renamed (action : DecodedAction) {t : Tally} (ht : t.Named policy) :
    tallyAction policy' ctx (t.rename f) action =
        (tallyAction policy ctx t action).map (Tally.rename f) ∧
      ∀ t', tallyAction policy ctx t action = .ok t' → t'.Named policy := by
  unfold tallyAction
  rw [governingRule_renamed hrules hsame]
  cases hgov : governingRule policy ctx action with
  | error e => exact ⟨rfl, fun t' h => by cases h⟩
  | ok o =>
    cases o with
    | none => exact ⟨rfl, fun t' h => by cases h⟩
    | some r =>
      have hmem : r ∈ policy.rules := (findM?_ok_some.1 hgov).mem
      have happly : applyLimits ctx action (g r) (t.rename f) =
          (applyLimits ctx action r t).map (Tally.rename f) := by
        refine applyLimits_renamed (hsame r hmem) (hid r hmem) fun e he heq => ?_
        obtain ⟨s, hs, hse⟩ := ht e he
        rw [← hse] at heq ⊢
        exact hinj s hs r hmem heq
      have hleft : throwing (Except.map (Option.map g) (.ok (some r))) =
          (.ok (some (g r)) : Except Stop _) := rfl
      have hright : throwing (.ok (some r)) = (.ok (some r) : Except Stop _) := rfl
      rw [hleft, hright, ok_bind, ok_bind]
      simp only [happly, hid r hmem]
      cases ha : applyLimits ctx action r t with
      | error e => exact ⟨rfl, fun t' h => by cases h⟩
      | ok t₁ =>
        have hnamed := applyLimits_named hmem ht ha
        refine ⟨?_, fun t' h => ?_⟩
        · have hlist : (t₁.rename f).ruleIds ++ [f r.id] = (t₁.ruleIds ++ [r.id]).map f := by
            rw [List.map_append]
            rfl
          change Except.ok _ = Except.ok _
          rw [Except.ok.injEq, hlist]
          rfl
        · have heq : ({ t₁ with ruleIds := t₁.ruleIds ++ [r.id] } : Tally) = t' := Except.ok.inj h
          rw [← heq]
          exact hnamed

theorem tally_renamed (actions : List DecodedAction) : ∀ {t : Tally}, t.Named policy →
    actions.foldlM (tallyAction policy' ctx) (t.rename f) =
      (actions.foldlM (tallyAction policy ctx) t).map (Tally.rename f) := by
  induction actions with
  | nil => exact fun _ => rfl
  | cons a actions ih =>
    intro t ht
    obtain ⟨hstep, hnamed⟩ := tallyAction_renamed hrules hsame hid hinj a ht
    rw [List.foldlM_cons, List.foldlM_cons, hstep]
    cases ha : tallyAction policy ctx t a with
    | error e => rfl
    | ok t₁ => exact ih (hnamed t₁ ha)

/-- **Evaluation up to rule ids.** Rules that agree but for their ids, renamed without a collision,
give the same decision, with the ids in it renamed. -/
theorem evaluatePolicy_renamed (hchain : policy'.chain.chainId = policy.chain.chainId)
    (hmax : policy'.maxActionsPerTransaction.getD 1 = policy.maxActionsPerTransaction.getD 1) :
    evaluatePolicy tx policy' ctx = (evaluatePolicy tx policy ctx).rename f := by
  have hfold := tally_renamed hrules hsame hid hinj tx.actions (t := ⟨[], [], []⟩)
    (by intro e he; simp at he)
  have hactions : evaluateActions tx policy' ctx =
      (evaluateActions tx policy ctx).map (EvaluationResult.rename f) := by
    have hnil : Tally.rename f ⟨[], [], []⟩ = ⟨[], [], []⟩ := rfl
    rw [hnil] at hfold
    unfold evaluateActions
    rw [hchain, hmax, explicitlyDenied_renamed hrules hsame, hfold]
    simp only [map_bind]
    repeat' refine bind_congr_ok fun _ _ => ?_
    cases tx.actions.foldlM (tallyAction policy ctx) ⟨[], [], []⟩ with
    | error e => rfl
    | ok t =>
      -- the totals are the same, whatever they are called
      have hexceeds : (∃ e ∈ (t.rename f).perRuleTotals, e.2.units > e.2.cap.units) ↔
          ∃ e ∈ t.perRuleTotals, e.2.units > e.2.cap.units := by
        constructor
        · rintro ⟨_, hmem, h⟩
          obtain ⟨e, he, rfl⟩ := List.mem_map.1 hmem
          exact ⟨e, he, h⟩
        · rintro ⟨e, he, h⟩
          exact ⟨_, List.mem_map.2 ⟨e, he, rfl⟩, h⟩
      simp only [Except.map, ok_bind, hexceeds]
      cases failIf (∃ e ∈ t.perRuleTotals, e.2.units > e.2.cap.units)
        (Stop.refused .limitExceeded (js "transaction exceeds a policy limit")) <;> rfl
  unfold evaluatePolicy
  rw [hactions]
  cases evaluateActions tx policy ctx with
  | ok r => rfl
  | error s =>
    cases s with
    | refused code reason => rfl
    | threw e => cases e <;> rfl

end Signbox
