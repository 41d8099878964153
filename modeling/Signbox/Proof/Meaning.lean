import Signbox.Guard.ShortCircuit
import Signbox.Spec.Engine
import Mathlib.Data.List.Forall2

/-!
# The meaning of a policy

What a policy says, without loops or exceptions. A rule is a conjunction of conditions
(its field predicates, then its providers), each of which holds, does not hold or fails;
it *matches* when all hold and *does not match* when the first that does not hold is
reached without a failure. `Allowed` lists what must be true of a transaction, for an
assignment `gov` of one governing rule to each action.

`ruleMatches_true`, `ruleMatches_false` and `governingRule_some` connect the engine's
loops to these terms.
-/

namespace Signbox

open Guard

variable {ctx : EvaluationContext} {policy : Policy} {tx : DecodedTransaction}
  {action : DecodedAction} {rule : PolicyRule}

/-! ## Rules -/

/-- The conditions a rule puts on an action, in evaluation order: the entries of `match`, and then
the providers. -/
def conditions (ctx : EvaluationContext) (action : DecodedAction) (rule : PolicyRule) :
    List (Except JsError Bool) :=
  rule.matchOn.map (fieldHolds action ctx) ++
    (rule.providers.getD []).map fun req => providerHolds req action ctx

/-- Every condition holds. -/
def Matches (ctx : EvaluationContext) (action : DecodedAction) (rule : PolicyRule) : Prop :=
  ∀ c ∈ conditions ctx action rule, c = .ok true

/-- A condition does not hold, and none before it fails. What comes after it is never asked. -/
def NoMatch (ctx : EvaluationContext) (action : DecodedAction) (rule : PolicyRule) : Prop :=
  ∃ c, FirstAt (· = .ok true) (· = .ok false) (conditions ctx action rule) c

theorem ruleMatches_eq : ruleMatches action rule ctx = (conditions ctx action rule).allM id := by
  unfold ruleMatches conditions staticMatch
  rw [allM_append, allM_map, allM_map]
  apply bind_congr_ok
  intro b _
  cases b with
  | false => rfl
  | true => cases rule.providers <;> rfl

theorem ruleMatches_true : ruleMatches action rule ctx = .ok true ↔ Matches ctx action rule := by
  rw [ruleMatches_eq, allM_ok_true]
  rfl

theorem ruleMatches_false : ruleMatches action rule ctx = .ok false ↔ NoMatch ctx action rule := by
  rw [ruleMatches_eq, allM_ok_false]
  rfl

/-- A rule cannot both match and not match. -/
theorem Matches.not_noMatch (h : Matches ctx action rule) : ¬ NoMatch ctx action rule := by
  intro hn
  rw [← ruleMatches_true] at h
  rw [← ruleMatches_false, h] at hn
  simp at hn

/-! ## The governing rule -/

/-- `rule` is the first allow rule of the list that matches, and every allow rule before it
evaluates without failure to no match. -/
def GovernsIn (ctx : EvaluationContext) (rules : List PolicyRule) (action : DecodedAction)
    (rule : PolicyRule) : Prop :=
  FirstAt (fun r => r.effect = .allow → NoMatch ctx action r)
    (fun r => r.effect = .allow ∧ Matches ctx action r) rules rule

/-- The rule of the policy that governs an action. -/
abbrev Governs (ctx : EvaluationContext) (policy : Policy) (action : DecodedAction)
    (rule : PolicyRule) : Prop := GovernsIn ctx policy.rules action rule

theorem Governs.mem (h : Governs ctx policy action rule) : rule ∈ policy.rules := FirstAt.mem h

theorem Governs.allow (h : Governs ctx policy action rule) : rule.effect = .allow :=
  (FirstAt.holds h).1

theorem Governs.unique {rule' : PolicyRule} (h : Governs ctx policy action rule)
    (h' : Governs ctx policy action rule') : rule = rule' :=
  FirstAt.unique (fun _ hz hb => hz.2.not_noMatch (hb hz.1)) h h'

theorem governingRule_some :
    governingRule policy ctx action = .ok (some rule) ↔ Governs ctx policy action rule := by
  unfold governingRule
  rw [findM?_ok_some]
  constructor
  · intro h
    refine h.mono (fun r _ hr => ?_) (fun hr => ?_)
    · intro ha
      simpa [ha, ruleMatches_false] using hr
    · by_cases ha : rule.effect = .allow
      · exact ⟨ha, by simpa [ha, ruleMatches_true] using hr⟩
      · simp [ha] at hr
  · intro h
    refine h.mono (fun r _ hr => ?_) (fun hr => ?_)
    · by_cases ha : r.effect = .allow
      · simpa [ha, ruleMatches_false] using hr ha
      · simp [ha]
    · simpa [hr.1, ruleMatches_true] using hr.2

/-! ## Limits -/

/-- A limit bound, as the dialect reads it. -/
def parsedLimit (ctx : EvaluationContext) (raw : Option JsString) : Option AssetAmount :=
  raw.bind fun s => (ctx.dialect.parseAssetLimit s).toOption

/-- The per-transaction cap of a rule. -/
def capOf (ctx : EvaluationContext) (rule : PolicyRule) : Option AssetAmount :=
  rule.limits.bind fun l => parsedLimit ctx l.maxPerTransaction

/-- The minimal units an action moves. An action without an asset moves none; it is refused where
it matters. -/
def movedUnits (ctx : EvaluationContext) (action : DecodedAction) : ℕ :=
  match ctx.dialect.assetOf action with
  | .ok asset => asset.units
  | .error _ => 0

/-- An action is fit for the limits of the rule that governs it: it carries an asset, in
the symbol and precision of the per-transaction cap, and a recipient when a limit is per
recipient. -/
def Limitable (ctx : EvaluationContext) (action : DecodedAction) (rule : PolicyRule) : Prop :=
  ∀ l, rule.limits = some l → ∃ asset, ctx.dialect.assetOf action = .ok asset ∧
    (∀ cap, capOf ctx rule = some cap →
      asset.symbol = cap.symbol ∧ asset.precision = cap.precision) ∧
    (l.cooldownPerRecipientMs.isSome ∨ l.maxCountPerRecipientPerHour.isSome →
      (ctx.dialect.recipientOf action).isSome)

/-- The bound of a limit is one the dialect reads. -/
def Parses (ctx : EvaluationContext) (raw : Option JsString) : Prop :=
  ∀ s, raw = some s → ∃ a, ctx.dialect.parseAssetLimit s = .ok a

/-- All bounds of a rule's limits are. A validated policy has only such rules, so no evaluation
fails on them. -/
def Readable (ctx : EvaluationContext) (rule : PolicyRule) : Prop :=
  ∀ l, rule.limits = some l →
    Parses ctx l.maxPerTransaction ∧ Parses ctx l.maxPerHour ∧ Parses ctx l.maxPerDay

/-- The demand a governed action makes on the journal: one when its rule has a windowed
limit, with the rule's bounds. -/
def demandOf (ctx : EvaluationContext) (action : DecodedAction) (rule : PolicyRule) :
    Option QuotaDemand :=
  rule.limits.bind fun l =>
    if wantsWindow l then (ctx.dialect.assetOf action).toOption.map fun asset =>
      { ruleId := rule.id
        amount := asset
        recipient := ctx.dialect.recipientOf action
        maxPerHour := parsedLimit ctx l.maxPerHour
        maxPerDay := parsedLimit ctx l.maxPerDay
        cooldownPerRecipientMs := l.cooldownPerRecipientMs
        maxCountPerHour := l.maxCountPerHour
        maxCountPerDay := l.maxCountPerDay
        maxCountPerRecipientPerHour := l.maxCountPerRecipientPerHour }
    else none

/-- The units of all actions that `rule` governs. -/
def governedUnits (ctx : EvaluationContext) (pairs : List (DecodedAction × PolicyRule))
    (rule : PolicyRule) : ℕ :=
  ((pairs.filter fun p => p.2 = rule).map fun p => movedUnits ctx p.1).sum

/-! ## Transactions -/

/-- **What a policy allows**, with `gov` the governing rule of each action. The clauses are those
of the policy language and not of the evaluation: nothing here says in which order anything is
looked at. -/
structure Allowed (ctx : EvaluationContext) (policy : Policy) (tx : DecodedTransaction)
    (gov : List PolicyRule) : Prop where
  chain : policy.chain.chainId = ctx.chainId ∧ tx.context.chainId = ctx.chainId
  nonempty : tx.actions ≠ []
  singleAuth : ∀ a ∈ tx.actions, a.authorization.length = 1
  noDeny : ∀ a ∈ tx.actions, ∀ r ∈ policy.rules, r.effect = .deny → NoMatch ctx a r
  bounded : tx.actions.length ≤ policy.maxActionsPerTransaction.getD 1
  governed : List.Forall₂ (Governs ctx policy) tx.actions gov
  limitable : List.Forall₂ (Limitable ctx) tx.actions gov
  capped : ∀ r ∈ policy.rules, ∀ cap, capOf ctx r = some cap →
    governedUnits ctx (tx.actions.zip gov) r ≤ cap.units

/-- Allow rules are determined by their ids, so a total that is kept by id is that of one rule. -/
def Policy.AllowIds (policy : Policy) : Prop :=
  ∀ r ∈ policy.rules, ∀ r' ∈ policy.rules, r.effect = .allow → r'.effect = .allow →
    r.id = r'.id → r = r'

/-- The demands of an allowed transaction, in action order. -/
def demandsOf (ctx : EvaluationContext) (tx : DecodedTransaction) (gov : List PolicyRule) :
    List QuotaDemand :=
  (tx.actions.zip gov).filterMap fun p => demandOf ctx p.1 p.2

/-- The result of an allowed transaction: the rules that govern its actions, and what they
demand. -/
def allowance (ctx : EvaluationContext) (tx : DecodedTransaction) (gov : List PolicyRule) :
    EvaluationResult :=
  ⟨.allow (gov.map PolicyRule.id) ctx.policyVersion, demandsOf ctx tx gov⟩

end Signbox
