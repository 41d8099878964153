import Signbox.Proof.Compare
import Signbox.Proof.DenyClosed

/-!
# Adding a provider requirement

A requirement makes a rule match less. On a deny rule, or on an allow rule that a looser
rule follows, that can let more through. `providerEdit_narrows_iff` is the exact condition
under which it does not, for a transaction that is allowed after the edit: on no action
does the requirement turn the rule off where that matters (`ProviderEdit.Harmless`).
-/

namespace Signbox

open Guard

variable {ctx : EvaluationContext} {policy policy' : Policy} {tx : DecodedTransaction}
  {action : DecodedAction} {rule : PolicyRule}

/-- One provider requirement added to one rule of a policy, anywhere among its own. The rule may be
an allow or a deny rule. -/
structure ProviderEdit (policy : Policy) where
  pre : List PolicyRule
  rule : PolicyRule
  post : List PolicyRule
  before : List TableRowProvider
  req : TableRowProvider
  after : List TableRowProvider
  rules_eq : policy.rules = pre ++ rule :: post
  providers_eq : rule.providers.getD [] = before ++ after

namespace ProviderEdit

/-- The rule after the edit. -/
def newRule (e : ProviderEdit policy) : PolicyRule :=
  { e.rule with providers := some (e.before ++ e.req :: e.after) }

/-- The policy after the edit. -/
def apply (e : ProviderEdit policy) : Policy :=
  { policy with rules := e.pre ++ e.newRule :: e.post }

/-- The requirement does not matter for an action: a deny rule does not match it anyway, and
an allow rule is not reached, does not match it anyway, still matches it, or imposes
nothing. -/
def Harmless (e : ProviderEdit policy) (ctx : EvaluationContext) (action : DecodedAction) :
    Prop :=
  match e.rule.effect with
  | .deny => NoMatch ctx action e.rule
  | .allow => (∃ g, GovernsIn ctx e.pre action g) ∨ NoMatch ctx action e.rule ∨
      Matches ctx action e.newRule ∨ (Matches ctx action e.rule ∧ e.rule.limits = none)

end ProviderEdit

/-- Every per-transaction cap and quota demand that `policy` imposes on an action, `policy'`
imposes on it as well. -/
def ImposedBy (ctx : EvaluationContext) (tx : DecodedTransaction) (policy policy' : Policy) :
    Prop :=
  ∀ a ∈ tx.actions, ∀ g, Governs ctx policy a g → ∃ g', Governs ctx policy' a g' ∧
    (∀ cap, capOf ctx g = some cap → g'.id = g.id ∧ capOf ctx g' = some cap) ∧
    ∀ d, demandOf ctx a g = some d → demandOf ctx a g' = some d

/-! ## Limits impose something -/

/-- An optional property that is there is read. -/
theorem optional_isSome {α : Type} {ms : List (JsString × Json)} {key : JsString}
    {f : Json → Option α} {x : Option α} (h : Schema.optional ms key f = some x)
    (hkey : (ms.lookup key).isSome) : x.isSome := by
  unfold Schema.optional at h
  cases hl : ms.lookup key with
  | none => simp [hl] at hkey
  | some v =>
    rw [hl] at h
    obtain ⟨a, -, rfl⟩ := Option.map_eq_some_iff.1 h
    rfl

/-- The schema has no empty limits. -/
theorem limits_some {j : Json} {l : RuleLimits} (h : Schema.limits j = some l) :
    l.maxPerTransaction.isSome ∨ wantsWindow l = true := by
  unfold Schema.limits at h
  cases j with
  | obj proto ms =>
    simp only [Option.bind_eq_bind, Option.bind_eq_some_iff, Option.guard_eq_some',
      Option.pure_def, Option.some.injEq] at h
    obtain ⟨-, ⟨hclosed, hlen⟩, t, ht, hr, hhr, dy, hdy, cd, hcd, ch, hch, cy, hcy, cr, hcr,
      rfl⟩ := h
    cases ms with
    | nil => simp at hlen
    | cons m ms =>
      have hkey : ((m :: ms).lookup m.1).isSome := by simp
      have hmem := List.all_eq_true.1 hclosed m (by simp)
      simp only [List.contains_eq_mem, List.mem_cons, List.not_mem_nil, or_false,
        decide_eq_true_eq] at hmem
      unfold wantsWindow
      rcases hmem with hm | hm | hm | hm | hm | hm | hm <;> rw [hm] at hkey
      · exact Or.inl (optional_isSome ht hkey)
      · simp [optional_isSome hhr hkey]
      · simp [optional_isSome hdy hkey]
      · simp [optional_isSome hcd hkey]
      · simp [optional_isSome hch hkey]
      · simp [optional_isSome hcy hkey]
      · simp [optional_isSome hcr hkey]
  | _ => simp at h

theorem optional_some {α : Type} {ms : List (JsString × Json)} {key : JsString}
    {f : Json → Option α} {a : α} (h : Schema.optional ms key f = some (some a)) :
    ∃ v, f v = some a := by
  unfold Schema.optional at h
  split at h
  · simp at h
  case h_2 v _ =>
    obtain ⟨a', hv, heq⟩ := Option.map_eq_some_iff.1 h
    exact ⟨v, heq ▸ hv⟩

theorem array_mem {α : Type} {lo hi : ℕ} {item : Json → Option α} {v : Json} {as : List α}
    (h : Schema.array lo hi item v = some as) {a : α} (ha : a ∈ as) : ∃ j, item j = some a := by
  cases v with
  | arr items =>
    simp only [Schema.array] at h
    split at h
    · obtain ⟨j, -, hj⟩ := mapM_some_mem h ha
      exact ⟨j, hj⟩
    · simp at h
  | _ => simp [Schema.array] at h

/-- A rule of a policy that was read was read itself. -/
theorem policy_rule {doc : Json} {dialect : PolicyDialect}
    (h : Schema.policy dialect doc = some policy) {r : PolicyRule} (hr : r ∈ policy.rules) :
    ∃ j, Schema.rule dialect j = some r := by
  unfold Schema.policy at h
  cases doc with
  | obj proto ms =>
    simp only [Option.bind_eq_bind, Option.bind_eq_some_iff, Option.guard_eq_some',
      Option.pure_def, Option.some.injEq] at h
    obtain ⟨-, -, -, -, -, -, c, -, rules, hrules, m, -, rfl⟩ := h
    obtain ⟨v, -, hv⟩ := Option.bind_eq_some_iff.1 hrules
    exact array_mem hv hr
  | _ => simp at h

theorem rule_limits {j : Json} {dialect : PolicyDialect} {r : PolicyRule}
    (h : Schema.rule dialect j = some r) {l : RuleLimits} (hl : r.limits = some l) :
    l.maxPerTransaction.isSome ∨ wantsWindow l = true := by
  unfold Schema.rule at h
  cases j with
  | obj proto ms =>
    simp only [Option.bind_eq_bind, Option.bind_eq_some_iff, Option.guard_eq_some',
      Option.pure_def, Option.some.injEq] at h
    obtain ⟨-, -, i, -, ef, -, mo, -, li, hli, pr, -, rfl⟩ := h
    have hlim : li = some l := hl
    obtain ⟨v, hv⟩ := optional_some (hlim ▸ hli)
    exact limits_some hv
  | _ => simp at h

theorem validatePolicy_limits {doc : Json} {dialect : PolicyDialect}
    (h : validatePolicy doc dialect = .ok policy) : ∀ r ∈ policy.rules, ∀ l, r.limits = some l →
      l.maxPerTransaction.isSome ∨ wantsWindow l = true := by
  intro r hr l hl
  obtain ⟨j, hj⟩ := policy_rule (validatePolicy_ok.1 h).1 hr
  exact rule_limits hj hl

/-! ## One action -/

namespace ProviderEdit

variable {e : ProviderEdit policy}

theorem conditions_newRule : conditions ctx action e.newRule =
    (e.rule.matchOn.map (fieldHolds action ctx) ++
      e.before.map fun req => providerHolds req action ctx) ++
    providerHolds e.req action ctx :: e.after.map fun req => providerHolds req action ctx := by
  simp [conditions, newRule]

theorem conditions_rule : conditions ctx action e.rule =
    (e.rule.matchOn.map (fieldHolds action ctx) ++
      e.before.map fun req => providerHolds req action ctx) ++
    e.after.map fun req => providerHolds req action ctx := by
  simp [conditions, e.providers_eq]

/-- The requirement makes the rule match less. -/
theorem matches_of_newRule (h : Matches ctx action e.newRule) : Matches ctx action e.rule := by
  intro c hc
  apply h
  rw [conditions_newRule]
  rw [conditions_rule] at hc
  rcases List.mem_append.1 hc with hc | hc
  · exact List.mem_append_left _ hc
  · exact List.mem_append_right _ (List.mem_cons_of_mem _ hc)

/-- The rules have the ids they had. -/
theorem ids_apply : e.apply.rules.map PolicyRule.id = policy.rules.map PolicyRule.id := by
  rw [e.rules_eq]
  simp [apply, newRule]

/-- The other rules are neither the edited rule nor its new version. -/
theorem ne_of_mem (hids : (policy.rules.map PolicyRule.id).Nodup) {r : PolicyRule}
    (hr : r ∈ e.pre ∨ r ∈ e.post) : r.id ≠ e.rule.id := by
  rw [e.rules_eq, List.map_append, List.map_cons, List.nodup_append] at hids
  obtain ⟨-, hpost, hdisj⟩ := hids
  rcases hr with hr | hr
  · exact hdisj r.id (List.mem_map_of_mem hr) e.rule.id (by simp)
  · intro hid
    rw [List.nodup_cons] at hpost
    exact hpost.1 (hid ▸ List.mem_map_of_mem hr)

/-- How the governing rules before and after the edit correspond: they are the same, the
edited rule and its new version, or the edited rule and one it shadows without limits. -/
def Rel (e : ProviderEdit policy) (g g' : PolicyRule) : Prop :=
  (g = g' ∧ g.id ≠ e.rule.id) ∨ (g = e.rule ∧ g' = e.newRule) ∨
    (g = e.rule ∧ e.rule.limits = none)

theorem governs_iff {g : PolicyRule} : Governs ctx policy action g ↔
    GovernsIn ctx e.pre action g ∨ ((∀ r ∈ e.pre, r.effect = .allow → NoMatch ctx action r) ∧
      ((g = e.rule ∧ e.rule.effect = .allow ∧ Matches ctx action e.rule) ∨
        ((e.rule.effect = .allow → NoMatch ctx action e.rule) ∧
          GovernsIn ctx e.post action g))) := by
  unfold Governs GovernsIn
  rw [e.rules_eq, firstAt_append, firstAt_cons]

theorem governs_apply_iff {g : PolicyRule} : Governs ctx e.apply action g ↔
    GovernsIn ctx e.pre action g ∨ ((∀ r ∈ e.pre, r.effect = .allow → NoMatch ctx action r) ∧
      ((g = e.newRule ∧ e.rule.effect = .allow ∧ Matches ctx action e.newRule) ∨
        ((e.rule.effect = .allow → NoMatch ctx action e.newRule) ∧
          GovernsIn ctx e.post action g))) := by
  unfold Governs GovernsIn apply
  rw [firstAt_append, firstAt_cons]
  rfl

/-- No rule governs in a list whose allow rules do not match. -/
theorem not_governsIn {rules : List PolicyRule} {g : PolicyRule}
    (h : ∀ r ∈ rules, r.effect = .allow → NoMatch ctx action r) :
    ¬ GovernsIn ctx rules action g := fun hg =>
  (FirstAt.holds hg).2.not_noMatch (h g (FirstAt.mem hg) (FirstAt.holds hg).1)

/-- A harmless requirement leaves each action a corresponding governing rule. -/
theorem Harmless.governs (hids : (policy.rules.map PolicyRule.id).Nodup)
    (h : e.Harmless ctx action) {g' : PolicyRule} (hg' : Governs ctx e.apply action g') :
    ∃ g, Governs ctx policy action g ∧ e.Rel g g' := by
  unfold Harmless at h
  rcases governs_apply_iff.1 hg' with hg | ⟨hpre, ⟨rfl, hallow, hm⟩ | ⟨hnew, hg⟩⟩
  · exact ⟨g', governs_iff.2 (Or.inl hg), Or.inl ⟨rfl, ne_of_mem hids (Or.inl (FirstAt.mem hg))⟩⟩
  · have hgov : Governs ctx policy action e.rule :=
      governs_iff.2 (Or.inr ⟨hpre, Or.inl ⟨rfl, hallow, matches_of_newRule hm⟩⟩)
    exact ⟨e.rule, hgov, Or.inr (Or.inl ⟨rfl, rfl⟩)⟩
  · -- a later rule governs: it still does, unless the edited rule matched without limits
    have hsame : g' = g' ∧ g'.id ≠ e.rule.id := ⟨rfl, ne_of_mem hids (Or.inr (FirstAt.mem hg))⟩
    have hkeep : (e.rule.effect = .allow → NoMatch ctx action e.rule) →
        ∃ g, Governs ctx policy action g ∧ e.Rel g g' := fun hno =>
      ⟨g', governs_iff.2 (Or.inr ⟨hpre, Or.inr ⟨hno, hg⟩⟩), Or.inl hsame⟩
    cases heff : e.rule.effect with
    | deny => exact hkeep fun ha => by rw [heff] at ha; cases ha
    | allow =>
      rw [heff] at h
      rcases h with ⟨g, hg⟩ | hno | hm | ⟨hm, hlim⟩
      · exact absurd hg (not_governsIn hpre)
      · exact hkeep fun _ => hno
      · exact absurd (hnew heff) hm.not_noMatch
      · exact ⟨e.rule, governs_iff.2 (Or.inr ⟨hpre, Or.inl ⟨rfl, heff, hm⟩⟩),
          Or.inr (Or.inr ⟨rfl, hlim⟩)⟩

/-- Corresponding rules ask no more of an action. -/
theorem Rel.limitable {g g' : PolicyRule} (h : e.Rel g g') (hfit : Limitable ctx action g') :
    Limitable ctx action g := by
  rcases h with ⟨rfl, -⟩ | ⟨rfl, rfl⟩ | ⟨rfl, hlim⟩
  · exact hfit
  · exact hfit
  · intro l hl
    rw [hlim] at hl
    cases hl

/-- What a rule imposes, its corresponding rule imposes. -/
theorem Rel.imposes {g g' : PolicyRule} (h : e.Rel g g') :
    (∀ cap, capOf ctx g = some cap → g'.id = g.id ∧ capOf ctx g' = some cap) ∧
      ∀ d, demandOf ctx action g = some d → demandOf ctx action g' = some d := by
  rcases h with ⟨rfl, -⟩ | ⟨rfl, rfl⟩ | ⟨rfl, hlim⟩
  · exact ⟨fun _ hc => ⟨rfl, hc⟩, fun _ hd => hd⟩
  · exact ⟨fun _ hc => ⟨rfl, hc⟩, fun _ hd => hd⟩
  · exact ⟨fun cap hc => by simp [capOf, hlim] at hc, fun d hd => by simp [demandOf, hlim] at hd⟩

/-! ## The two directions -/

/-- After a harmless edit, what is allowed was allowed before, under the same limits. -/
theorem narrows (hids : (policy.rules.map PolicyRule.id).Nodup) {gov' : List PolicyRule}
    (h' : Allowed ctx e.apply tx gov') (h : ∀ a ∈ tx.actions, e.Harmless ctx a) :
    (∃ gov, Allowed ctx policy tx gov) ∧ ImposedBy ctx tx policy e.apply := by
  -- the edit changes one rule, and all others stand in both policies
  have hmem : ∀ r ∈ policy.rules, r ∈ e.pre ∨ r = e.rule ∨ r ∈ e.post := by
    intro r hr
    rw [e.rules_eq] at hr
    simpa using hr
  have hother : ∀ r, r ∈ e.pre ∨ r ∈ e.post → r ∈ e.apply.rules := by
    intro r hr
    simp only [apply, List.mem_append, List.mem_cons]
    tauto
  constructor
  -- the clauses carry over because the requirement is harmless on each action
  · suffices htransfer : ∃ gov, Allowed ctx policy tx gov ∧ List.Forall₂ e.Rel gov gov' by
      obtain ⟨gov, hgov, -⟩ := htransfer
      exact ⟨gov, hgov⟩
    refine h'.transfer rfl (Nat.le_refl _) ?_ ?_ ?_
    · intro a ha r hr hdeny
      rcases hmem r hr with hr | rfl | hr
      · exact h'.noDeny a ha r (hother r (Or.inl hr)) hdeny
      · have hharm := h a ha
        unfold Harmless at hharm
        rwa [hdeny] at hharm
      · exact h'.noDeny a ha r (hother r (Or.inr hr)) hdeny
    · intro a ha g' hg' hfit
      obtain ⟨g, hg, hrel⟩ := (h a ha).governs hids hg'
      exact ⟨g, hg, hrel.limitable hfit, hrel⟩
    -- a cap of the policy is imposed by the rule itself, or by the edited one
    · intro r hr cap hc
      by_cases hedit : r = e.rule
      · subst hedit
        refine ⟨e.newRule, by simp [apply], ⟨cap, hc, Nat.le_refl _⟩, ?_⟩
        rintro g' (⟨-, hne⟩ | ⟨-, hg'⟩ | ⟨-, hlim⟩)
        · exact absurd rfl hne
        · exact hg'
        · simp [capOf, hlim] at hc
      · refine ⟨r, hother r (by have := hmem r hr; tauto), ⟨cap, hc, Nat.le_refl _⟩, ?_⟩
        rintro g' (⟨rfl, -⟩ | ⟨hg, -⟩ | ⟨hg, -⟩)
        · rfl
        · exact absurd hg hedit
        · exact absurd hg hedit
  -- and the rules that govern impose the same
  · intro a ha g hg
    obtain ⟨g', -, hg', -⟩ := h'.governing ha
    obtain ⟨g₂, hg₂, hrel⟩ := (h a ha).governs hids hg'
    rw [hg.unique hg₂]
    exact ⟨g', hg', hrel.imposes⟩

/-- An edit that keeps what is imposed is harmless. -/
theorem harmless_of_imposed (hids : (policy.rules.map PolicyRule.id).Nodup)
    (hlimits : ∀ l, e.rule.limits = some l → l.maxPerTransaction.isSome ∨ wantsWindow l = true)
    (hread : Readable ctx e.rule) {gov : List PolicyRule} (h : Allowed ctx policy tx gov)
    (himp : ImposedBy ctx tx policy e.apply) (ha : action ∈ tx.actions) :
    e.Harmless ctx action := by
  have hrule : e.rule ∈ policy.rules := by rw [e.rules_eq]; simp
  unfold Harmless
  cases heff : e.rule.effect with
  | deny => exact h.noDeny action ha e.rule hrule heff
  | allow =>
    obtain ⟨g, -, hg, hfit⟩ := h.governing ha
    obtain ⟨g', hg', hcap, hdem⟩ := himp action ha g hg
    rcases (governs_iff (e := e)).1 hg with hpre | ⟨-, ⟨rfl, -, hm⟩ | ⟨hno, -⟩⟩
    · exact Or.inl ⟨g, hpre⟩
    · cases hl : e.rule.limits with
      | none => exact Or.inr (Or.inr (Or.inr ⟨hm, rfl⟩))
      | some l =>
        -- the rule imposes something, so its new version must govern the action
        have hid : g'.id = e.rule.id := by
          rcases hlimits l hl with ht | hw
          · obtain ⟨raw, hraw⟩ := Option.isSome_iff_exists.1 ht
            obtain ⟨cap, hc⟩ := (hread l hl).1 raw hraw
            exact (hcap cap (by simp [capOf, hl, hraw, parsedLimit, hc, Except.toOption])).1
          · obtain ⟨asset, hasset, -, -⟩ := hfit l hl
            have hsome : (demandOf ctx action e.rule).isSome := by
              simp [demandOf, hl, hw, hasset, Except.toOption]
            obtain ⟨d, hd⟩ := Option.isSome_iff_exists.1 hsome
            rw [← demandOf_ruleId (hdem d hd), demandOf_ruleId hd]
        have hnew : g' = e.newRule := by
          have hids' : (e.apply.rules.map PolicyRule.id).Nodup := by rw [ids_apply]; exact hids
          exact List.inj_on_of_nodup_map hids' hg'.mem (by simp [apply]) hid
        exact Or.inr (Or.inr (Or.inl (hnew ▸ (FirstAt.holds hg').2)))
    · exact Or.inr (Or.inl (hno heff))

end ProviderEdit

theorem Policy.Valid.apply (hv : policy.Valid ctx.dialect) (e : ProviderEdit policy) :
    e.apply.Valid ctx.dialect := by
  refine ⟨by rw [ProviderEdit.ids_apply]; exact hv.ids, ?_⟩
  intro r hr
  simp only [ProviderEdit.apply, List.mem_append, List.mem_cons] at hr
  have hmem : ∀ r', r' ∈ e.pre ∨ r' = e.rule ∨ r' ∈ e.post → r'.Valid ctx.dialect := by
    intro r' hr'
    apply hv.rules
    rw [e.rules_eq]
    simpa using hr'
  rcases hr with hr | rfl | hr
  · exact hmem r (Or.inl hr)
  · exact ⟨(hmem e.rule (by simp)).denyUnlimited, (hmem e.rule (by simp)).parses⟩
  · exact hmem r (Or.inr (Or.inr hr))

/-- **When a provider requirement narrows.** For every valid policy, edit, transaction and
context: if the transaction is allowed after the edit, it is allowed before it and the
edited policy imposes every cap and demand the policy imposes, exactly when the
requirement is harmless on each action. -/
theorem providerEdit_narrows_iff {doc : Json} (hval : validatePolicy doc ctx.dialect = .ok policy)
    (e : ProviderEdit policy) (h : (evaluatePolicy tx e.apply ctx).decision.isAllow) :
    ((evaluatePolicy tx policy ctx).decision.isAllow ∧ ImposedBy ctx tx policy e.apply) ↔
      ∀ a ∈ tx.actions, e.Harmless ctx a := by
  have hv := validatePolicy_valid hval
  have hrule : e.rule ∈ policy.rules := by rw [e.rules_eq]; simp
  obtain ⟨gov', hgov'⟩ := (evaluatePolicy_isAllow (hv.apply e)).1 h
  rw [evaluatePolicy_isAllow hv]
  constructor
  · rintro ⟨⟨gov, hgov⟩, himp⟩ a ha
    exact ProviderEdit.harmless_of_imposed hv.ids (validatePolicy_limits hval e.rule hrule)
      (hv.rules e.rule hrule).readable hgov himp ha
  · intro hharm
    exact ProviderEdit.narrows hv.ids hgov' hharm

namespace NoTransfers

/-- A policy that denies every transfer and allows the rest. -/
def fields : List (JsString × MatchValue) := [(js "action", .lit (js "transfer"))]

def doc : Json := DenyOne.doc (.obj .ordinary [(js "action", Sample.text "transfer")])

/-- Its deny rule made to depend on a table row. -/
def edit : ProviderEdit (DenyOne.policyOf fields) where
  pre := []
  rule := DenyOne.denyRule fields
  post := [DenyOne.allowRule]
  before := []
  req := ⟨js "xpr.rpc.tableRow", ⟨js "frozen", none, js "frozen", js "$agent"⟩, js "name", .eq,
    js "$agent"⟩
  after := []
  rules_eq := rfl
  providers_eq := rfl

/-- No row is found. -/
def context : EvaluationContext := Sample.context (some fun _ => some .notFound)

/-- The transfer is denied, and allowed once the deny rule has a requirement: the row it asks for
does not exist. -/
theorem requirement_widens :
    validatePolicy doc xprDialect = .ok (DenyOne.policyOf fields) ∧
      (evaluatePolicy (Sample.transfer []) (DenyOne.policyOf fields) context).decision.isAllow =
        false ∧
      (evaluatePolicy (Sample.transfer []) edit.apply context).decision.isAllow = true :=
  ⟨DenyOne.validate (by decide), by decide, by decide⟩

/-- So the requirement is not harmless on the action of the transfer, which is what the exact
condition says. -/
theorem edit_not_harmless : ¬ ∀ a ∈ (Sample.transfer []).actions, edit.Harmless context a := by
  have hval : validatePolicy doc context.dialect = .ok (DenyOne.policyOf fields) :=
    DenyOne.validate (by decide)
  rw [← providerEdit_narrows_iff hval edit (by decide)]
  rintro ⟨hallow, -⟩
  exact absurd hallow (by decide)

end NoTransfers

end Signbox
