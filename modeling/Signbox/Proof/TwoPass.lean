import Signbox.Proof.DenyClosed

/-!
# Collecting queries, then evaluating

The daemon evaluates in two passes: `collectProviderQueries` lists the provider queries,
they are resolved, and `evaluatePolicy` runs on that evidence only. `twoPass_eq_iff` says
when this agrees with evaluation on all evidence: exactly when the static match of every
rule that has providers evaluates without an error, for rules the engine never gets to as
well. `ruleMatches_restrict` is the agreement of one rule: it never asks for a key that was
not collected.
-/

namespace Signbox

open Guard

variable {ctx : EvaluationContext} {policy : Policy} {tx : DecodedTransaction}
  {action : DecodedAction} {rule : PolicyRule} {O : JsString → ProviderEvidence}

def EvaluationContext.withEvidence (ctx : EvaluationContext) (e : Option ProviderEvidenceMap) :
    EvaluationContext := { ctx with evidence := e }

/-- All the evidence there is. -/
def allOf (O : JsString → ProviderEvidence) : ProviderEvidenceMap := fun key => some (O key)

/-- The evidence for the given queries only. -/
def restrict (O : JsString → ProviderEvidence) (queries : List ProviderQuery) :
    ProviderEvidenceMap := fun key => if queries.any (·.key == key) then some (O key) else none

/-- The daemon's evaluation: it collects the queries, and evaluates with their evidence. Without a
query there is no evidence at all. -/
def twoPass (tx : DecodedTransaction) (policy : Policy) (ctx : EvaluationContext)
    (O : JsString → ProviderEvidence) : Except JsError EvaluationResult := do
  let queries ← collectProviderQueries tx policy (ctx.withEvidence none)
  let evidence := if queries = [] then none else some (restrict O queries)
  return evaluatePolicy tx policy (ctx.withEvidence evidence)

/-! ## What does not look at the evidence -/

theorem staticMatch_withEvidence (e : Option ProviderEvidenceMap) :
    staticMatch action rule (ctx.withEvidence e) = staticMatch action rule ctx := rfl

theorem providerQuery_withEvidence (req : TableRowProvider) (e : Option ProviderEvidenceMap) :
    providerQuery req action (ctx.withEvidence e) = providerQuery req action ctx := rfl

/-- Evaluation sees the evidence through the matching of its rules only. -/
theorem evaluatePolicy_congr {e e' : Option ProviderEvidenceMap}
    (h : ∀ a ∈ tx.actions, ∀ r ∈ policy.rules,
      ruleMatches a r (ctx.withEvidence e) = ruleMatches a r (ctx.withEvidence e')) :
    evaluatePolicy tx policy (ctx.withEvidence e) =
      evaluatePolicy tx policy (ctx.withEvidence e') := by
  have hdeny : explicitlyDenied tx policy (ctx.withEvidence e) =
      explicitlyDenied tx policy (ctx.withEvidence e') := by
    refine anyM_congr fun a ha => anyM_congr fun r hr => ?_
    rw [h a ha r hr]
  have hgov : ∀ a ∈ tx.actions, governingRule policy (ctx.withEvidence e) a =
      governingRule policy (ctx.withEvidence e') a := by
    intro a ha
    refine findM?_congr fun r hr => ?_
    rw [h a ha r hr]
  have htally : ∀ t, tx.actions.foldlM (tallyAction policy (ctx.withEvidence e)) t =
      tx.actions.foldlM (tallyAction policy (ctx.withEvidence e')) t := by
    refine foldlM_congr fun t a ha => ?_
    unfold tallyAction
    rw [hgov a ha]
    rfl
  unfold evaluatePolicy evaluateActions
  rw [hdeny, htally]
  rfl

/-! ## What is collected -/

/-- The queries `rule` can ask of `action` are among `queries`. A rule whose static match fails
asks nothing. -/
def Covers (ctx : EvaluationContext) (queries : List ProviderQuery) (action : DecodedAction)
    (rule : PolicyRule) : Prop :=
  staticMatch action rule ctx = .ok true → ∀ req ∈ rule.providers.getD [], ∀ q,
    providerQuery req action ctx = .ok q → ∃ q' ∈ queries, q'.key = q.key

/-- The static match of a rule with providers does not fail: it holds or does not, without an
error. -/
def StaticallyDecided (ctx : EvaluationContext) (action : DecodedAction) (rule : PolicyRule) :
    Prop :=
  rule.providers.getD [] ≠ [] → ∃ b, staticMatch action rule ctx = .ok b

theorem collectRequirement_subset (out : List ProviderQuery) (req : TableRowProvider) :
    out ⊆ collectRequirement action ctx out req := by
  unfold collectRequirement
  cases providerQuery req action ctx with
  | error e => exact List.Subset.refl out
  | ok q =>
    dsimp only
    split
    · exact List.Subset.refl out
    · exact List.subset_append_left out [q]

theorem collectRequirement_covers {out : List ProviderQuery} {req : TableRowProvider}
    {q : ProviderQuery} (hq : providerQuery req action ctx = .ok q) :
    ∃ q' ∈ collectRequirement action ctx out req, q'.key = q.key := by
  unfold collectRequirement
  rw [hq]
  dsimp only
  split
  · rename_i hany
    obtain ⟨q', hq', hk⟩ := List.any_eq_true.1 hany
    exact ⟨q', hq', beq_iff_eq.1 hk⟩
  · exact ⟨q, by simp, rfl⟩

theorem foldl_collect {reqs : List TableRowProvider} : ∀ {out : List ProviderQuery},
    out ⊆ reqs.foldl (collectRequirement action ctx) out ∧
      ∀ req ∈ reqs, ∀ q, providerQuery req action ctx = .ok q →
        ∃ q' ∈ reqs.foldl (collectRequirement action ctx) out, q'.key = q.key := by
  induction reqs with
  | nil => exact fun {out} => ⟨List.Subset.refl out, by simp⟩
  | cons req reqs ih =>
    intro out
    obtain ⟨hsub, hcov⟩ := @ih (collectRequirement action ctx out req)
    refine ⟨List.Subset.trans (collectRequirement_subset out req) hsub, ?_⟩
    intro req' hreq' q hq
    rcases List.mem_cons.1 hreq' with rfl | hreq'
    · obtain ⟨q', hq', hk⟩ := collectRequirement_covers hq
      exact ⟨q', hsub hq', hk⟩
    · exact hcov req' hreq' q hq

theorem collectRule_ok {out out' : List ProviderQuery}
    (h : collectRule action ctx out rule = .ok out') :
    out ⊆ out' ∧ Covers ctx out' action rule ∧ StaticallyDecided ctx action rule := by
  unfold collectRule at h
  unfold Covers StaticallyDecided
  split at h
  · rename_i hp
    simp only [Except.ok.injEq] at h
    exact ⟨h ▸ List.Subset.refl out, by simp [hp], by simp [hp]⟩
  · rename_i hp
    simp only [Except.ok.injEq] at h
    exact ⟨h ▸ List.Subset.refl out, by simp [hp], by simp [hp]⟩
  · rename_i reqs hne hp
    obtain ⟨b, hb, h⟩ := bind_ok.1 h
    rw [hp, Option.getD_some]
    refine ⟨?_, ?_, fun _ => ⟨b, hb⟩⟩
    · cases b <;> simp only [Bool.false_eq_true, if_false, if_true, pure_eq, Except.ok.injEq] at h
      · exact h ▸ List.Subset.refl out
      · exact h ▸ foldl_collect.1
    · intro htrue
      rw [htrue, Except.ok.injEq] at hb
      subst hb
      simp only [if_true, pure_eq, Except.ok.injEq] at h
      exact h ▸ foldl_collect.2

theorem collectRule_total (h : StaticallyDecided ctx action rule) (out : List ProviderQuery) :
    ∃ out', collectRule action ctx out rule = .ok out' := by
  unfold collectRule
  split
  · exact ⟨out, rfl⟩
  · exact ⟨out, rfl⟩
  · rename_i reqs hne hp
    obtain ⟨b, hb⟩ := h (by rw [hp, Option.getD_some]; exact fun he => hne he)
    rw [hb]
    cases b <;> exact ⟨_, rfl⟩

/-- A collection that ends has every query any rule can ask. -/
theorem collect_ok {queries : List ProviderQuery}
    (h : collectProviderQueries tx policy ctx = .ok queries) :
    ∀ a ∈ tx.actions, ∀ r ∈ policy.rules, Covers ctx queries a r ∧ StaticallyDecided ctx a r := by
  have hmono : ∀ a r, ∀ s t : List ProviderQuery, s ⊆ t →
      Covers ctx s a r ∧ StaticallyDecided ctx a r → Covers ctx t a r ∧ StaticallyDecided ctx a r := by
    rintro a r s t hst ⟨hcov, hdec⟩
    refine ⟨fun htrue req hreq q hq => ?_, hdec⟩
    obtain ⟨q', hq', hk⟩ := hcov htrue req hreq q hq
    exact ⟨q', hst hq', hk⟩
  have hrules : ∀ a ∈ tx.actions, ∀ s t, policy.rules.foldlM (collectRule a ctx) s = .ok t →
      s ⊆ t ∧ ∀ r ∈ policy.rules, Covers ctx t a r ∧ StaticallyDecided ctx a r := by
    intro a _ s t hst
    exact foldlM_leaves List.Subset.refl (fun _ _ _ => List.Subset.trans) (hmono a)
      (fun r _ s t ht => collectRule_ok ht) hst
  exact (foldlM_leaves List.Subset.refl (fun _ _ _ => List.Subset.trans)
    (fun a s t hst hs r hr => hmono a r s t hst (hs r hr)) hrules h).2

theorem collect_total (h : ∀ a ∈ tx.actions, ∀ r ∈ policy.rules, StaticallyDecided ctx a r) :
    ∃ queries, collectProviderQueries tx policy ctx = .ok queries :=
  foldlM_total (fun a ha s => foldlM_total (fun r hr t => collectRule_total (h a ha r hr) t) s) []

/-! ## Agreement -/

/-- A requirement whose query was collected finds the same evidence. -/
theorem providerHolds_restrict {queries : List ProviderQuery} {req : TableRowProvider}
    (h : ∀ q, providerQuery req action ctx = .ok q → ∃ q' ∈ queries, q'.key = q.key) :
    providerHolds req action (ctx.withEvidence (some (restrict O queries))) =
      providerHolds req action (ctx.withEvidence (some (allOf O))) := by
  unfold providerHolds
  rw [providerQuery_withEvidence, providerQuery_withEvidence]
  refine bind_congr_ok fun q hq => ?_
  obtain ⟨q', hq', hk⟩ := h q hq
  have hany : queries.any (·.key == q.key) = true :=
    List.any_eq_true.2 ⟨q', hq', beq_iff_eq.2 hk⟩
  have hsame : restrict O queries q.key = allOf O q.key := by simp [restrict, allOf, hany]
  simp only [EvaluationContext.withEvidence, Option.bind_some, hsame]
  rfl

/-- Evaluation asks for no key that was not collected: an evidence map with the collected
keys, or none when there are none, matches each rule alike. -/
theorem ruleMatches_restrict {queries : List ProviderQuery}
    (h : Covers ctx queries action rule) :
    ruleMatches action rule
        (ctx.withEvidence (if queries = [] then none else some (restrict O queries))) =
      ruleMatches action rule (ctx.withEvidence (some (allOf O))) := by
  unfold ruleMatches
  rw [staticMatch_withEvidence, staticMatch_withEvidence]
  refine bind_congr_ok fun b hb => ?_
  cases b with
  | false => rfl
  | true =>
    simp only [if_true]
    cases hp : rule.providers with
    | none => rfl
    | some reqs =>
      have hcov : ∀ req ∈ reqs, ∀ q, providerQuery req action ctx = .ok q →
          ∃ q' ∈ queries, q'.key = q.key := by
        intro req hreq
        exact h hb req (by rw [hp]; exact hreq)
      refine allM_congr fun req hreq => ?_
      by_cases hq : queries = []
      · -- nothing was collected, so the requirement has no query to ask
        have hnone : ∀ q, providerQuery req action ctx ≠ .ok q := by
          intro q hok
          obtain ⟨q', hq', -⟩ := hcov req hreq q hok
          rw [hq] at hq'
          simp at hq'
        rw [if_pos hq]
        unfold providerHolds
        rw [providerQuery_withEvidence, providerQuery_withEvidence]
        exact bind_congr_ok fun q hok => absurd hok (hnone q)
      · rw [if_neg hq]
        exact providerHolds_restrict (hcov req hreq)

/-- **When the two passes agree with one.** For every transaction, policy, context and
oracle: the daemon's evaluation ends in the result of evaluating with all evidence, exactly
when no rule with providers fails its static match on an action. -/
theorem twoPass_eq_iff : twoPass tx policy ctx O =
      .ok (evaluatePolicy tx policy (ctx.withEvidence (some (allOf O)))) ↔
    ∀ a ∈ tx.actions, ∀ r ∈ policy.rules, StaticallyDecided ctx a r := by
  constructor
  · intro h
    obtain ⟨queries, hq, -⟩ := bind_ok.1 h
    exact fun a ha r hr => (collect_ok hq a ha r hr).2
  · intro h
    have hdec : ∀ a ∈ tx.actions, ∀ r ∈ policy.rules,
        StaticallyDecided (ctx.withEvidence none) a r := h
    obtain ⟨queries, hq⟩ := collect_total hdec
    have heval : evaluatePolicy tx policy
          (ctx.withEvidence (if queries = [] then none else some (restrict O queries))) =
        evaluatePolicy tx policy (ctx.withEvidence (some (allOf O))) :=
      evaluatePolicy_congr fun a ha r hr => ruleMatches_restrict (collect_ok hq a ha r hr).1
    unfold twoPass
    rw [hq, ok_bind]
    exact congrArg Except.ok heval

namespace Vip

/-- After a rule for every transfer, one for small memos of senders listed in a table. -/
def rules : List Json :=
  [.obj .ordinary [(js "id", Sample.text "pay"), (js "effect", Sample.text "allow"),
      (js "match", .obj .ordinary [(js "action", Sample.text "transfer")])],
    .obj .ordinary [(js "id", Sample.text "vip"), (js "effect", Sample.text "allow"),
      (js "match", .obj .ordinary
        [(js "data.memo", .obj .ordinary [(js "lte", Sample.text "5")])]),
      (js "providers", .arr [.obj .ordinary
        [(js "provider", Sample.text "xpr.rpc.tableRow"),
          (js "args", .obj .ordinary [(js "contract", Sample.text "vips"),
            (js "table", Sample.text "vips"), (js "key", Sample.text "$agent")]),
          (js "select", Sample.text "name"), (js "op", Sample.text "eq"),
          (js "value", Sample.text "$agent")]])]]

def vipPolicy : Policy := Sample.policyOf
  [⟨js "pay", .allow, [(js "action", .lit (js "transfer"))], none, none⟩,
    ⟨js "vip", .allow, [(js "data.memo", .lte (js "5"))], none,
      some [⟨js "xpr.rpc.tableRow", ⟨js "vips", none, js "vips", js "$agent"⟩, js "name", .eq,
        js "$agent"⟩]⟩]

/-- The transfer is allowed by the first rule, which has no providers, and the two passes
fail on the second, which evaluation never gets to. -/
theorem twoPass_fails :
    decodeXprTransaction (Memo.input (Sample.text "rent")) Memo.context =
        .ok (Memo.transaction (Sample.text "rent") (Sample.text "rent")) ∧
      validatePolicy (Sample.policyDoc rules) xprDialect = .ok vipPolicy ∧
      (evaluatePolicy (Memo.transaction (Sample.text "rent") (Sample.text "rent")) vipPolicy
        (Sample.context (some (allOf fun _ => .notFound)))).decision.isAllow = true ∧
      twoPass (Memo.transaction (Sample.text "rent") (Sample.text "rent")) vipPolicy
        (Sample.context none) (fun _ => .notFound) = .error (.asset (js "invalid amount string")) :=
  ⟨Memo.decode (by decide +kernel) rfl, by decide, by decide, by decide⟩

end Vip

end Signbox
