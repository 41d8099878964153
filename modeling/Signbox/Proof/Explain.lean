import Signbox.Guard.Asking
import Signbox.Proof.Evaluate
import Signbox.Proof.StoredText
import Signbox.Spec.Explain

/-!
# Dry runs against enforcement

Evaluation asks, for one pair of an action and a rule after the other, whether the rule matches
(`askActions`, `questions`), and the contexts of a dry run and of the daemon differ only in the
answers: the command substitutes the on-chain permission where the daemon substitutes that of
the keystore, and the tool has no evidence for providers.

* `evaluateActions_outcome`: evaluation is that inquiry, answered by `ruleMatches`.
* `provide_decides`: the segments of the daemon's machine carry out `evaluationStep`.
* `dry_runs_agree`: the condition under which the three decisions have one effect and code; it
  is exact for a row whose permission is that of the keystore.
* `Counter.dry_runs_differ`: a policy with a provider, and a policy after `setperm`.
-/

namespace Signbox

open Guard Inquiry

variable {tx : DecodedTransaction} {policy : Policy} {ctx ctx' : EvaluationContext}

/-! ## Errors of values -/

/-- The error says that a value cannot be compared. It is refused with a code of its own. -/
def JsError.OfValue : JsError → Prop
  | .asset _ => True
  | .ambiguous _ => True
  | _ => False

/-- The decimal reader throws only for a value it cannot read, whatever the context text in its
message is. -/
theorem toUnits_fails (int : JsString) (frac : Option JsString) (context : JsString) :
    FailsIn JsError.OfValue (toUnits int frac context) := by
  unfold toUnits
  dsimp only
  split
  · exact .error trivial
  · split
    · exact .error trivial
    · exact .ok _

/-- So does the reader of amounts without a symbol, -/
theorem parseBareAmount_fails (s : JsString) : FailsIn JsError.OfValue (parseBareAmount s) := by
  unfold parseBareAmount
  split
  · exact .error trivial
  · exact toUnits_fails _ _ _

/-- and the reader of amounts with one. -/
theorem parseAsset_fails (s : JsString) : FailsIn JsError.OfValue (parseAsset s) := by
  unfold parseAsset
  split
  · exact .error trivial
  · exact (toUnits_fails _ _ _).bind fun _ => .ok _

/-- The dialect's asset of an action throws only for a value of that action. -/
theorem assetOf_fails (action : DecodedAction) :
    FailsIn JsError.OfValue (xprDialect.assetOf action) := by
  unfold xprDialect.assetOf
  split
  · split
    · refine (parseBareAmount_fails _).bind fun bare => ?_
      split
      · exact .ok _
      · exact .error trivial
    · exact .error trivial
  · exact .error trivial

/-- Adding a demand to the running totals throws only for a value. -/
theorem capTotals_fails (governing : PolicyRule) (limits : RuleLimits) (asset : AssetAmount)
    (totals : List (JsString × RuleTotal)) :
    FailsIn JsError.OfValue (capTotals xprDialect governing limits asset totals) := by
  unfold capTotals transactionCap
  split
  · exact .ok _
  · refine ((parseAsset_fails _).bind fun cap => ?_).bind fun _ => .ok _
    exact (FailsIn.failIf trivial).bind fun _ => .ok _

/-- And so does the demand on a window, whose amounts come from the rule. -/
theorem demandWindow_fails (hd : ctx.dialect = xprDialect) (action : DecodedAction)
    (governing : PolicyRule) (limits : RuleLimits) (asset : AssetAmount)
    (demands : List QuotaDemand) :
    FailsIn JsError.OfValue (demandWindow ctx action governing limits asset demands) := by
  unfold demandWindow quotaDemand
  rw [hd]
  split
  · refine FailsIn.bind ?_ fun _ => .ok _
    refine (FailsIn.optionMapM parseAsset_fails _).bind fun _ => ?_
    refine (FailsIn.optionMapM parseAsset_fails _).bind fun _ => ?_
    refine (FailsIn.failIf trivial).bind fun _ => ?_
    exact (FailsIn.failIf trivial).bind fun _ => .ok _
  · exact .ok _

/-- Limits fail on values only. -/
theorem applyLimits_fails (hd : ctx.dialect = xprDialect) (action : DecodedAction)
    (governing : PolicyRule) (tally : Tally) :
    FailsIn JsError.OfValue (applyLimits ctx action governing tally) := by
  unfold applyLimits
  split
  · exact .ok _
  · rw [hd]
    refine (assetOf_fails action).bind fun asset => ?_
    refine (capTotals_fails _ _ _ _).bind fun totals => ?_
    exact (demandWindow_fails hd _ _ _ _ _).bind fun _ => .ok _

namespace Explain

/-! ## Evaluation as an inquiry -/

/-- A question: does the rule match the action? -/
abbrev Question := DecodedAction × PolicyRule

/-- A computation that asks the oracle about matches, may throw, and may stop with a code. The
daemon and the dry runs differ in the oracle only. -/
abbrev Evaluation := Inquiry Question JsError Bool Stop

/-- Whether a rule matches an action, as one question. -/
def askRule (action : DecodedAction) (rule : PolicyRule) : Evaluation Bool :=
  inquire .threw (action, rule)

/-- The pass over the deny rules, each match a question. -/
def askDenied (tx : DecodedTransaction) (policy : Policy) : Evaluation Bool :=
  tx.actions.anyM fun action => policy.rules.anyM fun rule =>
    if rule.effect = .deny then askRule action rule else pure false

/-- The search for the governing allow rule, each match a question. -/
def askGoverning (policy : Policy) (action : DecodedAction) : Evaluation (Option PolicyRule) :=
  policy.rules.findM? fun rule => if rule.effect = .allow then askRule action rule else pure false

/-- What follows for an action once its governing rule is known. -/
def govern (ctx : EvaluationContext) (tally : Tally) (action : DecodedAction) :
    Option PolicyRule → Except Stop Tally
  | none => throw (.refused .defaultDeny (js "no policy rule allows this transaction"))
  | some governing => do
    let tally ← throwing (applyLimits ctx action governing tally)
    return { tally with ruleIds := tally.ruleIds ++ [governing.id] }

/-- One action: its governing rule is asked for, and the rest is computed from the answer. -/
def askAction (policy : Policy) (ctx : EvaluationContext) (tally : Tally) (action : DecodedAction) :
    Evaluation Tally := do
  let governing ← askGoverning policy action
  settled (govern ctx tally action governing)

/-- The checks before the first question. -/
def screen (tx : DecodedTransaction) (policy : Policy) (ctx : EvaluationContext) :
    Except Stop Unit := do
  failIf (policy.chain.chainId ≠ ctx.chainId ∨ tx.context.chainId ≠ ctx.chainId)
    (.refused .chainMismatch (js "transaction chain does not match the configured chain"))
  failIf (tx.actions = []) (.refused .emptyTransaction (js "transaction contains no action"))
  failIf (∃ a ∈ tx.actions, a.authorization.length ≠ 1)
    (.refused .multiAuthorization (js "actions must carry exactly one authorization"))

/-- The checks between the deny rules and the allow rules. -/
def afterDenied (tx : DecodedTransaction) (policy : Policy) (denied : Bool) : Except Stop Unit := do
  failIf denied (.refused .ruleDeny (js "a policy rule denies this transaction"))
  failIf (tx.actions.length > policy.maxActionsPerTransaction.getD 1)
    (.refused .tooManyActions (js "transaction has more actions than the policy allows"))

/-- The end of an evaluation, after every action has been tallied. -/
def conclude (ctx : EvaluationContext) (tally : Tally) : Except Stop EvaluationResult := do
  failIf (∃ t ∈ tally.perRuleTotals, t.2.units > t.2.cap.units)
    (.refused .limitExceeded (js "transaction exceeds a policy limit"))
  return ⟨.allow tally.ruleIds ctx.policyVersion, tally.quotaDemands⟩

/-- Evaluation, up to the answers about its rules. With the answers of a context it is the
evaluation itself. -/
def askActions (tx : DecodedTransaction) (policy : Policy) (ctx : EvaluationContext) :
    Evaluation EvaluationResult := do
  settled (screen tx policy ctx)
  let denied ← askDenied tx policy
  settled (afterDenied tx policy denied)
  let tally ← tx.actions.foldlM (askAction policy ctx) ⟨[], [], []⟩
  settled (conclude ctx tally)

/-- The answers of a context. -/
def matching (ctx : EvaluationContext) (q : Question) : Except JsError Bool :=
  ruleMatches q.1 q.2 ctx

/-- The pairs of an action and a rule that evaluation looks at, in order. It ends where the
evaluation does. -/
def questions (tx : DecodedTransaction) (policy : Policy) (ctx : EvaluationContext) :
    List Question :=
  asked (matching ctx) (askActions tx policy ctx)

/-- Reading a throw as a stop respects sequencing, -/
theorem throwing_bind {α β : Type} (x : Except JsError α) (f : α → Except JsError β) :
    throwing (x >>= f) = throwing x >>= fun a => throwing (f a) := by
  cases x <;> rfl

/-- the search for a match that holds, -/
theorem throwing_anyM {α : Type} (p : α → Except JsError Bool) (l : List α) :
    throwing (l.anyM p) = l.anyM fun x => throwing (p x) := by
  induction l with
  | nil => rfl
  | cons x l ih =>
    rw [anyM_cons, anyM_cons, throwing_bind, ← ih]
    exact bind_congr_ok fun b _ => by cases b <;> rfl

/-- and the search for the first one. -/
theorem throwing_findM? {α : Type} (p : α → Except JsError Bool) (l : List α) :
    throwing (l.findM? p) = l.findM? fun x => throwing (p x) := by
  induction l with
  | nil => rfl
  | cons x l ih =>
    rw [findM?_cons, findM?_cons, throwing_bind, ← ih]
    exact bind_congr_ok fun b _ => by cases b <;> rfl

/-- Answered from the engine's own matching, the questions about deny rules come to what the engine
computes. -/
theorem outcome_askDenied :
    outcome (matching ctx) (askDenied tx policy) = throwing (explicitlyDenied tx policy ctx) := by
  unfold askDenied explicitlyDenied
  rw [outcome_anyM, throwing_anyM]
  refine anyM_congr fun a _ => ?_
  rw [outcome_anyM, throwing_anyM]
  refine anyM_congr fun r _ => ?_
  split <;> rfl

/-- The same for the governing rule of an action. -/
theorem outcome_askGoverning (action : DecodedAction) :
    outcome (matching ctx) (askGoverning policy action) =
      throwing (governingRule policy ctx action) := by
  unfold askGoverning governingRule
  rw [outcome_findM?, throwing_findM?]
  refine findM?_congr fun r _ => ?_
  split <;> rfl

/-- And for the tally of one action. -/
theorem outcome_askAction (tally : Tally) (action : DecodedAction) :
    outcome (matching ctx) (askAction policy ctx tally action) =
      tallyAction policy ctx tally action := by
  unfold askAction tallyAction
  rw [outcome_bind, outcome_askGoverning]
  refine bind_congr_ok fun g _ => ?_
  cases g <;> rfl

/-- **Evaluation asks.** `evaluateActions` is the inquiry with the answers of its context, so two
contexts that answer alike what is asked give one result. -/
theorem evaluateActions_outcome :
    evaluateActions tx policy ctx = outcome (matching ctx) (askActions tx policy ctx) := by
  unfold askActions evaluateActions screen afterDenied conclude
  simp only [outcome_bind, outcome_settled, outcome_askDenied, outcome_foldlM, outcome_askAction,
    bind_assoc]

/-! ## Unavailable providers -/

/-- The code of the refusal that evaluation stops with. -/
def stopCode : Stop → DenyCode
  | .refused code _ => code
  | .threw (.providerUnavailable _) => .providerUnavailable
  | .threw (.ambiguous _) => .ambiguousValue
  | .threw (.asset _) => .ambiguousValue
  | .threw _ => .internalError

/-- The verdict that a result or a stop stands for. -/
def resultVerdict : Except Stop EvaluationResult → Verdict
  | .ok result => result.decision.verdict
  | .error stop => .deny (stopCode stop)

/-- The verdict of the engine is the outcome of the questions, answered from its own matching. -/
theorem evaluatePolicy_verdict :
    (evaluatePolicy tx policy ctx).decision.verdict =
      resultVerdict (outcome (matching ctx) (askActions tx policy ctx)) := by
  rw [← evaluateActions_outcome]
  unfold evaluatePolicy
  cases evaluateActions tx policy ctx with
  | ok result => rfl
  | error stop =>
    cases stop with
    | refused code reason => rfl
    | threw error => cases error <;> rfl

/-- Evaluation stops for a provider without evidence. -/
def Unresolved (stop : Stop) : Prop := stopCode stop = .providerUnavailable

/-- The rule meets a provider without evidence, which is an error of its match and not a
`false`. -/
def LacksEvidence (ctx : EvaluationContext) (q : Question) : Prop :=
  ∃ e, matching ctx q = .error e ∧ Unresolved (.threw e)

/-- What is checked before any rule stops with a code of its own, never for a match left
unanswered. -/
theorem screen_resolved : FailsIn (fun stop => ¬ Unresolved stop) (screen tx policy ctx) :=
  (FailsIn.failIf nofun).bind fun _ => (FailsIn.failIf nofun).bind fun _ => FailsIn.failIf nofun

/-- Nor does the step after the deny rules, -/
theorem afterDenied_resolved (denied : Bool) :
    FailsIn (fun stop => ¬ Unresolved stop) (afterDenied tx policy denied) :=
  (FailsIn.failIf nofun).bind fun _ => FailsIn.failIf nofun

/-- the conclusion, -/
theorem conclude_resolved (tally : Tally) :
    FailsIn (fun stop => ¬ Unresolved stop) (conclude ctx tally) :=
  (FailsIn.failIf nofun).bind fun _ => .ok _

/-- or what is computed once the governing rule of an action is known. -/
theorem govern_resolved (hd : ctx.dialect = xprDialect) (tally : Tally) (action : DecodedAction)
    (governing : Option PolicyRule) :
    FailsIn (fun stop => ¬ Unresolved stop) (govern ctx tally action governing) := by
  cases governing with
  | none => exact .error nofun
  | some g =>
    refine FailsIn.bind ?_ fun _ => .ok _
    intro stop hstop
    cases hlimits : applyLimits ctx action g tally with
    | ok t => rw [hlimits] at hstop; exact nomatch hstop
    | error e =>
      have he := applyLimits_fails hd action g tally e hlimits
      rw [hlimits] at hstop
      obtain rfl := Except.error.inj hstop
      cases e with
      | asset _ => exact nofun
      | ambiguous _ => exact nofun
      | validation _ => exact he.elim
      | canonicalization _ => exact he.elim
      | providerUnavailable _ => exact he.elim
      | type => exact he.elim

/-- A computation that asks nothing relays trivially. -/
theorem relays_settled {α : Type} {x : Except Stop α}
    (h : FailsIn (fun stop => ¬ Unresolved stop) x) :
    Relays Stop.threw Unresolved (settled x : Evaluation α) :=
  .settled h

/-- An unanswered match of a deny rule reaches the verdict unchanged. -/
theorem relays_askDenied : Relays Stop.threw Unresolved (askDenied tx policy) := by
  refine .anyM fun a => .anyM fun r => ?_
  split
  · exact .inquire _
  · exact .pure false

/-- So does one met while the governing rule is searched for. -/
theorem relays_askGoverning (action : DecodedAction) :
    Relays Stop.threw Unresolved (askGoverning policy action) := by
  refine .findM? fun r => ?_
  split
  · exact .inquire _
  · exact .pure false

/-- Only an answer stops evaluation for want of evidence, and it does so at once. -/
theorem relays_askActions (hd : ctx.dialect = xprDialect) :
    Relays Stop.threw Unresolved (askActions tx policy ctx) := by
  refine (relays_settled screen_resolved).bind fun _ => relays_askDenied.bind fun denied => ?_
  refine (relays_settled (afterDenied_resolved denied)).bind fun _ => ?_
  refine Relays.bind ?_ fun tally => relays_settled (conclude_resolved tally)
  refine .foldlM (fun tally action => ?_) _
  exact (relays_askGoverning action).bind fun g => relays_settled (govern_resolved hd tally action g)

/-- Without evidence a requirement fails, as it does with evidence or for want of it. -/
theorem providerHolds_none (req : TableRowProvider) (action : DecodedAction) :
    ∃ e, providerHolds req action { ctx with evidence := none } = .error e ∧
      (providerHolds req action ctx = .error e ∨ Unresolved (.threw e)) := by
  have hquery : providerQuery req action { ctx with evidence := none } =
    providerQuery req action ctx := rfl
  unfold providerHolds
  rw [hquery]
  cases providerQuery req action ctx with
  | error e => exact ⟨e, rfl, Or.inl rfl⟩
  | ok query => exact ⟨.providerUnavailable _, rfl, Or.inr rfl⟩

/-- Without evidence a rule matches as it does with it, or lacks the evidence. -/
theorem matching_unresolved (q : Question) :
    matching { ctx with evidence := none } q = matching ctx q ∨
      ∃ e, Unresolved (.threw e) ∧ matching { ctx with evidence := none } q = .error e := by
  obtain ⟨action, rule⟩ := q
  have hstatic : staticMatch action rule { ctx with evidence := none } =
    staticMatch action rule ctx := rfl
  unfold matching ruleMatches
  rw [hstatic]
  cases staticMatch action rule ctx with
  | error e => exact Or.inl rfl
  | ok holds =>
    cases holds with
    | false => exact Or.inl rfl
    | true =>
      cases rule.providers with
      | none => exact Or.inl rfl
      | some reqs =>
        cases reqs with
        | nil => exact Or.inl rfl
        | cons req reqs =>
          -- the first requirement decides: it fails alike, or it is the one without evidence
          obtain ⟨e, hnone, hctx⟩ := @providerHolds_none ctx req action
          simp only [ok_bind, if_true, allM_cons, hnone, error_bind]
          rcases hctx with hctx | hun
          · rw [hctx]
            exact Or.inl rfl
          · exact Or.inr ⟨e, hun, rfl⟩

/-- An evaluation that concludes with a result allows. -/
theorem conclude_allow {tally : Tally} {result : EvaluationResult}
    (h : conclude ctx tally = .ok result) : result.decision.verdict = .allow := by
  obtain ⟨⟨⟩, -, hresult⟩ := bind_ok.1 h
  obtain rfl := Except.ok.inj hresult
  rfl

/-- So whatever the answers are, only a stop can deny. -/
theorem outcome_allow {result : EvaluationResult}
    (h : outcome (matching ctx) (askActions tx policy ctx) = .ok result) :
    result.decision.verdict = .allow := by
  unfold askActions at h
  simp only [outcome_bind, outcome_settled] at h
  obtain ⟨⟨⟩, -, h⟩ := bind_ok.1 h
  obtain ⟨denied, -, h⟩ := bind_ok.1 h
  obtain ⟨⟨⟩, -, h⟩ := bind_ok.1 h
  obtain ⟨tally, -, h⟩ := bind_ok.1 h
  exact conclude_allow h

/-- Evaluation is refused for want of evidence exactly when a rule it looks at lacks it. -/
theorem verdict_unavailable (hd : ctx.dialect = xprDialect) :
    (evaluatePolicy tx policy ctx).decision.verdict = .deny .providerUnavailable ↔
      ∃ q ∈ questions tx policy ctx, LacksEvidence ctx q := by
  rw [evaluatePolicy_verdict]
  constructor
  · intro h
    cases hanswer : outcome (matching ctx) (askActions tx policy ctx) with
    | ok result =>
      rw [hanswer, resultVerdict, outcome_allow hanswer] at h
      exact nomatch h
    | error stop =>
      rw [hanswer, resultVerdict, Verdict.deny.injEq] at h
      obtain ⟨q, hq, e, he, rfl⟩ := (relays_askActions hd).origin _ stop hanswer h
      exact ⟨q, hq, e, he, h⟩
  · rintro ⟨q, hq, e, he, hun⟩
    rw [(relays_askActions hd).stops _ q e hq he, resultVerdict]
    exact congrArg Verdict.deny hun

/-- **Evaluation without evidence** gives the same verdict exactly when no rule that evaluation
looks at needed its evidence, or one of them lacks it anyway. -/
theorem verdict_without_evidence (hd : ctx.dialect = xprDialect) :
    (evaluatePolicy tx policy { ctx with evidence := none }).decision.verdict =
        (evaluatePolicy tx policy ctx).decision.verdict ↔
      (∀ q ∈ questions tx policy ctx, matching { ctx with evidence := none } q = matching ctx q) ∨
        ∃ q ∈ questions tx policy ctx, LacksEvidence ctx q := by
  have hsame : askActions tx policy { ctx with evidence := none } = askActions tx policy ctx := rfl
  by_cases hagree : ∀ q ∈ questions tx policy ctx,
    matching { ctx with evidence := none } q = matching ctx q
  · have heq := outcome_congr hagree
    rw [evaluatePolicy_verdict, evaluatePolicy_verdict, hsame, heq]
    exact iff_of_true rfl (Or.inl hagree)
  · have hdiffers : ∃ q ∈ questions tx policy ctx,
      matching { ctx with evidence := none } q ≠ matching ctx q := by
      simpa only [not_forall, exists_prop] using hagree
    obtain ⟨stop, hun, hstop⟩ := (relays_askActions hd).fails_of_differs matching_unresolved hdiffers
    have hverdict : (evaluatePolicy tx policy { ctx with evidence := none }).decision.verdict =
        .deny .providerUnavailable := by
      rw [evaluatePolicy_verdict, hsame, hstop]
      exact congrArg Verdict.deny hun
    rw [hverdict, eq_comm, verdict_unavailable hd]
    simp only [hagree, false_or]

/-- Contexts whose rules match alike wherever evaluation looks give one verdict. -/
theorem verdict_congr (hsame : askActions tx policy ctx' = askActions tx policy ctx)
    (h : ∀ q ∈ questions tx policy ctx, matching ctx' q = matching ctx q) :
    (evaluatePolicy tx policy ctx').decision.verdict =
      (evaluatePolicy tx policy ctx).decision.verdict := by
  rw [evaluatePolicy_verdict, evaluatePolicy_verdict, hsame, outcome_congr h]

end Explain

/-! ## The daemon's machine -/

namespace SignBoxDaemon

variable {d : SignBoxDaemon} {b : Bound} {m : Moment} {s : DaemonState}

/-- The step carries out a decision: it refuses with its code, or reserves its quota. What the
journal then does is another matter. -/
def CarriesOut (d : SignBoxDaemon) (b : Bound) (m : Moment) (s : DaemonState) (step : Step) :
    Decision → Prop
  | .deny code safeReason version =>
    step = d.refuse s b.ctx m b.admitted.request.requestId ⟨code, safeReason, version⟩
  | .allow ruleIds version => ∃ demands, step = d.reserveQuota b ruleIds version demands m s

/-- The decision step of the daemon's pipeline is the engine's, on the context built from the
evidence. -/
theorem evaluate_decides (evidence : Option ProviderEvidenceMap) :
    CarriesOut d b m s (d.evaluate b evidence m s)
      (evaluatePolicy b.decoded b.active.policy (d.evaluationContext b evidence)).decision := by
  unfold evaluate
  cases evaluatePolicy b.decoded b.active.policy (d.evaluationContext b evidence) with
  | mk decision quotaDemands =>
    cases decision with
    | allow ruleIds version => exact ⟨quotaDemands, rfl⟩
    | deny code safeReason version => rfl

/-- **The machine decides as `evaluationStep`**, at once or when the evidence has come in, whatever
the state has become in the meantime. -/
theorem provide_decides :
    (∀ answers, CarriesOut d b m s (d.provide b m s) (d.evaluationStep b answers)) ∨
    ∃ queries, d.provide b m s = ⟨s, [.resolve queries], .inl (.providers b queries)⟩ ∧
      ∀ answers m' s', ∃ step, d.resume (.providers b queries) (.evidence answers, m') s' = some step ∧
        CarriesOut d b m' s' step (d.evaluationStep b answers) := by
  unfold provide evaluationStep
  cases collectProviderQueries b.decoded b.active.policy (d.evaluationContext b none) with
  | error e => exact Or.inl fun _ => rfl
  | ok queries =>
    cases queries with
    | nil => exact Or.inl fun _ => evaluate_decides none
    | cons q qs =>
      refine Or.inr ⟨q :: qs, rfl, fun answers m' s' => ⟨_, rfl, ?_⟩⟩
      exact evaluate_decides (some (d.resolveProviders (q :: qs) answers))

end SignBoxDaemon

/-! ## The three decisions -/

namespace Explain

/-- The evidence the relay has for a query. -/
def relayAnswers (relay : DialectRelay) (query : ProviderQuery) : Option ProviderEvidence :=
  (xprDialect.resolveProviderQuery query relay).toOption

/-- A row of the contract, an agent with its keystore, a relay, and a request of the agent that
the daemon has admitted, with the policy its cache has served. -/
structure Scene where
  runtime : Runtime
  config : SignBoxConfig
  relay : DialectRelay
  keystores : List KeystoreMetadata
  keystore : KeystoreMetadata
  row : PolicyRowRaw
  daemon : SignBoxDaemon
  request : Admitted
  active : ActivePolicy

namespace Scene

variable (s : Scene)

/-- The transaction of the request, as JSON. -/
def transaction : Json := s.request.request.transaction

/-- The effect and the code that `transaction explain` prints. -/
def command : Option Verdict :=
  (transactionExplain s.runtime s.config s.relay s.keystore.agent (some s.row)
    s.transaction).toOption.map Decision.verdict

/-- The effect and the code that `signbox_transaction_explain` answers. -/
def tool : Option Verdict :=
  (signboxTransactionExplain s.runtime s.config s.keystores s.keystore.agent (some s.row)
    s.transaction).toOption.map ToolDecision.verdict

/-- The effect and the code of the daemon. -/
def enforced : Option Verdict :=
  (s.daemon.policyDecision s.request s.active (relayAnswers s.relay)).map Decision.verdict

/-- The dry runs agree with enforcement: on the effect, and on the code of a refusal. -/
def Agree : Prop := s.command = s.enforced ∧ s.tool = s.enforced

/-- The daemon as the runner assembles it, with the agent registered from its keystore and the
row fresh and enabled. -/
structure Deployed : Prop where
  found : agentMeta s.keystores s.keystore.agent = some s.keystore
  enabled : s.row.enabled = true
  verified : verifyStoredPolicy s.runtime.reading (readRow s.row).policyjson
    (readRow s.row).policyhash = .ok (.ok s.active.policy)
  version : s.active.version = s.row.version
  permission : s.active.permission = s.row.agentperm
  decode : s.daemon.deps.decode = decodeXprTransaction
  dialect : s.daemon.deps.dialect = xprDialect
  relay : s.daemon.deps.relay = true
  agent : s.request.runtime.agent = s.keystore.agent
  keystorePermission : s.request.runtime.permission = s.keystore.permission
  chain : s.request.runtime.chain = s.config.context

/-- The context of the agent under a permission, without evidence. -/
def base (permission : JsString) : EvaluationContext :=
  context s.config s.keystore.agent permission s.row.version

/-- The command and the tool look at the rules as the daemon does: the queries of both
permissions can be collected, the rules that evaluation looks at match alike under both, and
they match alike without evidence, unless one of them lacks its evidence. -/
def Consistent : Prop :=
  ∀ decoded, decodeXprTransaction s.transaction s.config.context = .ok decoded →
    ∃ ctx ctx',
      withEvidence decoded s.active.policy (s.base s.keystore.permission) s.relay = .ok ctx ∧
      withEvidence decoded s.active.policy (s.base s.row.agentperm) s.relay = .ok ctx' ∧
      (∀ q ∈ questions decoded s.active.policy ctx, matching ctx' q = matching ctx q) ∧
      ((∀ q ∈ questions decoded s.active.policy ctx,
          matching (s.base s.keystore.permission) q = matching ctx q) ∨
        ∃ q ∈ questions decoded s.active.policy ctx, LacksEvidence ctx q)

end Scene

/-- Lowering the case twice changes nothing more, so a stored digest compares as its lowered
form. -/
theorem toLowerCase_toLowerCase (s : JsString) : toLowerCase (toLowerCase s) = toLowerCase s := by
  unfold toLowerCase
  rw [List.map_map]
  refine List.map_congr_left fun u _ => ?_
  simp only [Function.comp_apply]
  by_cases hu : isUpper u = true
  · have hlower : isUpper (u + 32) = false := by
      have hbounds : 65 ≤ u.toNat ∧ u.toNat ≤ 90 := by
        simpa [isUpper, UInt16.le_iff_toNat_le, unit] using hu
      have hadd : (u + 32).toNat = u.toNat + 32 := by
        have h32 : (32 : UInt16).toNat = 32 := rfl
        rw [UInt16.toNat_add, h32]
        exact Nat.mod_eq_of_lt (by omega)
      simp [isUpper, UInt16.le_iff_toNat_le, unit, hadd]
      omega
    rw [if_pos hu, hlower, if_neg Bool.false_ne_true]
  · rw [if_neg hu, if_neg hu]

/-- Resolving the providers changes the evidence of a context and nothing else. -/
theorem withEvidence_ok {baseCtx : EvaluationContext} {relay : DialectRelay}
    (h : withEvidence tx policy baseCtx relay = .ok ctx) :
    ∃ evidence, ctx = { baseCtx with evidence := evidence } := by
  unfold withEvidence at h
  cases hq : collectProviderQueries tx policy baseCtx with
  | error e => rw [hq] at h; exact nomatch h
  | ok queries =>
    rw [hq, Except.map, Except.ok.injEq] at h
    split at h
    · exact ⟨baseCtx.evidence, h.symm⟩
    · exact ⟨_, h.symm⟩

namespace Scene

variable {s : Scene}

/-- The verdict in a context with its evidence; without it the daemon has an internal error, since
collecting the queries threw. -/
def verdictWith (tx : DecodedTransaction) (policy : Policy) :
    Except JsError EvaluationContext → Verdict
  | .ok ctx => (evaluatePolicy tx policy ctx).decision.verdict
  | .error _ => .deny .internalError

/-- In a deployment the daemon's context is the base context with the keystore's permission and the
evidence. -/
theorem evaluationContext_base (h : s.Deployed) (decoded : DecodedTransaction)
    (evidence : Option ProviderEvidenceMap) :
    s.daemon.evaluationContext ⟨s.request, s.active, decoded⟩ evidence =
      { s.base s.keystore.permission with evidence := evidence } := by
  unfold SignBoxDaemon.evaluationContext base context Bound.agent Admitted.agent
  rw [h.agent, h.keystorePermission, h.chain, h.version, h.dialect]

/-- The daemon asks the relay what the command asks it. -/
theorem resolveProviders_eq (h : s.Deployed) (queries : List ProviderQuery) :
    s.daemon.resolveProviders queries (relayAnswers s.relay) =
      resolveProviders queries s.relay := by
  funext key
  unfold SignBoxDaemon.resolveProviders resolveProviders
  refine Option.map_congr fun q _ => ?_
  rw [if_pos h.relay]
  unfold relayAnswers resolveOne
  cases xprDialect.resolveProviderQuery q s.relay <;> rfl

/-- The daemon evaluates with the permission of the keystore. -/
theorem enforced_eq (h : s.Deployed) : s.enforced =
    (decodeXprTransaction s.transaction s.config.context).toOption.map fun decoded =>
      verdictWith decoded s.active.policy
        (withEvidence decoded s.active.policy (s.base s.keystore.permission) s.relay) := by
  unfold enforced SignBoxDaemon.policyDecision transaction
  rw [h.decode, h.chain, Option.map_map]
  refine Option.map_congr fun decoded _ => ?_
  unfold SignBoxDaemon.evaluationStep withEvidence
  simp only [Function.comp_apply, evaluationContext_base h, resolveProviders_eq h]
  have hbase : { s.base s.keystore.permission with evidence := none } =
    s.base s.keystore.permission := rfl
  rw [hbase]
  cases collectProviderQueries decoded s.active.policy (s.base s.keystore.permission) with
  | error e => rfl
  | ok queries => cases queries <;> rfl

/-- The command's verdict: decode, resolve the providers, and evaluate under the permission of the
row. -/
theorem command_eq (h : s.Deployed) : s.command =
    (decodeXprTransaction s.transaction s.config.context).toOption.bind fun decoded =>
      (withEvidence decoded s.active.policy (s.base s.row.agentperm) s.relay).toOption.map
        fun ctx => (evaluatePolicy decoded s.active.policy ctx).decision.verdict := by
  have hpolicy : verifiedPolicy s.runtime (readRow s.row) = .ok s.active.policy := by
    unfold verifiedPolicy
    rw [h.verified]
    rfl
  unfold command transactionExplain
  simp only [Option.map_some, hpolicy, ok_bind]
  cases decodeXprTransaction s.transaction s.config.context with
  | error e => rfl
  | ok decoded =>
    have hbase : context s.config s.keystore.agent (readRow s.row).agentperm
      (readRow s.row).version = s.base s.row.agentperm := rfl
    simp only [passing, Except.mapError, ok_bind, hbase, Except.toOption, Option.bind_some]
    cases withEvidence decoded s.active.policy (s.base s.row.agentperm) s.relay <;> rfl

/-- The tool's verdict: decode and evaluate under the permission of the keystore, with no evidence
at all. -/
theorem tool_eq (h : s.Deployed) : s.tool =
    (decodeXprTransaction s.transaction s.config.context).toOption.map fun decoded =>
      (evaluatePolicy decoded s.active.policy (s.base s.keystore.permission)).decision.verdict := by
  obtain ⟨hhash, parsed, hparse, hvalid, hcanonical⟩ := verifyStoredPolicy_ok.1 h.verified
  have hlower : toLowerCase (readRow s.row).policyhash = (readRow s.row).policyhash :=
    toLowerCase_toLowerCase s.row.policyhash
  rw [hlower] at hhash
  unfold tool signboxTransactionExplain
  simp only [Runtime.reading] at hhash hparse hvalid
  simp only [h.found, Option.map_some, hhash, hparse, hcanonical, hvalid, passing, Except.mapError,
    ok_bind, ne_eq, not_true_eq_false, if_false]
  cases decodeXprTransaction s.transaction s.config.context <;> rfl

/-- **Dry runs agree with enforcement** where they look at the rules as the daemon does. For a row
whose permission is that of the keystore they agree nowhere else; for another row they may agree by
chance, since the rules need not read the permission. -/
theorem dry_runs_agree (s : Scene) (h : s.Deployed) :
    (s.Consistent → s.Agree) ∧
      (s.row.agentperm = s.keystore.permission → s.Agree → s.Consistent) := by
  unfold Agree Consistent
  rw [enforced_eq h, command_eq h, tool_eq h]
  cases hdecode : decodeXprTransaction s.transaction s.config.context with
  | error e =>
    refine ⟨fun _ => ⟨rfl, rfl⟩, fun _ _ _ hd => ?_⟩
    cases hd
  | ok decoded =>
    simp only [Except.toOption, Option.map_some, Option.bind_some, Option.some.injEq]
    constructor
    · intro hcons
      obtain ⟨ctx, ctx', hctx, hctx', hcommand, htool⟩ := hcons decoded rfl
      obtain ⟨evidence, rfl⟩ := withEvidence_ok hctx
      obtain ⟨evidence', rfl⟩ := withEvidence_ok hctx'
      rw [hctx, hctx', verdictWith]
      constructor
      · exact congrArg some (verdict_congr rfl hcommand)
      · exact (@verdict_without_evidence decoded s.active.policy
          { s.base s.keystore.permission with evidence := evidence } rfl).2 htool
    · rintro hperm ⟨hcommand, htool⟩ decoded' hdecoded
      obtain rfl := Except.ok.inj hdecoded
      rw [hperm] at hcommand ⊢
      cases hctx : withEvidence decoded s.active.policy (s.base s.keystore.permission) s.relay with
      | error e =>
        rw [hctx] at hcommand
        cases hcommand
      | ok ctx =>
        refine ⟨ctx, ctx, rfl, rfl, fun _ _ => rfl, ?_⟩
        obtain ⟨evidence, rfl⟩ := withEvidence_ok hctx
        rw [hctx, verdictWith] at htool
        exact (@verdict_without_evidence decoded s.active.policy
          { s.base s.keystore.permission with evidence := evidence } rfl).1 htool

/-- Rules without providers have nothing to ask the relay. -/
theorem collectRules_plain {rules : List PolicyRule} (h : ∀ r ∈ rules, r.providers = none)
    (action : DecodedAction) (out : List ProviderQuery) :
    rules.foldlM (collectRule action ctx) out = .ok out := by
  induction rules generalizing out with
  | nil => rfl
  | cons r rules ih =>
    obtain ⟨hr, hrules⟩ := List.forall_mem_cons.1 h
    have hstep : collectRule action ctx out r = .ok out := by rw [collectRule, hr]
    rw [List.foldlM_cons, hstep, ok_bind, ih hrules]

/-- A policy without providers needs no evidence. -/
theorem withEvidence_plain (h : ∀ r ∈ policy.rules, r.providers = none) (relay : DialectRelay) :
    withEvidence tx policy ctx relay = .ok ctx := by
  have hactions : ∀ actions : List DecodedAction,
      actions.foldlM (fun out action => policy.rules.foldlM (collectRule action ctx) out) [] =
        .ok [] := by
    intro actions
    induction actions with
    | nil => rfl
    | cons a actions ih => rw [List.foldlM_cons, collectRules_plain h, ok_bind, ih]
  unfold withEvidence collectProviderQueries
  rw [hactions]
  rfl

/-- Without providers the dry runs agree under the permission of the keystore. -/
theorem consistent_of_plain (h : ∀ r ∈ s.active.policy.rules, r.providers = none)
    (hperm : s.row.agentperm = s.keystore.permission) : s.Consistent := by
  intro decoded _
  rw [hperm]
  exact ⟨_, _, withEvidence_plain h _, withEvidence_plain h _, fun _ _ => rfl,
    Or.inl fun _ _ => rfl⟩

end Scene

/-! `bot`, whose policy asks a provider, and `bot` after a `setperm`. -/

namespace Counter

/-- A text as JSON. -/
def text (s : String) : Json := .str (js s)

/-- The identifier of the main network. -/
def chainId : JsString := js "384da888112027f0321850a169f737c33e53b388aad48b5adace4bab97f437e0"

/-- The configuration both scenes share. -/
def config : SignBoxConfig := ⟨⟨js "xpr", js "testnet", chainId⟩, js "signbox"⟩

/-- A canonical document with one rule. -/
def policyDoc (rule : Json) : Json :=
  .obj .ordinary [(js "chain", .obj .ordinary [(js "chainId", .str chainId),
      (js "name", text "xpr")]),
    (js "default", text "deny"), (js "rules", .arr [rule]),
    (js "schemaVersion", .num (.finite (.ofNat 1)))]

/-- The policy with a single rule. -/
def policyOf (rule : PolicyRule) : Policy := ⟨⟨js "xpr", chainId⟩, [rule], none⟩

/-- Allow what goes to `token` while the agent is in the table of voters. -/
def votersDoc : Json :=
  policyDoc (.obj .ordinary [(js "effect", text "allow"), (js "id", text "voters"),
    (js "match", .obj .ordinary [(js "contract", text "token")]),
    (js "providers", .arr [.obj .ordinary
      [(js "args", .obj .ordinary [(js "contract", text "eosio"), (js "key", text "$agent"),
          (js "table", text "voters")]),
        (js "op", text "eq"), (js "provider", text "xpr.rpc.tableRow"),
        (js "select", text "owner"), (js "value", text "$agent")]])])

/-- The policy whose rule asks the table of voters. -/
def votersPolicy : Policy :=
  policyOf ⟨js "voters", .allow, [(js "contract", .lit (js "token"))], none,
    some [⟨js "xpr.rpc.tableRow", ⟨js "eosio", none, js "voters", js "$agent"⟩, js "owner", .eq,
      js "$agent"⟩]⟩

/-- Allow what the agent does with its own permission. -/
def ownDoc : Json :=
  policyDoc (.obj .ordinary [(js "effect", text "allow"), (js "id", text "own"),
    (js "match", .obj .ordinary [(js "authorization.permission", text "$agentPermission")])])

/-- The policy whose rule has no provider. -/
def ownPolicy : Policy :=
  policyOf ⟨js "own", .allow, [(js "authorization.permission", .lit (js "$agentPermission"))], none,
    none⟩

/-- The document of the first policy holds only finite numbers and strings. -/
theorem votersDoc_sound : votersDoc.Sound JsNumber.finite := by
  have houter : [js "chain", js "default", js "rules", js "schemaVersion"].Nodup := by decide
  have hchain : [js "chainId", js "name"].Nodup := by decide
  have hrule : [js "effect", js "id", js "match", js "providers"].Nodup := by decide
  have hmatch : [js "contract"].Nodup := by decide
  have hprovider : [js "args", js "op", js "provider", js "select", js "value"].Nodup := by decide
  have hargs : [js "contract", js "key", js "table"].Nodup := by decide
  exact ⟨houter, ⟨hchain, trivial, trivial, trivial⟩, trivial,
    ⟨⟨hrule, trivial, trivial, ⟨hmatch, trivial, trivial⟩,
      ⟨⟨hprovider, ⟨hargs, trivial, trivial, trivial, trivial⟩, trivial, trivial, trivial, trivial,
        trivial⟩, trivial⟩, trivial⟩, trivial⟩, rfl, trivial⟩

/-- So does that of the second. -/
theorem ownDoc_sound : ownDoc.Sound JsNumber.finite := by
  have houter : [js "chain", js "default", js "rules", js "schemaVersion"].Nodup := by decide
  have hchain : [js "chainId", js "name"].Nodup := by decide
  have hrule : [js "effect", js "id", js "match"].Nodup := by decide
  have hmatch : [js "authorization.permission"].Nodup := by decide
  exact ⟨houter, ⟨hchain, trivial, trivial, trivial⟩, trivial,
    ⟨⟨hrule, trivial, trivial, ⟨hmatch, trivial, trivial⟩, trivial⟩, trivial⟩, rfl, trivial⟩

/-- A transfer of `bot` with a permission. -/
def transfer (permission : JsString) : Json :=
  .obj .ordinary [(js "actions", .arr [.obj .ordinary
    [(js "account", text "token"), (js "name", text "transfer"),
      (js "authorization", .arr [.obj .ordinary [(js "actor", text "bot"),
        (js "permission", .str permission)]]),
      (js "data", .obj .ordinary [])]])]

/-- A runtime of the agent on a policy, its history still empty. -/
def runtime (policy : Policy) : AgentRuntime where
  agent := js "bot"
  permission := js "active"
  chain := config.context
  policy := policy
  policyVersion := 0
  enabled := true
  token := []
  key := ⟨js "bot", js "PUB_K1_bot", config.context, js "bot", js "active"⟩
  capabilities := none

/-- A request of the agent, made under the given permission. -/
def request (permission : JsString) : SignRequest where
  requestId := js "r"
  agent := js "bot"
  chain := js "xpr"
  network := js "testnet"
  chainId := chainId
  transaction := transfer permission
  broadcast := none
  requestedAt := 0
  expiresAt := 1
  nonce := js "n"
  token := []

/-- The keystore of `bot` names `active`; the row of the contract names `agentperm`, and the
transaction is made with it. Every table has a row that `bot` owns. The digest is that of the text of `doc`. -/
def scene (digest : String) (doc : Json) (policy : Policy) (agentperm : JsString) : Scene where
  runtime := ⟨fun _ => js digest, Json.parse .finite⟩
  config := config
  relay := fun _ _ => .ok (.obj .ordinary
    [(js "rows", .arr [.obj .ordinary [(js "owner", text "bot")]])])
  keystores := [⟨js "bot", js "active"⟩]
  keystore := ⟨js "bot", js "active"⟩
  row := ⟨js "bot", js "boss", agentperm, 1, js digest, doc.stringify, true, 0⟩
  daemon := ⟨SignBoxDaemon.DEFAULTS,
    ⟨decodeXprTransaction, xprDialect, false, true, true, true, true, true⟩⟩
  request := ⟨request agentperm, runtime policy, 0⟩
  active := ⟨policy, 1, agentperm⟩

/-- The row the rule asks for exists, and the tool does not ask. -/
def votersScene : Scene :=
  scene "6e8bd67b8aa5e9dd335b7b52362ac6b431b1f0947bcc72f4c0e9b90f3a3a1fba" votersDoc votersPolicy
    (js "active")

/-- The permission in the row was changed after the keystore was made. -/
def setpermScene : Scene :=
  scene "d189f73f98537b539f203d2fe744edc811b216b211939e5e47ae6e19dc416d2c" ownDoc ownPolicy
    (js "sign")

/-- What is asked of a deployment, for any document that validates to the policy and digests as the
row says. -/
theorem scene_deployed {digest : String} {doc : Json} {policy : Policy} {agentperm : JsString}
    (hsound : doc.Sound JsNumber.finite) (hlower : toLowerCase (js digest) = js digest)
    (hordinary : doc.ordinary = doc) (hcanonical : doc.canonical = doc)
    (hvalid : validatePolicy doc xprDialect = .ok policy) :
    (scene digest doc policy agentperm).Deployed where
  found := rfl
  enabled := rfl
  verified := by
    have hcanon : canonicalize doc = .ok doc.stringify := by
      rw [canonicalize_ok doc hsound, hcanonical]
    refine verifyStoredPolicy_ok.2 ⟨?_, doc, ?_, hvalid, hcanon⟩
    · exact ((toLowerCase_toLowerCase _).trans hlower).symm
    · exact (parse_stringify hsound).trans (congrArg some hordinary)
  version := rfl
  permission := rfl
  decode := rfl
  dialect := rfl
  relay := rfl
  agent := rfl
  keystorePermission := rfl
  chain := rfl

/-- The first scene is a deployment the daemon can really be in, -/
theorem votersScene_deployed : votersScene.Deployed :=
  scene_deployed votersDoc_sound rfl rfl rfl rfl

/-- and so is the second. -/
theorem setpermScene_deployed : setpermScene.Deployed :=
  scene_deployed ownDoc_sound rfl rfl rfl rfl

/-- The tool refuses what the daemon signs under a policy with a provider, and after a `setperm`
the command allows what the daemon refuses. -/
theorem dry_runs_differ :
    (votersScene.Deployed ∧ ¬ votersScene.Agree ∧ votersScene.enforced = some .allow ∧
      votersScene.tool = some (.deny .providerUnavailable)) ∧
    setpermScene.Deployed ∧ ¬ setpermScene.Agree ∧ setpermScene.command = some .allow ∧
      setpermScene.enforced = some (.deny .defaultDeny) := by
  have hsigned : votersScene.enforced = some .allow := by
    rw [Scene.enforced_eq votersScene_deployed]
    decide +kernel
  have htool : votersScene.tool = some (.deny .providerUnavailable) := by
    rw [Scene.tool_eq votersScene_deployed]
    decide +kernel
  have hcommand : setpermScene.command = some .allow := by
    rw [Scene.command_eq setpermScene_deployed]
    decide +kernel
  have hrefused : setpermScene.enforced = some (.deny .defaultDeny) := by
    rw [Scene.enforced_eq setpermScene_deployed]
    decide +kernel
  refine ⟨⟨votersScene_deployed, ?_, hsigned, htool⟩, setpermScene_deployed, ?_, hcommand, hrefused⟩
  · rintro ⟨-, h⟩
    rw [htool, hsigned] at h
    exact nomatch h
  · rintro ⟨h, -⟩
    rw [hcommand, hrefused] at h
    exact nomatch h

/-- Before the `setperm` the three agree. -/
def activeScene : Scene :=
  scene "d189f73f98537b539f203d2fe744edc811b216b211939e5e47ae6e19dc416d2c" ownDoc ownPolicy
    (js "active")

/-- The condition is met in a scene where everything agrees, which is what the law needs to say
something. -/
theorem dry_runs_agree_active : activeScene.Agree := by
  have hdeployed : activeScene.Deployed := scene_deployed ownDoc_sound rfl rfl rfl rfl
  have hplain : ∀ r ∈ activeScene.active.policy.rules, r.providers = none := by
    intro r hr
    obtain rfl := List.mem_singleton.1 hr
    rfl
  exact (Scene.dry_runs_agree activeScene hdeployed).1 (Scene.consistent_of_plain hplain rfl)

end Counter

end Explain

end Signbox
