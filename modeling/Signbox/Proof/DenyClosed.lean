import Signbox.Proof.Decoded
import Signbox.Proof.Evaluate

/-!
# Deny rules and values that cannot be compared

A deny rule fails closed when reaching a present value that its operator cannot compare
refuses the transaction. The ordered operators `lte` and `gte` do so: they throw
(`predicateHolds_ordered`). The text operators answer "does not hold" instead
(`predicateHolds_text`), so the rule is skipped. `deny_failsClosed_iff` says that this is
the whole difference: for every decoded action and every value in it, the rule fails
closed exactly when its operator is ordered.
-/

namespace Signbox

open Guard

variable {ctx : EvaluationContext} {policy : Policy} {tx : DecodedTransaction}
  {action : DecodedAction} {rule : PolicyRule} {op : MatchValue} {v : JsValue}

/-- `lte` and `gte`. -/
def MatchValue.isOrdered : MatchValue → Bool
  | .lte _ | .gte _ => true
  | _ => false

/-- A value that is present but not one its operator compares: anything but a string under
a text operator, anything but an amount or a safe integer under an ordered one. -/
def Incomparable (op : MatchValue) (v : JsValue) : Prop :=
  v.isNullish = false ∧
    if op.isOrdered then match v with
      | .json (.str s) => ∀ a, parseBareAmount s ≠ .ok a
      | .json (.num n) => n.safeInt? = none
      | _ => True
    else v.str? = none

/-- Evaluating `rule` against `action` gets as far as `field`: the entries before it all hold. -/
def Reaches (ctx : EvaluationContext) (action : DecodedAction) (rule : PolicyRule)
    (field : JsString × MatchValue) : Prop :=
  FirstAt (fun f => fieldHolds action ctx f = .ok true) (· = field) rule.matchOn field

/-- **Deny rules fail closed** on a field of an action: whatever decoded transaction holds
the action and whatever valid policy has a deny rule that reaches the field there, the
transaction is refused. -/
def FailsClosed (action : DecodedAction) (field : JsString × MatchValue) : Prop :=
  ∀ (input doc : Json) (context : ChainContext) (tx : DecodedTransaction) (policy : Policy)
    (ctx : EvaluationContext) (rule : PolicyRule),
    decodeXprTransaction input context = .ok tx → action ∈ tx.actions →
    validatePolicy doc xprDialect = .ok policy → ctx.dialect = xprDialect →
    rule ∈ policy.rules → rule.effect = .deny → Reaches ctx action rule field →
    (evaluatePolicy tx policy ctx).decision.isAllow = false

/-! ## The two kinds of operators -/

theorem compareOrdered_incomparable {bound : JsString} (hord : op.isOrdered = true)
    (h : Incomparable op v) : ∃ e, compareOrdered v bound = .error e := by
  obtain ⟨-, h⟩ := h
  rw [if_pos hord] at h
  cases v with
  | json w =>
    cases w with
    | str s =>
      cases hp : parseBareAmount s with
      | ok a => exact absurd hp (h a)
      | error e => exact ⟨e, by simp [compareOrdered, hp]⟩
    | num n =>
      have hn : n.safeInt? = none := h
      refine ⟨.ambiguous (js "value is not comparable"), ?_⟩
      simp only [compareOrdered, hn]
    | _ => exact ⟨_, rfl⟩
  | _ => exact ⟨_, rfl⟩

/-- An ordered operator throws on a value it cannot compare. -/
theorem predicateHolds_ordered (hord : op.isOrdered = true) (h : Incomparable op v) :
    ∃ e, predicateHolds v op ctx = .error e := by
  have hpresent : v.isNullish = false := h.1
  cases op with
  | lte bound =>
    obtain ⟨e, he⟩ : ∃ e, compareOrdered v bound = .error e :=
      compareOrdered_incomparable hord h
    exact ⟨e, by simp [predicateHolds, hpresent, he]⟩
  | gte bound =>
    obtain ⟨e, he⟩ : ∃ e, compareOrdered v bound = .error e :=
      compareOrdered_incomparable hord h
    exact ⟨e, by simp [predicateHolds, hpresent, he]⟩
  | _ => simp [MatchValue.isOrdered] at hord

/-- A text operator answers "does not hold" on a value that is not a string. -/
theorem predicateHolds_text (hord : op.isOrdered = false) (h : v.str? = none) :
    predicateHolds v op ctx = .ok false := by
  cases op with
  | lte bound => simp [MatchValue.isOrdered] at hord
  | gte bound => simp [MatchValue.isOrdered] at hord
  | _ => simp [predicateHolds, equalsText, h]

/-! ## The ordered operators fail closed -/

theorem ruleMatches_of_reaches {field : JsString × MatchValue} {e : JsError}
    (h : Reaches ctx action rule field) (he : fieldHolds action ctx field = .error e) :
    ∀ b, ruleMatches action rule ctx ≠ .ok b := by
  obtain ⟨pre, post, hmatch, hpre, -⟩ := h
  have hstatic : staticMatch action rule ctx = .error e := by
    unfold staticMatch
    rw [hmatch, allM_append, allM_ok_true.2 hpre, ok_bind, if_pos rfl, allM_cons, he, error_bind]
  intro b hb
  unfold ruleMatches at hb
  rw [hstatic, error_bind] at hb
  simp at hb

/-- A deny rule that throws refuses the transaction. -/
theorem refused_of_deny_error (ha : action ∈ tx.actions) (hr : rule ∈ policy.rules)
    (hdeny : rule.effect = .deny) (herr : ∀ b, ruleMatches action rule ctx ≠ .ok b) :
    (evaluatePolicy tx policy ctx).decision.isAllow = false := by
  rcases evaluatePolicy_cases tx policy ctx with ⟨r, hr', -⟩ | ⟨code, reason, hres⟩
  · unfold evaluateActions at hr'
    simp only [bind_ok, failIf_ok, throwing_ok] at hr'
    obtain ⟨-, -, -, -, -, -, denied, hden, -, hnot, -⟩ := hr'
    rw [Bool.not_eq_true] at hnot
    subst hnot
    exact absurd (ruleMatches_false.2 (explicitlyDenied_false.1 hden action ha rule hr hdeny))
      (herr false)
  · rw [hres]; rfl

/-! ## The text operators do not -/

namespace DenyOne

/-- A deny rule on the given fields. -/
def denyDoc (fields : Json) : Json := .obj .ordinary
  [(js "id", Sample.text "deny"), (js "effect", Sample.text "deny"), (js "match", fields)]

def denyRule (fields : List (JsString × MatchValue)) : PolicyRule :=
  ⟨js "deny", .deny, fields, none, none⟩

/-- An allow rule for any contract: names have no capitals, so none is called `NONE`. -/
def allowDoc : Json := .obj .ordinary
  [(js "id", Sample.text "any"), (js "effect", Sample.text "allow"),
    (js "match", .obj .ordinary
      [(js "contract", .obj .ordinary [(js "notIn", .arr [Sample.text "NONE"])])])]

def allowRule : PolicyRule :=
  ⟨js "any", .allow, [(js "contract", .notIn [js "NONE"])], none, none⟩

/-- A policy with only these two rules. -/
def doc (fields : Json) : Json := Sample.policyDoc [denyDoc fields, allowDoc]

def policyOf (fields : List (JsString × MatchValue)) : Policy :=
  Sample.policyOf [denyRule fields, allowRule]

theorem validate {fields : Json} {fs : List (JsString × MatchValue)}
    (h : Schema.matchFields xprDialect fields = some fs) :
    validatePolicy (doc fields) xprDialect = .ok (policyOf fs) := by
  have hdeny : Schema.rule xprDialect (denyDoc fields) = some (denyRule fs) := by
    have hread : Schema.rule xprDialect (denyDoc fields) =
        (Schema.matchFields xprDialect fields).bind fun fs => some (denyRule fs) := rfl
    rw [hread, h, Option.bind_some]
  have hallow : Schema.rule xprDialect allowDoc = some allowRule := by decide
  have hrules : Schema.array 0 256 (Schema.rule xprDialect) (.arr [denyDoc fields, allowDoc]) =
      some [denyRule fs, allowRule] := by
    simp [Schema.array, hdeny, hallow]
  unfold validatePolicy doc
  rw [Sample.schema_policyDoc, hrules]
  rfl

theorem allowRule_matches (hname : NAME_PATTERN action.contract = true)
    (hd : ctx.dialect = xprDialect) : Matches ctx action allowRule := by
  have hne : action.contract ≠ js "NONE" := by
    intro h
    rw [h] at hname
    exact absurd hname (by decide)
  have hpath : xprDialect.resolvePath action (js "contract") = .ok (.json (.str action.contract)) :=
    rfl
  have hsub : substitute (js "NONE") ctx = .ok (js "NONE") := by
    have hv : (VARIABLES.any fun w => (js "NONE").includes w) = false := by decide
    have ha : js "NONE" ≠ js "$agent" := by decide
    have hp : js "NONE" ≠ js "$agentPermission" := by decide
    simp only [substitute, if_neg ha, if_neg hp, hv, Bool.false_eq_true, if_false]
  intro c hc
  simp only [conditions, allowRule, List.map_cons, List.map_nil, Option.getD_none, List.append_nil,
    List.mem_singleton] at hc
  subst hc
  have hfield : ctx.dialect.resolvePath action (js "contract") =
      .ok (.json (.str action.contract)) := by rw [hd]; exact hpath
  have hbeq : (action.contract == js "NONE") = false := beq_eq_false_iff_ne.2 hne
  simp [fieldHolds, hfield, predicateHolds, JsValue.str?, hsub, hbeq]

/-- The deny rule is skipped over a value its text operator cannot compare, and the allow
rule then governs. -/
theorem allowed {path : JsString} {context : ChainContext} {source : Option Json}
    (hord : op.isOrdered = false) (hstr : v.str? = none)
    (hv : xprDialect.resolvePath action path = .ok v) (hname : NAME_PATTERN action.contract = true)
    (hauth : action.authorization.length = 1) (hchain : context.chainId = Sample.chainId) :
    Allowed (Sample.context none) (policyOf [(path, op)]) ⟨context, [action], source⟩
      [allowRule] := by
  have hfield : fieldHolds action (Sample.context none) (path, op) = .ok false := by
    have hread : (Sample.context none).dialect.resolvePath action path = .ok v := hv
    rw [fieldHolds, hread, ok_bind]
    exact predicateHolds_text hord hstr
  have hskip : NoMatch (Sample.context none) action (denyRule [(path, op)]) :=
    ⟨_, firstAt_cons.2 (Or.inl ⟨rfl, hfield⟩)⟩
  have hallow : Matches (Sample.context none) action allowRule := allowRule_matches hname rfl
  have hnocap : ∀ r ∈ (policyOf [(path, op)]).rules, capOf (Sample.context none) r = none := by
    intro r hr
    rcases List.mem_cons.1 hr with rfl | hr
    · rfl
    · rw [List.mem_singleton.1 hr]; rfl
  refine ⟨⟨rfl, hchain⟩, by simp, by simpa using hauth, ?_, Nat.le_refl 1, ?_, ?_, ?_⟩
  · intro a ha r hr hdeny
    rw [List.mem_singleton.1 ha]
    rcases List.mem_cons.1 hr with rfl | hr
    · exact hskip
    · rw [List.mem_singleton.1 hr] at hdeny
      simp [allowRule] at hdeny
  · refine .cons ?_ .nil
    exact firstAt_cons.2 (Or.inr ⟨by simp [denyRule], firstAt_cons.2 (Or.inl ⟨rfl, rfl, hallow⟩)⟩)
  · exact .cons (by intro l hl; simp [allowRule] at hl) .nil
  · intro r hr cap hcap
    rw [hnocap r hr] at hcap
    cases hcap

end DenyOne

/-! ## The exact condition -/

/-- **Deny rules fail closed exactly under the ordered operators.** For every action of a decoded
transaction and every present value in it that the operator cannot compare: each transaction with
the action is refused by each valid policy that has a deny rule reaching the field, exactly when
the operator is `lte` or `gte`. Under the others the comparison is false, and the rule does not
fire. -/
theorem deny_failsClosed_iff {input json : Json} {context : ChainContext} {path : JsString}
    (hdec : decodeXprTransaction input context = .ok tx) (ha : action ∈ tx.actions)
    (hpath : MATCH_PATH_PATTERN path = true) (hop : Schema.matchValue json = some op)
    (hv : xprDialect.resolvePath action path = .ok v) (hinc : Incomparable op v) :
    FailsClosed action (path, op) ↔ op.isOrdered = true := by
  constructor
  · intro h
    by_contra hord
    rw [Bool.not_eq_true] at hord
    have hstr : v.str? = none := by
      have hcmp := hinc.2
      rwa [hord] at hcmp
    obtain ⟨hname, hauth⟩ := decoded_action hdec ha
    obtain ⟨input', source, hsingle⟩ := decode_single hdec ha ⟨js "xpr", js "test", Sample.chainId⟩
    have hfields : Schema.matchFields xprDialect (.obj .ordinary [(path, json)]) =
        some [(path, op)] := by
      have hpat : xprDialect.matchPathPattern path = true := hpath
      simp [Schema.matchFields, hpat, hop, guard]
    have hval := DenyOne.validate hfields
    have hallowed : Allowed (Sample.context none) (DenyOne.policyOf [(path, op)])
        ⟨⟨js "xpr", js "test", Sample.chainId⟩, [action], source⟩ [DenyOne.allowRule] :=
      DenyOne.allowed hord hstr hv hname hauth rfl
    have hdenied := h input' _ _ _ _ (Sample.context none) (DenyOne.denyRule [(path, op)]) hsingle
      (by simp) hval rfl (by simp [DenyOne.policyOf, Sample.policyOf]) rfl
      (firstAt_cons.2 (Or.inl ⟨rfl, rfl⟩))
    rw [evaluatePolicy_allowed (validatePolicy_valid hval) hallowed] at hdenied
    simp [allowance, Decision.isAllow] at hdenied
  · intro hord input' doc context' tx' policy' ctx' rule' _ ha' _ hdia hr hdeny hreach
    obtain ⟨e, he⟩ : ∃ e, predicateHolds v op ctx' = .error e :=
      predicateHolds_ordered hord hinc
    have hfield : fieldHolds action ctx' (path, op) = .error e := by
      have hread : ctx'.dialect.resolvePath action path = .ok v := by rw [hdia]; exact hv
      rw [fieldHolds, hread, ok_bind]
      exact he
    exact refused_of_deny_error ha' hr hdeny (ruleMatches_of_reaches hreach hfield)

namespace Memo

/-- A transfer as the agent writes it, with a memo. -/
def input (memo : Json) : Json := .obj .ordinary [(js "actions", .arr [.obj .ordinary
  [(js "account", Sample.text "eosio.token"), (js "name", Sample.text "transfer"),
    (js "authorization", .arr [.obj .ordinary
      [(js "actor", Sample.text "bot"), (js "permission", Sample.text "active")]]),
    (js "data", .obj .ordinary [(js "memo", memo)])]])]

def context : ChainContext := ⟨js "xpr", js "testnet", Sample.chainId⟩

def actionOf (memo : Json) : DecodedAction :=
  ⟨js "eosio.token", js "transfer", [⟨js "bot", js "active"⟩], [(js "memo", memo)]⟩

def transaction (memo normalized : Json) : DecodedTransaction :=
  ⟨context, [actionOf normalized], some (input memo)⟩

/-- The normal form of the memo `1.0000 XPR`. -/
def amount : Json := .obj .ordinary [(js "amount", Sample.text "1.0000"),
  (js "symbol", Sample.text "XPR"), (js "precision", Sample.number 4)]

theorem decode {memo normalized : Json}
    (hlen : (input memo).stringify.length ≤ MAX_INPUT_BYTES)
    (hnorm : normalizeMembers 0 [(js "memo", memo)] = .ok [(js "memo", normalized)]) :
    decodeXprTransaction (input memo) context = .ok (transaction memo normalized) := by
  have hread : XprSchema.transaction (input memo) = some [⟨js "eosio.token", js "transfer",
    [⟨js "bot", js "active"⟩], [(js "memo", memo)]⟩] := rfl
  refine decode_of_transaction hlen hread ?_
  unfold normalizeAction
  rw [hnorm]
  rfl

/-- The deny rule on a memo, and the document it is read from. -/
def fields (s : String) : List (JsString × MatchValue) := [(js "data.memo", .lit (js s))]

def doc (s : String) : Json := DenyOne.doc (.obj .ordinary [(js "data.memo", Sample.text s)])

theorem reaches (memo : Json) (s : String) : Reaches (Sample.context none) (actionOf memo)
    (DenyOne.denyRule (fields s)) (js "data.memo", .lit (js s)) :=
  firstAt_cons.2 (Or.inl ⟨rfl, rfl⟩)

/-- A rule that denies the memo `5` is skipped over the number 5, and a rule that denies
the memo `1.0000 XPR` over that very text. -/
theorem deny_skipped :
    (decodeXprTransaction (input (Sample.number 5)) context =
        .ok (transaction (Sample.number 5) (Sample.number 5)) ∧
      validatePolicy (doc "5") xprDialect = .ok (DenyOne.policyOf (fields "5")) ∧
      Reaches (Sample.context none) (actionOf (Sample.number 5)) (DenyOne.denyRule (fields "5"))
        (js "data.memo", .lit (js "5")) ∧
      Incomparable (.lit (js "5")) (.json (Sample.number 5)) ∧
      (evaluatePolicy (transaction (Sample.number 5) (Sample.number 5))
        (DenyOne.policyOf (fields "5")) (Sample.context none)).decision.isAllow = true) ∧
    decodeXprTransaction (input (Sample.text "1.0000 XPR")) context =
        .ok (transaction (Sample.text "1.0000 XPR") amount) ∧
      validatePolicy (doc "1.0000 XPR") xprDialect =
        .ok (DenyOne.policyOf (fields "1.0000 XPR")) ∧
      Reaches (Sample.context none) (actionOf amount) (DenyOne.denyRule (fields "1.0000 XPR"))
        (js "data.memo", .lit (js "1.0000 XPR")) ∧
      Incomparable (.lit (js "1.0000 XPR")) (.json amount) ∧
      (evaluatePolicy (transaction (Sample.text "1.0000 XPR") amount)
        (DenyOne.policyOf (fields "1.0000 XPR")) (Sample.context none)).decision.isAllow = true :=
  ⟨⟨decode (by decide +kernel) rfl, DenyOne.validate (by decide), reaches _ _, ⟨rfl, rfl⟩, by decide⟩,
    decode (by decide +kernel) rfl, DenyOne.validate (by decide), reaches _ _, ⟨rfl, rfl⟩, by decide⟩

/-- For the number 5, the exact condition says that `eq` does not fail closed. -/
theorem eq_not_failsClosed :
    ¬ FailsClosed (actionOf (Sample.number 5)) (js "data.memo", .eq (js "5")) := by
  have hop : Schema.matchValue (.obj .ordinary [(js "eq", Sample.text "5")]) =
      some (.eq (js "5")) := by decide
  have hv : xprDialect.resolvePath (actionOf (Sample.number 5)) (js "data.memo") =
      .ok (.json (Sample.number 5)) := rfl
  have hdec : decodeXprTransaction (input (Sample.number 5)) context =
      .ok (transaction (Sample.number 5) (Sample.number 5)) := decode (by decide +kernel) rfl
  rw [deny_failsClosed_iff hdec (by simp [transaction]) (by decide) hop hv ⟨rfl, rfl⟩]
  decide

end Memo

end Signbox
