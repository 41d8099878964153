import Signbox.Proof.Conditions
import Signbox.Proof.Evaluate
import Signbox.Proof.Loadable
import Signbox.Proof.SignedSource

/-!
# The compiled policy against the simulator

A user tries a graph in the simulator and has the compiled policy enforced by the daemon. Where
every decision has a declarative form, the two say the same of a decision and of its rule: a rule
that matches is a decision that fires, and a rule that does not match is one that does not.

* `Setting.fires`, `Setting.idle`: the two halves, for one rule.
* `actions_alike`: the two readings of one raw transaction.
* `enforced_simulated`: what the daemon allows under the compiled policy, the simulator allows, up
  to the limits that it counts itself.
-/

namespace Signbox

open Guard Eval Schema

section
variable {nodes : List GraphNode} {wires : List Wire} {d l n : GraphNode}

/-! ## A decision without a warning -/

/-- The warning a compiled clause leaves behind, whether or not a predicate came out with it. -/
def Clause.warning : Clause → Option JsString
  | .warned w | .dropped w => some w
  | _ => none

/-- A draft collects the warnings of its clauses in their order and loses none. -/
theorem foldl_add_warnings (cs : List Clause) (draft : Draft) : (cs.foldl Draft.add draft).warnings =
    draft.warnings ++ cs.filterMap Clause.warning := by
  induction cs generalizing draft with
  | nil => simp
  | cons c cs ih =>
    rw [List.foldl_cons, ih, List.filterMap_cons]
    cases c <;> simp [Draft.add, Clause.warning]

/-- A decision that compiles without a warning: each node has its say, and there is a match. So the
rule says what the graph says. -/
structure Unwarned (nodes : List GraphNode) (wires : List Wire) (d : GraphNode) : Prop where
  clauses : ∀ n ∈ coneOf nodes wires d.id, (compileNode nodes wires n).warning = none
  matched : (draftOf nodes wires d).matchOn ≠ []
  ruled : (compileDecision nodes wires d).1 = some (compileRule nodes wires d).1

/-- A decision compiled without a warning has a warning at none of its nodes, and a match to be a
rule with. -/
theorem unwarned (h : (compileDecision nodes wires d).2 = []) : Unwarned nodes wires d := by
  have hwarnings : (draftOf nodes wires d).warnings = [] := by
    unfold compileDecision at h
    simp only at h
    split_ifs at h
    · exact h
    · exact (List.append_eq_nil_iff.1 h).1
    · exact h
  have hclauses : ∀ n ∈ coneOf nodes wires d.id, (compileNode nodes wires n).warning = none := by
    rw [draftOf_clauses, foldl_add_warnings, List.nil_append, List.filterMap_map,
      List.filterMap_eq_nil_iff] at hwarnings
    exact hwarnings
  have hdrop : (draftOf nodes wires d).drop = false := by
    rw [Bool.eq_false_iff]
    intro hdrop
    rcases (foldl_drop _ _).1 hdrop with hfalse | ⟨n, hn, hrejects⟩
    · cases hfalse
    · obtain ⟨w, hw⟩ := compileNode_dropped.2 hrejects
      have hnone := hclauses n hn
      rw [hw] at hnone
      cases hnone
  have hkept : compileDecision nodes wires d =
      if (draftOf nodes wires d).matchOn.length = 0 then
        (none, (draftOf nodes wires d).warnings ++ [emptyMatch (compileRule nodes wires d).1])
      else (some (compileRule nodes wires d).1, (draftOf nodes wires d).warnings) := by
    have hne : ¬ (draftOf nodes wires d).drop = true := by rw [hdrop]; simp
    exact if_neg hne
  rw [hkept] at h
  split_ifs at h with hlen
  · exact absurd (List.append_eq_nil_iff.1 h).2 (by simp)
  · refine ⟨hclauses, fun hnil => hlen (by rw [hnil, List.length_nil]), ?_⟩
    rw [hkept, if_neg hlen]

/-- No node above an unwarned decision has a form the engine would refuse. -/
theorem Unwarned.kept (h : Unwarned nodes wires d) :
    ∀ n ∈ coneOf nodes wires d.id, ¬ Rejects nodes wires n := by
  intro n hn hrejects
  obtain ⟨w, hw⟩ := compileNode_dropped.2 hrejects
  have hnone := h.clauses n hn
  rw [hw] at hnone
  cases hnone

/-- A compared field sets its path. -/
theorem setPath_leaf {gf : GraphNode} (htype : l.type = .compare ∨ l.type = .inlist)
    (hgf : fieldSource nodes wires l = some gf) (h : (compileNode nodes wires l).warning = none) :
    setPath nodes wires l = some (gf.fields.text (js "path")) := by
  unfold compileNode at h
  unfold setPath
  rcases htype with htype | htype
  · simp only [htype, compileCompare, hgf] at h ⊢
    cases hpath : MATCH_PATH_PATTERN (gf.fields.text (js "path")) with
    | false =>
      rw [hpath, if_pos (by simp)] at h
      cases h
    | true =>
      rw [hpath, if_neg (by simp)] at h
      split_ifs at h with heq hlte hgte
      · simp [boundedOps, heq, hpath]
      · simp [boundedOps, hlte, hpath]
      · simp [boundedOps, hgte, hpath]
      · cases h
  · simp only [htype, compileInList, hgf] at h ⊢
    cases hpath : MATCH_PATH_PATTERN (gf.fields.text (js "path")) with
    | false =>
      rw [hpath, if_pos (by simp)] at h
      cases h
    | true => simp [hpath]

/-- A searched row is one that the daemon can read. -/
theorem row_leaf {gf lk : GraphNode} (htype : l.type = .contains)
    (hgf : fieldSource nodes wires l = some gf) (hlk : lookupSource nodes wires gf = some lk)
    (h : (compileNode nodes wires l).warning = none) :
    lk.fields.isText (js "mode") (js "http") = false ∧
      SELECT_FIELD_PATTERN (gf.fields.text (js "path")) = true := by
  unfold compileNode at h
  simp only [htype, compileContains, hgf, hlk] at h
  split_ifs at h with hhttp hselect
  · cases h
  · exact ⟨by simpa using hhttp, hselect⟩
  · cases h

/-! ## The rule of a decision -/

/-- The rule that the daemon reads for a decision. -/
def RuleOf (nodes : List GraphNode) (wires : List Wire) (d : GraphNode) (r : PolicyRule) : Prop :=
  Schema.rule xprDialect (compileRule nodes wires d).1.toJson = some r

variable {r : PolicyRule}

/-- The text of an effect is neither the text of an absent field nor that of a boolean. -/
theorem effectText_ne (e : Effect) : js "undefined" ≠ effectText e ∧
    ∀ b, (FieldValue.bool b).toText ≠ effectText e := by
  cases e <;> exact ⟨by decide, by decide⟩

/-- The rule's effect is the one its decision node shows. -/
theorem RuleOf.effect (h : RuleOf nodes wires d r) :
    d.fields.isText (js "effect") (effectText r.effect) = true := by
  obtain ⟨-, heffect, -⟩ := rule_toJson.1 h
  have htext : d.fields.text (js "effect") = effectText r.effect := Json.str.inj (effect_eq heffect)
  unfold Fields.text at htext
  cases hlook : d.fields.lookup (js "effect") with
  | none =>
    rw [hlook] at htext
    exact absurd htext (effectText_ne r.effect).1
  | some v =>
    rw [hlook] at htext
    cases v with
    | str t =>
      rw [Fields.isText, hlook]
      exact decide_eq_true (by rw [← htext]; rfl)
    | bool b => exact absurd htext ((effectText_ne r.effect).2 b)

/-- An entry of `match` is read as a field of the rule, and every field is one. -/
theorem RuleOf.entries (h : RuleOf nodes wires d r) :
    List.Forall₂ (FieldRead xprDialect) (draftOf nodes wires d).matchOn r.matchOn := by
  obtain ⟨-, -, hmatch, -⟩ := rule_toJson.1 h
  obtain ⟨p, ms, heq, -, hall⟩ := matchFields_iff.1 hmatch
  rw [Json.obj.injEq] at heq
  rw [show (draftOf nodes wires d).matchOn = ms from heq.2]
  exact hall

/-- The providers of the rule are those of its draft, translated one by one. -/
theorem RuleOf.providers (h : RuleOf nodes wires d r) :
    List.Forall₂ (fun p req => Schema.provider xprDialect p = some req)
      (draftOf nodes wires d).providers (r.providers.getD []) := by
  obtain ⟨-, -, -, -, hproviders⟩ := rule_toJson.1 h
  have hdoc : (compileRule nodes wires d).1.providers =
      if (draftOf nodes wires d).providers.length > 0 then some (draftOf nodes wires d).providers
      else none := rfl
  rw [hdoc] at hproviders
  generalize r.providers = o at hproviders ⊢
  split_ifs at hproviders with hlen
  · cases hproviders with
    | some h =>
      obtain ⟨us, heq, -, hall⟩ := array_iff.1 h
      rw [Json.arr.inj heq]
      exact hall
  · have hnil : (draftOf nodes wires d).providers = [] := List.length_eq_zero_iff.1 (by omega)
    cases hproviders
    rw [hnil]
    exact .nil

/-- The node that last wrote a path stands above the decision and does write it. -/
theorem lastSetter_some {path : JsString} (h : lastSetter nodes wires d path = some n) :
    n ∈ coneOf nodes wires d.id ∧ setPath nodes wires n = some path := by
  have hpath := List.find?_some h
  exact ⟨List.mem_reverse.1 (List.mem_of_find?_eq_some h), of_decide_eq_true hpath⟩

/-- What a field of the rule is compiled from: a comparison, or the Route If. -/
theorem entry_source {path : JsString} {v : Json} (h : (path, v) ∈ (draftOf nodes wires d).matchOn) :
    (∃ n ∈ coneOf nodes wires d.id, setPath nodes wires n = some path ∧ operand n = v) ∨
      ∃ s, routeOf nodes wires d.id = some s ∧ path ∈ [js "contract", js "action"] ∧
        ∃ u, s.fields.truthy path = some u ∧ u.toJson = v := by
  have hlook := (lookup_iff_mem draftOf_nodup).2 h
  rw [draftOf_lookup] at hlook
  cases hlast : lastSetter nodes wires d path with
  | some n =>
    rw [hlast, Option.map_some, Option.some_or, Option.some.injEq] at hlook
    obtain ⟨hn, hpath⟩ := lastSetter_some hlast
    exact Or.inl ⟨n, hn, hpath, hlook⟩
  | none =>
    rw [hlast, Option.map_none, Option.none_or] at hlook
    exact Or.inr (lookup_routeMatch.1 hlook)

/-- A comparison that is alone on its path has its entry. -/
theorem entry_of_leaf (hplain : PlainDecision nodes wires d) {path : JsString}
    (hn : n ∈ coneOf nodes wires d.id) (hpath : setPath nodes wires n = some path) :
    (path, operand n) ∈ (draftOf nodes wires d).matchOn := by
  rw [← lookup_iff_mem draftOf_nodup, draftOf_lookup]
  cases hlast : lastSetter nodes wires d path with
  | none =>
    rw [lastSetter, List.find?_eq_none] at hlast
    exact absurd (decide_eq_true hpath) (hlast n (List.mem_reverse.2 hn))
  | some m =>
    obtain ⟨hm, hmpath⟩ := lastSetter_some hlast
    rw [hplain.alone m hm n hn path hmpath hpath, Option.map_some, Option.some_or]

/-- What the Route If names has its entry. -/
theorem entry_of_route (hplain : PlainDecision nodes wires d) {s : GraphNode} {key : JsString}
    {u : FieldValue} (hroute : routeOf nodes wires d.id = some s)
    (hkey : key ∈ [js "contract", js "action"]) (hu : s.fields.truthy key = some u) :
    (key, u.toJson) ∈ (draftOf nodes wires d).matchOn := by
  rw [← lookup_iff_mem draftOf_nodup, draftOf_lookup]
  have hkeys : key ∈ routeKeys (routeOf nodes wires d.id) := by
    rw [hroute]
    exact List.mem_filter.2 ⟨hkey, by rw [hu]; rfl⟩
  cases hlast : lastSetter nodes wires d key with
  | none =>
    rw [Option.map_none, Option.none_or]
    exact lookup_routeMatch.2 ⟨s, hroute, hkey, u, hu, rfl⟩
  | some m =>
    obtain ⟨hm, hmpath⟩ := lastSetter_some hlast
    exact absurd hkeys (hplain.unrouted m hm key hmpath)

end

/-! ## The cone of a decision -/

section
variable {s : GraphState} {d l m c r : GraphNode}

/-- A leaf of a condition is reached from the condition along the wires. -/
theorem LeafOf.reads {nodes : List GraphNode} {wires : List Wire} (h : LeafOf nodes wires c l) :
    Relation.ReflTransGen (Wires nodes wires) c l := by
  induction h with
  | self _ => exact .refl
  | @and n m l htype hm _ ih =>
    refine .head ?_ ih
    rw [Wires, inputs, htype]
    exact List.mem_map_of_mem hm

/-- What is wired into a decision. -/
theorem wires_decision {nodes : List GraphNode} {wires : List Wire} (htype : d.type = .decision) :
    Wires nodes wires d m ↔ one nodes wires d.id (js "tx") = some m ∨
      one nodes wires d.id (js "cond") = some m := by
  rw [Wires, inputs, htype, List.mem_cons]
  refine or_congr eq_comm ?_
  cases hin : inboundNodes nodes wires d.id (js "cond") with
  | nil => simp [one, hin]
  | cons x xs => simp [one, hin, eq_comm]

/-- The parts of a decision with a declarative form: where it is routed from, and what its
condition is built of. -/
structure Parts (s : GraphState) (d r : GraphNode) : Prop where
  wellFormed : s.WellFormed
  mem : d ∈ s.nodes
  type : d.type = .decision
  source : one s.nodes s.wires d.id (js "tx") = some r
  plain : PlainSource s.nodes s.wires r
  cond : ∀ c, one s.nodes s.wires d.id (js "cond") = some c → Condition s.nodes s.wires r c

/-- The source of a decision stands above it. -/
theorem Parts.source_mem (h : Parts s d r) : r ∈ coneOf s.nodes s.wires d.id :=
  (mem_cone_iff h.wellFormed h.mem).2 ⟨(mem_inboundNodes (one_mem h.source)).1,
    .single ((wires_decision h.type).2 (Or.inl h.source))⟩

/-- So does every leaf of its condition. -/
theorem Parts.leaf_mem (h : Parts s d r) (hc : one s.nodes s.wires d.id (js "cond") = some c)
    (hl : LeafOf s.nodes s.wires c l) : l ∈ coneOf s.nodes s.wires d.id := by
  have hmem : ∀ {n l}, LeafOf s.nodes s.wires n l → n ∈ s.nodes → l ∈ s.nodes := by
    intro n l hl hn
    induction hl with
    | self _ => exact hn
    | and _ hm _ ih => exact ih (mem_inboundNodes hm).1
  exact (mem_cone_iff h.wellFormed h.mem).2 ⟨hmem hl (mem_inboundNodes (one_mem hc)).1,
    .head ((wires_decision h.type).2 (Or.inr hc)) hl.reads⟩

/-- **The cone of a decision**: its comparisons, what it is on, and nodes that say nothing. So the
compiler's draft holds the route and the comparisons, and nothing that the simulator does not
evaluate. -/
theorem Parts.cone (h : Parts s d r) (hm : m ∈ coneOf s.nodes s.wires d.id) :
    (∃ c, one s.nodes s.wires d.id (js "cond") = some c ∧ LeafOf s.nodes s.wires c m) ∨ m = r ∨
      m.type = .decision ∨ Silent m := by
  obtain ⟨-, hreads⟩ := (mem_cone_iff h.wellFormed h.mem).1 hm
  rcases hreads.cases_head with rfl | ⟨x, hx, hpath⟩
  · exact Or.inr (Or.inr (Or.inl h.type))
  · rcases (wires_decision h.type).1 hx with hsource | hcond
    · rw [h.source, Option.some.injEq] at hsource
      rw [← hsource] at hpath
      rcases h.plain.reads hpath with heq | htype
      · exact Or.inr (Or.inl heq)
      · exact Or.inr (Or.inr (Or.inr (Or.inr (Or.inr (Or.inr htype)))))
    · rcases (h.cond x hcond).reads h.plain hpath with hleaf | heq | hsilent
      · exact Or.inl ⟨x, hcond, hleaf⟩
      · exact Or.inr (Or.inl heq)
      · exact Or.inr (Or.inr (Or.inr hsilent))

/-- A plain source is the transaction itself or one routed contract and action. -/
theorem PlainSource.type {nodes : List GraphNode} {wires : List Wire}
    (h : PlainSource nodes wires r) : r.type = .transaction ∨ r.type = .routeif :=
  h.imp_right PlainRoute.type

/-- A node that compiles to something, or searches a row, is a comparison of the condition. -/
theorem Parts.leaf_of_type (h : Parts s d r) (hm : m ∈ coneOf s.nodes s.wires d.id)
    (htype : m.type = .compare ∨ m.type = .inlist ∨ m.type = .contains) :
    ∃ c, one s.nodes s.wires d.id (js "cond") = some c ∧ LeafOf s.nodes s.wires c m := by
  rcases h.cone hm with hleaf | rfl | hdecision | hsilent
  · exact hleaf
  · rcases h.plain.type with h | h <;> rw [h] at htype <;> simp at htype
  · rw [hdecision] at htype
    simp at htype
  · rcases hsilent with h | h | h | h <;> rw [h] at htype <;> simp at htype

/-- The Route If of the rule is the one that the decision is on. -/
theorem Parts.route (h : Parts s d r) {x : GraphNode}
    (hx : routeOf s.nodes s.wires d.id = some x) : x = r ∧ PlainRoute s.nodes s.wires r := by
  have hmem := List.mem_of_find?_eq_some hx
  have htype : x.type = .routeif := by
    have hfound := List.find?_some hx
    exact of_decide_eq_true hfound
  have hxr : x = r := by
    rcases h.cone hmem with ⟨c, hc, hleaf⟩ | heq | hdecision | hsilent
    · rcases hleaf.condition (h.cond c hc) with hfield | hrow
      · rcases hfield.type with h | h <;> rw [htype] at h <;> cases h
      · have hcontains := hrow.type
        rw [htype] at hcontains
        cases hcontains
    · exact heq
    · rw [htype] at hdecision
      cases hdecision
    · rcases hsilent with h | h | h | h <;> rw [htype] at h <;> cases h
  refine ⟨hxr, h.plain.resolve_left ?_⟩
  rw [← hxr, htype]
  decide

/-- A source that is a plain route is the route the compiler finds for the decision. -/
theorem Parts.routed (h : Parts s d r) (hroute : PlainRoute s.nodes s.wires r) :
    routeOf s.nodes s.wires d.id = some r := by
  cases hx : routeOf s.nodes s.wires d.id with
  | none =>
    rw [routeOf, List.find?_eq_none] at hx
    exact absurd (decide_eq_true hroute.type) (hx r h.source_mem)
  | some x => rw [(h.route hx).1]

end

/-! ## The two halves -/

section
variable {s : GraphState} {d l m c r : GraphNode} {ctx : EvaluationContext} {act : DecodedAction}
  {a : SampleAction} {tables : Tables} {rule : PolicyRule} {result : CompileResult}

/-- An action that the simulator shows, to a decision, as the daemon decodes it: the fields that
are compared, and the arguments of the lookups. -/
structure SeenAlike (s : GraphState) (act : DecodedAction) (a : SampleAction) (d : GraphNode) :
    Prop where
  paths : ∀ m ∈ coneOf s.nodes s.wires d.id, ∀ path, setPath s.nodes s.wires m = some path →
    MirrorsAt act a path
  rows : ∀ m ∈ coneOf s.nodes s.wires d.id, ∀ row, rowOf s.nodes s.wires m = some row →
    PlainRow act a row.2 m

/-- The fields that a deny decision compares are ones that both compare alike. A difference there
could hide a denial. -/
def ComparesAlike (s : GraphState) (a : SampleAction) (d : GraphNode) : Prop :=
  ∀ m ∈ coneOf s.nodes s.wires d.id, ∀ path, setPath s.nodes s.wires m = some path →
    ComparedAlike m (getPath a.value path)

/-- One decision, its rule, and an action that both see. -/
structure Setting (s : GraphState) (ctx : EvaluationContext) (act : DecodedAction)
    (a : SampleAction) (tables : Tables) (d r : GraphNode) (rule : PolicyRule) : Prop where
  parts : Parts s d r
  plain : PlainDecision s.nodes s.wires d
  unwarned : Unwarned s.nodes s.wires d
  rule : RuleOf s.nodes s.wires d rule
  dialect : ctx.dialect = xprDialect
  mirrors : Mirrors ctx act a
  answers : Answers tables ctx
  seen : SeenAlike s act a d

/-- The value that a rule compares at a path is the one the simulator compares. -/
theorem Setting.fieldHolds_eq (h : Setting s ctx act a tables d r rule) {path : JsString}
    {expected : MatchValue} (hat : MirrorsAt act a path) :
    fieldHolds act ctx (path, expected) = predicateHolds (getPath a.value path) expected ctx := by
  have hresolve : ctx.dialect.resolvePath act path = .ok (getPath a.value path) := by
    rw [h.dialect]
    exact hat
  simp only [fieldHolds, hresolve, bind, Except.bind]

/-- What the rule says of a node of the cone that is compared. -/
theorem Setting.field (h : Setting s ctx act a tables d r rule)
    (hm : m ∈ coneOf s.nodes s.wires d.id) {path : JsString}
    (hpath : setPath s.nodes s.wires m = some path) : ∃ expected,
      Schema.matchValue (operand m) = some expected ∧ (path, expected) ∈ rule.matchOn := by
  obtain ⟨fd, hfd, hkey, -, hread⟩ := forall₂_right
    (R := flip (FieldRead xprDialect)) h.rule.entries.flip (entry_of_leaf h.plain hm hpath)
  obtain ⟨key, expected⟩ := fd
  refine ⟨expected, hread, ?_⟩
  rw [show path = key from hkey]
  exact hfd

/-- A compared node reads its path in the graph. -/
theorem Setting.leaf_path (h : Setting s ctx act a tables d r rule)
    (hleaf : FieldLeaf s.nodes s.wires r l) (hl : l ∈ coneOf s.nodes s.wires d.id) :
    ∃ gf, fieldSource s.nodes s.wires l = some gf ∧
      setPath s.nodes s.wires l = some (gf.fields.text (js "path")) := by
  obtain ⟨gf, -, hgf, -⟩ := hleaf.field
  exact ⟨gf, hgf, setPath_leaf hleaf.type hgf (h.unwarned.clauses l hl)⟩

/-- The requirement of a row. -/
theorem Setting.provider (h : Setting s ctx act a tables d r rule)
    (hleaf : RowLeaf s.nodes s.wires r l) (hl : l ∈ coneOf s.nodes s.wires d.id) :
    ∃ gf lk, fieldSource s.nodes s.wires l = some gf ∧ lookupSource s.nodes s.wires gf = some lk ∧
      rowOf s.nodes s.wires l = some (gf, lk) ∧ rowRequirement lk gf l ∈ rule.providers.getD [] := by
  obtain ⟨gf, lk, -, hgf, hlk, -⟩ := hleaf.row
  have hrow : rowOf s.nodes s.wires l = some (gf, lk) := by
    simp [rowOf, hleaf.type, hgf, hlk]
  have hmem : rowProvider l (gf, lk) ∈ (draftOf s.nodes s.wires d).providers := by
    rw [draftOf_providers h.unwarned.kept]
    exact List.mem_filterMap.2 ⟨l, hl, by rw [hrow]; rfl⟩
  obtain ⟨req, hreq, hread⟩ := forall₂_right
    (R := flip fun p req => Schema.provider xprDialect p = some req) h.rule.providers.flip hmem
  rw [provider_rowProvider hread] at hreq
  exact ⟨gf, lk, hgf, hlk, hrow, hreq⟩

/-- What the rule finds at a name of the Route If. -/
theorem fieldHolds_name {key c : JsString} {u : FieldValue} {name : JsString}
    (hname : xprDialect.resolvePath act key = .ok (.json (.str name)))
    (hdialect : ctx.dialect = xprDialect) (hu : u = .str c)
    (hplain : (js "$").isPrefixOf c = false) {expected : MatchValue}
    (hread : Schema.matchValue u.toJson = some expected) {b : Bool}
    (h : fieldHolds act ctx (key, expected) = .ok b) : b = decide (name = c) := by
  have hexpected : expected = .lit c := by
    rw [hu] at hread
    obtain ⟨t, ht, heq⟩ := Option.map_eq_some_iff.1 (show (Schema.text 1 256 (.str c)).map .lit =
      some expected from hread)
    rw [← heq, ← Json.str.inj (Schema.text_eq ht)]
  have hresolve : ctx.dialect.resolvePath act key = .ok (.json (.str name)) := by
    rw [hdialect]
    exact hname
  simp only [fieldHolds, hresolve, bind, Except.bind, hexpected, predicateHolds, equalsText,
    JsValue.str?] at h
  -- a name without a variable is compared as it is
  have hsubst : ∀ {t}, substitute c ctx = .ok t → t = c := by
    intro t ht
    have hagent : c ≠ js "$agent" := by
      rintro rfl
      exact absurd hplain (by decide)
    have hpermission : c ≠ js "$agentPermission" := by
      rintro rfl
      exact absurd hplain (by decide)
    unfold substitute at ht
    rw [if_neg hagent, if_neg hpermission] at ht
    split_ifs at ht
    exact (Except.ok.inj ht).symm
  cases ht : substitute c ctx with
  | error e =>
    rw [ht] at h
    cases h
  | ok t =>
    rw [ht] at h
    rw [← Except.ok.inj h, hsubst ht]
    exact beq_eq_decide _ _

/-- A text that is not empty is truthy. -/
theorem truthy_of_lookup {f : Fields} {key t : JsString} (h : f.lookup key = some (.str t))
    (hne : t ≠ []) : f.truthy key = some (.str t) := by
  obtain ⟨u, us, rfl⟩ := List.exists_cons_of_ne_nil hne
  rw [Fields.truthy, h]

/-- What is truthy was looked up. -/
theorem lookup_of_truthy {f : Fields} {key : JsString} {u : FieldValue}
    (h : f.truthy key = some u) : f.lookup key = some u := by
  unfold Fields.truthy at h
  split at h <;> simp_all

/-- When a Route If takes an action. -/
theorem routes_iff {nodes : List GraphNode} {wires : List Wire} (hroute : PlainRoute nodes wires r) :
    routes r.fields (.of a.value) = true ↔
      (∀ c, r.fields.truthy (js "contract") = some (.str c) → a.contract = c) ∧
        ∀ c, r.fields.truthy (js "action") = some (.str c) → a.action = c := by
  obtain ⟨c, hc, hne, -⟩ := hroute.contract
  have hcontract : (Value.of a.value).property (js "contract") = .json (.str a.contract) := rfl
  have haction : (Value.of a.value).property (js "action") = .json (.str a.action) := rfl
  have hrouted : (Value.of a.value).isRouted = true := rfl
  rw [routes, hcontract, haction, hrouted, hc, truthy_of_lookup hc hne]
  cases htruthy : r.fields.truthy (js "action") with
  | none => simp [strictEquals]
  | some u =>
    obtain ⟨c', hc', -⟩ := hroute.action.resolve_left (by rw [htruthy]; exact Option.some_ne_none u)
    have hu := lookup_of_truthy htruthy
    rw [hc', Option.some.injEq] at hu
    rw [hc', ← hu]
    simp [strictEquals]

/-- The engine resolves the bare path to the action's contract. -/
theorem resolvePath_contract : xprDialect.resolvePath act (js "contract") =
    .ok (.json (.str act.contract)) := rfl

/-- And likewise to the action's name. -/
theorem resolvePath_action : xprDialect.resolvePath act (js "action") =
    .ok (.json (.str act.action)) := rfl

/-- **A rule that matches is a decision that fires.** The route takes the action because the rule
matches its contract and name, and each comparison is true because the predicate on its path
holds. -/
theorem Setting.fires (h : Setting s ctx act a tables d r rule) (hmatch : Matches ctx act rule) :
    Fires s.nodes s.wires (tableLookup tables) a d := by
  -- a rule that matches has all of its fields and providers hold
  have hfields : ∀ fd ∈ rule.matchOn, fieldHolds act ctx fd = .ok true := by
    intro fd hfd
    exact hmatch _ (List.mem_append_left _ (List.mem_map_of_mem hfd))
  have hreqs : ∀ req ∈ rule.providers.getD [], providerHolds req act ctx = .ok true := by
    intro req hreq
    exact hmatch _ (List.mem_append_right _ (List.mem_map_of_mem hreq))
  -- the contract and the name in the rule are those of the route
  have htakes : Takes r a := by
    rcases h.parts.plain with htype | hroute
    · exact Or.inl htype
    · refine Or.inr ((routes_iff hroute).2 ?_)
      have hname : ∀ {key name c}, key ∈ [js "contract", js "action"] →
          xprDialect.resolvePath act key = .ok (.json (.str name)) →
          r.fields.truthy key = some (.str c) → (js "$").isPrefixOf c = false → name = c := by
        intro key name c hkey hresolve hc hplain
        obtain ⟨⟨key', expected⟩, hfd, hkey', -, hread⟩ := forall₂_right
          (R := flip (FieldRead xprDialect)) h.rule.entries.flip
          (entry_of_route h.plain (h.parts.routed hroute) hkey hc)
        rw [← show key = key' from hkey'] at hfd
        have hholds := fieldHolds_name hresolve h.dialect rfl hplain hread (hfields _ hfd)
        exact of_decide_eq_true hholds.symm
      obtain ⟨c₀, hc₀, hne, hplain⟩ := hroute.contract
      refine ⟨fun c hc => ?_, fun c hc => ?_⟩
      · have hsame := lookup_of_truthy hc
        rw [hc₀, Option.some.injEq, FieldValue.str.injEq] at hsame
        rw [h.mirrors.contract]
        exact hname (by simp) resolvePath_contract hc (hsame ▸ hplain)
      · obtain ⟨c', hc', hplain'⟩ := hroute.action.resolve_left (by rw [hc]; exact Option.some_ne_none _)
        have hsame := lookup_of_truthy hc
        rw [hc', Option.some.injEq, FieldValue.str.injEq] at hsame
        rw [h.mirrors.action]
        exact hname (by simp) resolvePath_action hc (hsame ▸ hplain')
  refine (fires_iff h.parts.type h.parts.source h.parts.plain h.parts.cond).2 ⟨htakes, ?_⟩
  intro c hc l hl
  have hmem := h.parts.leaf_mem hc hl
  rcases hl.condition (h.parts.cond c hc) with hfield | hrow
  · obtain ⟨gf, hgf, hpath⟩ := h.leaf_path hfield hmem
    obtain ⟨expected, hread, hfd⟩ := h.field hmem hpath
    have hholds := hfields _ hfd
    rw [h.fieldHolds_eq (h.seen.paths l hmem _ hpath)] at hholds
    exact hfield.means h.parts.plain htakes hgf
      (field_true h.mirrors (h.plain.operands l hmem) hpath hread hholds)
  · obtain ⟨gf, lk, hgf, hlk, hrowOf, hreq⟩ := h.provider hrow hmem
    obtain ⟨hmode, hselect⟩ := row_leaf hrow.type hgf hlk (h.unwarned.clauses l hmem)
    exact hrow.means h.parts.plain htakes hgf hlk
      (row_agrees h.dialect h.mirrors h.answers hrow.type (h.seen.rows l hmem _ hrowOf) hmode hselect
        (hreqs _ hreq))

/-- **A rule that does not match is a decision that does not fire**, where both compare alike.
Needed for the decisions that deny: one that the daemon passes over must be passed over by the
simulator too. -/
theorem Setting.idle (h : Setting s ctx act a tables d r rule) (halike : ComparesAlike s a d)
    (hno : NoMatch ctx act rule) : ¬ Fires s.nodes s.wires (tableLookup tables) a d := by
  intro hfires
  obtain ⟨htakes, hleaves⟩ :=
    (fires_iff h.parts.type h.parts.source h.parts.plain h.parts.cond).1 hfires
  -- no node means two values, so one refuted comparison is enough
  have hfalse : ∀ {l}, Means s.nodes s.wires (tableLookup tables) a l (.bool true) →
      ¬ Means s.nodes s.wires (tableLookup tables) a l (.bool false) := by
    intro l htrue hfalse
    have heq := htrue.unique hfalse
    simp [Value.bool] at heq
  obtain ⟨b, hfirst⟩ := hno
  have hb := hfirst.holds
  -- what refutes the rule is a field of its match, or one of its providers
  rcases List.mem_append.1 hfirst.mem with hmem | hmem
  · obtain ⟨⟨path, expected⟩, hfd, heq⟩ := List.mem_map.1 hmem
    rw [← heq] at hb
    obtain ⟨⟨path', v⟩, hentry, hkey, -, hread⟩ := forall₂_right h.rule.entries hfd
    rw [show path' = path from hkey] at hentry
    rcases entry_source hentry with ⟨n, hn, hpath, rfl⟩ | ⟨x, hx, hname, u, hu, rfl⟩
    · -- a comparison that the rule finds false is false in the simulator
      have htype : n.type = .compare ∨ n.type = .inlist := by
        rcases matchValue_operand hpath hread with ⟨htype, -⟩ | ⟨htype, -⟩
        · exact Or.inl htype
        · exact Or.inr htype
      obtain ⟨c, hc, hl⟩ := h.parts.leaf_of_type hn (by tauto)
      have hfield : FieldLeaf s.nodes s.wires r n := by
        rcases hl.condition (h.parts.cond c hc) with hfield | hrow
        · exact hfield
        · rcases htype with h' | h' <;> rw [hrow.type] at h' <;> cases h'
      obtain ⟨gf, hgf, hpath'⟩ := h.leaf_path hfield hn
      have hsame : path = gf.fields.text (js "path") := by
        rw [hpath, Option.some.injEq] at hpath'
        exact hpath'
      rw [h.fieldHolds_eq (h.seen.paths n hn _ hpath)] at hb
      refine hfalse (hleaves c hc n hl) (hfield.means h.parts.plain htakes hgf ?_)
      rw [← hsame]
      exact field_false h.mirrors (h.plain.operands n hn) (halike n hn path hpath) hpath hread hb
    · -- what the Route If names is what the rule names
      obtain ⟨rfl, hroute⟩ := h.parts.route hx
      have hroutes : routes x.fields (.of a.value) = true := by
        refine htakes.resolve_left ?_
        rw [hroute.type]
        decide
      obtain ⟨hcontract, haction⟩ := (routes_iff hroute).1 hroutes
      rw [List.mem_cons, List.mem_singleton] at hname
      rcases hname with rfl | rfl
      -- either the contract or the name of the action differs from the route's
      · obtain ⟨c, hc, hne, hplain⟩ := hroute.contract
        have hc' := lookup_of_truthy hu
        rw [hc, Option.some.injEq] at hc'
        have hdiffers := fieldHolds_name resolvePath_contract h.dialect hc'.symm hplain hread hb
        refine of_decide_eq_false hdiffers.symm ?_
        rw [← h.mirrors.contract]
        exact hcontract c (by rw [hu, hc'])
      · obtain ⟨c, hc, hplain⟩ := hroute.action.resolve_left (by rw [hu]; exact Option.some_ne_none _)
        have hc' := lookup_of_truthy hu
        rw [hc, Option.some.injEq] at hc'
        have hdiffers := fieldHolds_name resolvePath_action h.dialect hc'.symm hplain hread hb
        refine of_decide_eq_false hdiffers.symm ?_
        rw [← h.mirrors.action]
        exact haction c (by rw [hu, hc'])
  -- a provider that fails is a Contains that is false in the simulator
  · obtain ⟨req, hreq, heq⟩ := List.mem_map.1 hmem
    rw [← heq] at hb
    obtain ⟨p, hp, hread⟩ := forall₂_right h.rule.providers hreq
    rw [draftOf_providers h.unwarned.kept, List.mem_filterMap] at hp
    obtain ⟨n, hn, hrow⟩ := hp
    obtain ⟨row, hrowOf, rfl⟩ := Option.map_eq_some_iff.1 hrow
    have htype : n.type = .contains := by
      unfold rowOf at hrowOf
      split at hrowOf
      · assumption
      · cases hrowOf
    obtain ⟨c, hc, hl⟩ := h.parts.leaf_of_type hn (Or.inr (Or.inr htype))
    have hleaf : RowLeaf s.nodes s.wires r n := by
      rcases hl.condition (h.parts.cond c hc) with hfield | hleaf
      · rcases hfield.type with h' | h' <;> rw [htype] at h' <;> cases h'
      · exact hleaf
    obtain ⟨gf, lk, hgf, hlk, hrowOf', -⟩ := h.provider hleaf hn
    rw [hrowOf, Option.some.injEq] at hrowOf'
    rw [hrowOf'] at hread hrowOf
    obtain ⟨hmode, hselect⟩ := row_leaf hleaf.type hgf hlk (h.unwarned.clauses n hn)
    rw [provider_rowProvider hread] at hb
    exact hfalse (hleaves c hc n hl) (hleaf.means h.parts.plain htakes hgf hlk
      (row_agrees h.dialect h.mirrors h.answers htype (h.seen.rows n hn _ hrowOf) hmode hselect hb))

end

/-! ## Transactions -/

section
variable {s : GraphState} {ctx : EvaluationContext} {tx : DecodedTransaction} {p : GraphNode}
  {result : CompileResult} {policy : Policy} {chainId : JsString} {tables : Tables}

/-- **A graph whose decisions have a declarative form**: everything that is wired to the policy
through a decision says in the rule what it says in the simulator. A Global cap is no decision, so
it is not asked about here. -/
def PlainGraph (s : GraphState) (p : GraphNode) : Prop :=
  ∀ d ∈ decisionsOf s.nodes s.wires p, PlainDecision s.nodes s.wires d

/-- An action of the agent that every decision sees in the simulator as the daemon decodes it, and
that the deny decisions compare alike. -/
structure ShownAs (s : GraphState) (p : GraphNode) (ctx : EvaluationContext) (act : DecodedAction)
    (a : SampleAction) : Prop where
  sender : a.text (js "data.from") = ctx.agent
  decisions : ∀ d ∈ decisionsOf s.nodes s.wires p, SeenAlike s act a d
  denies : ∀ d ∈ decisionsOf s.nodes s.wires p, d.fields.isText (js "effect") (js "deny") = true →
    ComparesAlike s a d

/-- The simulator and the engine see one contract and one action name, both taken from the raw
JSON. -/
theorem sampleAction_names {item : Json} {raw : XprActionJson} {a : SampleAction}
    (hraw : XprSchema.action item = some raw) (ha : sampleAction item = .ok a) :
    a.contract = raw.account ∧ a.action = raw.name := by
  obtain ⟨proto, ms, -, -, rfl, -, haccount, hname, -⟩ := action_parts hraw
  have hcontract : (Json.obj proto ms).either (js "account") (js "contract") =
      some (.str raw.account) := by
    simp [Json.either, Json.given, Json.get, Json.members?, haccount]
  have haction : (Json.obj proto ms).either (js "name") (js "action") = some (.str raw.name) := by
    simp [Json.either, Json.given, Json.get, Json.members?, hname]
  simp only [sampleAction, bind_ok, pure_eq, Except.ok.injEq] at ha
  obtain ⟨contract, hc, action, hn, -, -, rfl⟩ := ha
  rw [hcontract] at hc
  rw [haction] at hn
  exact ⟨(Except.ok.inj hc).symm, (Except.ok.inj hn).symm⟩

/-- **A raw transaction, decoded and simulated**: the same actions in the same order. Both read the
same JSON, each with a reader of its own. -/
theorem actions_alike {raw : Json} {context : ChainContext} {actions : List SampleAction}
    (hdecode : decodeXprTransaction raw context = .ok tx)
    (hactions : txToSampleActions raw = .ok actions) :
    List.Forall₂ (fun act a => a.contract = act.contract ∧ a.action = act.action)
      tx.actions actions := by
  obtain ⟨-, raws, hraws, hdecoded, -⟩ := decode_ok hdecode
  obtain ⟨proto, ms, items, rfl, -, hlook, hitems⟩ := transaction_parts hraws
  have hextract : (extractActions (.obj proto ms)).getD [] = items := by
    simp only [extractActions, Json.get, Json.members?, Option.bind_some, hlook, Option.getD_some]
  rw [txToSampleActions, hextract] at hactions
  have hacts := mapM_ok.1 hdecoded
  have has := mapM_ok.1 hactions
  clear hextract hraws hlook hdecode hdecoded hactions
  generalize tx.actions = acts at hacts ⊢
  induction hitems generalizing acts actions with
  | nil =>
    cases hacts
    cases has
    exact .nil
  | cons hitem _ ih =>
    cases hacts with
    | cons hact hacts =>
      cases has with
      | cons ha has =>
        obtain ⟨hcontract, haction⟩ := sampleAction_names hitem ha
        simp only [normalizeAction, bind_ok, pure_eq, Except.ok.injEq] at hact
        obtain ⟨-, -, rfl⟩ := hact
        exact .cons ⟨hcontract, haction⟩ (ih has _ hacts)

/-- The decisions of a graph that compiles without a warning, each with the rule that is read for
it. -/
theorem rules_read (hpolicy : s.nodes.find? (fun n => n.type = .policy) = some p)
    (hresult : compilePolicy s.nodes s.wires chainId = some result)
    (hwarnings : result.warnings = [])
    (hload : validatePolicy result.policy.toJson xprDialect = .ok policy) :
    (∀ d ∈ decisionsOf s.nodes s.wires p, Unwarned s.nodes s.wires d) ∧
      List.Forall₂ (RuleOf s.nodes s.wires) (decisionsOf s.nodes s.wires p) policy.rules ∧
      (integer 1 64 (.num (parseCount (p.fields.text (js "maxActions"))))).map some =
        some policy.maxActionsPerTransaction := by
  rw [compilePolicy, hpolicy, Option.map_some, Option.some.injEq] at hresult
  rw [← hresult] at hwarnings hload
  have hunwarned : ∀ d ∈ decisionsOf s.nodes s.wires p, Unwarned s.nodes s.wires d :=
    fun d hd => unwarned (List.flatMap_eq_nil_iff.1 hwarnings d hd)
  have hrules : (compiledRules s.nodes s.wires p).map Prod.snd =
      (decisionsOf s.nodes s.wires p).map fun d => (compileRule s.nodes s.wires d).1 := by
    have hall : ruledOf s.nodes s.wires p = decisionsOf s.nodes s.wires p := by
      refine List.filter_eq_self.2 fun d hd => ?_
      rw [(hunwarned d hd).ruled]
      rfl
    rw [compiledRules_snd, hall]
  obtain ⟨-, -, hread, hmax⟩ := policy_toJson.1 (validatePolicy_ok.1 hload).1
  obtain ⟨us, heq, -, hall⟩ := array_iff.1 hread
  rw [Json.arr.injEq] at heq
  rw [← heq, hrules, List.map_map, List.forall₂_map_left_iff] at hall
  exact ⟨hunwarned, hall, hmax⟩

/-- The bound on the actions is the same. -/
theorem actions_bounded {x : JsNumber} {bound : Option ℕ} {n : ℕ}
    (h : (integer 1 64 (.num x)).map some = some bound) (hle : n ≤ bound.getD 1) :
    x.toDouble.lt (.finite n) = false := by
  obtain ⟨k, hk, rfl⟩ := Option.map_eq_some_iff.1 h
  rw [Option.getD_some] at hle
  unfold integer at hk
  simp only at hk
  cases hint : x.toInt? with
  | none =>
    rw [hint] at hk
    cases hk
  | some i =>
    simp only [hint, Option.ite_none_right_eq_some, Option.some.injEq] at hk
    obtain ⟨⟨hlo, hhi⟩, rfl⟩ := hk
    cases x with
    | infinite b => cases hint
    | finite d =>
      have habs : |i| ≤ 2 ^ 53 := by
        rw [abs_of_nonneg (by omega)]
        omega
      have hdouble : JsNumber.toDouble (.finite d) = .finite i := by
        rw [JsNumber.toDouble, value_of_toInt? hint]
        exact Double.exact_intCast habs
      have hle' : (n : ℚ) ≤ i := by
        have hcast : (n : ℤ) ≤ i := by omega
        exact_mod_cast hcast
      rw [hdouble]
      simp [Double.lt, Double.le, hle']

/-- Where no governing decision uses the limits of its rule there is no aggregate to refuse. -/
theorem groupsOf_nil {rs : List PerAction}
    (h : ∀ r ∈ rs, ∀ n, r.governing = some n → n.fields.isTrue (js "useLimit") = false) :
    ruleAggregateCheck rs = none := by
  have hgroups : groupsOf rs = [] := by
    unfold groupsOf
    induction rs using List.reverseRecOn with
    | nil => rfl
    | append_singleton rs r ih =>
      rw [List.foldl_append, ih fun r hr => h r (List.mem_append_left _ hr), List.foldl_cons,
        List.foldl_nil]
      cases hverdict : r.verdict with
      | deny => rfl
      | allow =>
        cases hgov : r.governing with
        | none => rfl
        | some n =>
          have hlimit := h r (List.mem_append_right _ List.mem_cons_self) n hgov
          simp only [hlimit, Bool.false_eq_true, if_false]
  rw [ruleAggregateCheck, hgroups]
  rfl

/-- Where all actions are allowed and not too many, the limits of a rule decide before a Global
cap does. -/
theorem verdictOf_limits {rs : List PerAction} (h : ∀ r ∈ rs, r.verdict = .allow)
    (ruleAgg : Option RuleAggHit) (globalCap : Option GlobalCapHit) :
    (ruleAgg = none ∧ globalCap = none ∧ (verdictOf rs false ruleAgg globalCap).1 = .allow) ∨
    (ruleAgg ≠ none ∧ (verdictOf rs false ruleAgg globalCap).2.1 = .ruleAgg) ∨
    (globalCap ≠ none ∧ (verdictOf rs false ruleAgg globalCap).2.1 = .globalCap) := by
  have hdeny : rs.find? (fun r => r.verdict = .deny && r.governing.isSome) = none := by
    refine List.find?_eq_none.2 fun r hr => ?_
    simp [h r hr]
  have hdefault : rs.any (fun r => r.verdict = .deny && r.byDefault) = false := by
    refine List.any_eq_false.2 fun r hr => ?_
    simp [h r hr]
  simp only [verdictOf, Bool.false_eq_true, if_false, hdeny, hdefault]
  cases ruleAgg with
  | some hit =>
    refine Or.inr (Or.inl ⟨Option.some_ne_none _, ?_⟩)
    cases hit <;> rfl
  | none =>
    cases globalCap with
    | some hit => exact Or.inr (Or.inr ⟨Option.some_ne_none _, rfl⟩)
    | none => exact Or.inl ⟨rfl, rfl, rfl⟩

/-- **What the daemon allows under the compiled policy, the simulator allows**, or denies only
through what it adds up itself: the limits of a decision that has some, or a Global cap wired to the
policy, which the compiler leaves out without a warning. The tables answer both alike, and every
decision sees an action of the agent in the simulator as the daemon decodes it. -/
theorem enforced_simulated (hs : Reachable s)
    (hpolicy : s.nodes.find? (fun n => n.type = .policy) = some p)
    (hplain : PlainGraph s p) (hresult : compilePolicy s.nodes s.wires chainId = some result)
    (hwarnings : result.warnings = [])
    (hload : validatePolicy result.policy.toJson xprDialect = .ok policy)
    (hdialect : ctx.dialect = xprDialect) (hagent : ctx.agent ≠ []) (hanswers : Answers tables ctx)
    (hrows : ∀ args members, tables args = .row members → (Json.obj .ordinary members).Printable)
    {raw : Json} (hraw : raw.Printable) {context : ChainContext} {actions : List SampleAction}
    (hdecode : decodeXprTransaction raw context = .ok tx)
    (hactions : txToSampleActions raw = .ok actions)
    (hshown : List.Forall₂ (ShownAs s p ctx) tx.actions actions)
    (hallow : (evaluatePolicy tx policy ctx).decision.isAllow = true) :
    ∃ e, evaluateGraph s.nodes s.wires actions (tableLookup tables) = .ok e ∧
      (e.final = .allow ∨
        (e.decidedBy = .ruleAgg ∧
          ∃ d ∈ decisionsOf s.nodes s.wires p, d.fields.isTrue (js "useLimit") = true) ∨
        (e.decidedBy = .globalCap ∧
          ∃ n ∈ s.nodes, n.type = .aggregate ∧ Feeds s.wires n.id p.id)) := by
  have hwf : s.WellFormed := wellFormed_session hs
  obtain ⟨hunwarned, hrules, hmax⟩ := rules_read hpolicy hresult hwarnings hload
  have hvalid : policy.Valid ctx.dialect := by
    rw [hdialect]
    exact validatePolicy_valid hload
  obtain ⟨gov, hgov, -⟩ := allowed_of_isAllow hvalid.allowIds hallow
  have hprintable : ∀ f a, (tableLookup tables f a).Printable := by
    intro f a
    unfold tableLookup
    split
    · exact Json.Printable.null
    · split
      · next members heq => exact hrows _ _ heq
      · exact Json.Printable.null
  have hsimulated := txToSampleActions_printable hraw hactions
  have hboth : List.Forall₂ (fun act a => ShownAs s p ctx act a ∧ Mirrors ctx act a) tx.actions actions := by
    have halike := actions_alike hdecode hactions
    rw [List.forall₂_iff_zip] at halike hshown ⊢
    refine ⟨hshown.1, fun {act a} hmem => ?_⟩
    have hact := hshown.2 hmem
    obtain ⟨hcontract, haction⟩ := halike.2 hmem
    exact ⟨hact, hcontract, haction, hact.sender, hagent⟩
  have hdecoded : ∀ a ∈ actions, ∃ act ∈ tx.actions, ShownAs s p ctx act a ∧ Mirrors ctx act a :=
    fun a ha => forall₂_right hboth ha
  -- a decision, its rule and an action
  have hsetting : ∀ {act a d rule}, ShownAs s p ctx act a → Mirrors ctx act a →
      d ∈ decisionsOf s.nodes s.wires p → RuleOf s.nodes s.wires d rule →
      ∃ r, Setting s ctx act a tables d r rule := by
    intro act a d rule hact hmirrors hd hrule
    obtain ⟨hmem, hdtype, -⟩ := mem_decisionsOf.1 hd
    obtain ⟨r, hone, hr, hcond⟩ := (hplain d hd).source
    exact ⟨r, ⟨hwf, hmem, hdtype, hone, hr, hcond⟩, hplain d hd, hunwarned d hd, hrule,
      hdialect, hmirrors, hanswers, hact.decisions d hd⟩
  have hpermits : ∀ a ∈ actions, Permits s.nodes s.wires (tableLookup tables) a p := by
    intro a ha
    obtain ⟨act, hact, hact', hmirrors⟩ := hdecoded a ha
    refine ⟨fun d hd hdeny => ?_, Or.inl ?_⟩
    · obtain ⟨rule, hrule, hread⟩ := forall₂_right (R := flip (RuleOf s.nodes s.wires)) hrules.flip hd
      obtain ⟨r, hset⟩ := hsetting hact' hmirrors hd hread
      have heffect : rule.effect = .deny := by
        have htext := hread.effect
        rw [Fields.isText, decide_eq_true_eq] at hdeny htext
        rw [hdeny, Option.some.injEq, FieldValue.str.injEq] at htext
        cases he : rule.effect with
        | deny => rfl
        | allow =>
          rw [he] at htext
          exact absurd htext (by decide)
      exact hset.idle (hact'.denies d hd hdeny) (hgov.noDeny act hact rule hrule heffect)
    · obtain ⟨rule, -, hgoverns⟩ := forall₂_right
        (R := flip (Governs ctx policy)) hgov.governed.flip hact
      obtain ⟨d, hd, hread⟩ := forall₂_right hrules hgoverns.mem
      obtain ⟨r, hset⟩ := hsetting hact' hmirrors hd hread
      have htext := hread.effect
      have hgoverns : Governs ctx policy act rule := hgoverns
      rw [hgoverns.allow] at htext
      have hmatches : Matches ctx act rule := (FirstAt.holds hgoverns).2
      exact ⟨d, hd, htext, hset.fires hmatches⟩
  have hdefined : ∀ a ∈ actions, Defined s (tableLookup tables) a p := by
    intro a ha d hd
    obtain ⟨hmem, hdtype, -⟩ := mem_decisionsOf.1 hd
    obtain ⟨v, hv, -⟩ := decision_hasValue hwf (hsimulated a ha) (fun f => hprintable f a) hmem hdtype
      (hplain d hd)
    exact ⟨v, hv⟩
  obtain ⟨e, he, hemax, hmany, hcap, rs, hrs, hagg, hverdict⟩ :=
    evaluateGraph_spec hs hsimulated (fun a _ f => hprintable f a) hpolicy
  have hfew : e.tooMany = false := by
    rw [hmany, hemax]
    refine actions_bounded hmax ?_
    rw [← hshown.length_eq]
    exact hgov.bounded
  have hall : ∀ r ∈ rs, r.verdict = .allow := (judged_allow hrs hdefined).2 hpermits
  have hfinal : e.final = (verdictOf rs false e.ruleAgg e.globalCap).1 := by
    rw [← hfew]
    exact congrArg Prod.fst hverdict
  have hdecided : e.decidedBy = (verdictOf rs false e.ruleAgg e.globalCap).2.1 := by
    rw [← hfew]
    exact congrArg (fun v => v.2.1) hverdict
  refine ⟨e, he, ?_⟩
  rw [hfinal, hdecided]
  rcases verdictOf_limits hall e.ruleAgg e.globalCap with ⟨-, -, hallowed⟩ | ⟨hhit, hby⟩ | ⟨hhit, hby⟩
  · exact Or.inl hallowed
  · -- a limit is exceeded only where a decision that governs an action has one
    refine Or.inr (Or.inl ⟨hby, ?_⟩)
    by_contra hnone
    push Not at hnone
    refine hhit (hagg.trans (groupsOf_nil fun r hr n hn => ?_))
    obtain ⟨a, -, hjudged⟩ := forall₂_right hrs hr
    exact Bool.eq_false_iff.2 (hnone n (hjudged.governing n hn))
  · -- and a cap only where one is wired to the policy
    refine Or.inr (Or.inr ⟨hby, ?_⟩)
    by_contra hnone
    push Not at hnone
    have hempty : (s.nodes.filter fun n => n.type = .aggregate && reaches s.wires n.id p.id) = [] := by
      refine List.filter_eq_nil_iff.2 fun n hn hboth => ?_
      rw [Bool.and_eq_true, decide_eq_true_eq, reaches_iff] at hboth
      exact hnone n hn hboth.1 hboth.2
    refine hhit ?_
    rw [hcap, globalCapCheck, Option.bind_some, hempty]
    rfl

end

/-! ## A transfer under the demo's policy -/

namespace DemoEnforced

/-- Half a token for Alice, by the agent. -/
def raw : Json := .obj .ordinary [(js "actions", .arr [.obj .ordinary
  [(js "account", .str (js "eosio.token")), (js "name", .str (js "transfer")),
    (js "authorization", .arr [.obj .ordinary
      [(js "actor", .str (js "agent")), (js "permission", .str (js "active"))]]),
    (js "data", .obj .ordinary [(js "from", .str (js "agent")), (js "to", .str (js "alice")),
      (js "quantity", .str (js "0.5000 XPR"))])]])]

/-- A chain id of the right length. -/
def chainId : JsString := List.replicate 64 (unit 'a')

/-- The chain the policy and the transfer are for. -/
def context : ChainContext := ⟨js "xpr", js "testnet", chainId⟩

/-- The one table that the lookup asks for, with two allowed recipients. -/
def tables : Tables := fun _ => .row [(js "allowed", .arr [.str (js "alice"), .str (js "bob")])]

/-- The evaluation context of the agent, whose provider lookups answer from these tables. -/
def ctx : EvaluationContext :=
  ⟨js "agent", js "active", chainId, 1, xprDialect, some fun _ => some (tables ⟨[], [], [], []⟩)⟩

/-- The transfer as the decoder yields it. -/
def act : DecodedAction where
  contract := js "eosio.token"
  action := js "transfer"
  authorization := [⟨js "agent", js "active"⟩]
  data := [(js "from", .str (js "agent")), (js "to", .str (js "alice")), (js "quantity", .obj .ordinary
    [(js "amount", .str (js "0.5000")), (js "symbol", .str (js "XPR")),
      (js "precision", .num (.finite (.ofNat 4)))])]

/-- The transaction of that one transfer. -/
def tx : DecodedTransaction := ⟨context, [act], some raw⟩

/-- The same transfer as the simulator's form shows it. -/
def action : SampleAction where
  contract := js "eosio.token"
  action := js "transfer"
  data := [(js "from", .str (js "agent")), (js "to", .str (js "alice")),
    (js "quantity", .obj .ordinary [(js "amount", .str (js "0.5000")), (js "symbol", .str (js "XPR"))])]

/-- The raw JSON has no number the serializer would refuse. -/
theorem raw_printable : raw.Printable := by
  have htext : ∀ s : String, (Json.str (js s)).Printable := fun s => .str _
  have hauth : Json.Printable (.arr [.obj .ordinary
      [(js "actor", .str (js "agent")), (js "permission", .str (js "active"))]]) := by
    refine .arr ?_
    simp only [List.mem_singleton, forall_eq]
    exact .obj (by decide) (by simp [htext])
  have hdata : Json.Printable (.obj .ordinary [(js "from", .str (js "agent")),
      (js "to", .str (js "alice")), (js "quantity", .str (js "0.5000 XPR"))]) :=
    .obj (by decide) (by simp [htext])
  refine .obj (by decide) ?_
  simp only [List.mem_singleton, forall_eq]
  refine .arr ?_
  simp only [List.mem_singleton, forall_eq]
  exact .obj (by decide) (by simp [htext, hauth, hdata])

/-- Neither have the rows of the table. -/
theorem tables_printable (args : ProviderArgs) (members : List (JsString × Json))
    (h : tables args = .row members) : (Json.obj .ordinary members).Printable := by
  rw [← ProviderEvidence.row.inj h]
  refine .obj (by decide) ?_
  simp only [List.mem_singleton, forall_eq]
  refine .arr ?_
  intro v hv
  simp only [List.mem_cons, List.not_mem_nil, or_false] at hv
  rcases hv with rfl | rfl <;> exact .str _

/-- The simulator takes its action from the very JSON that the decoder is given. -/
theorem txToSampleActions_raw : txToSampleActions raw = .ok [action] := rfl

/-! The nodes of the demo. -/

/-- The source of the graph. -/
def transaction : GraphNode := mkNode 1 .transaction 30 300 []

/-- The route to transfers of the token contract. -/
def transfer : GraphNode := mkNode 2 .routeif 250 120 []

/-- The amount of the transfer. -/
def amountField : GraphNode := mkNode 3 .getfield 250 300 [(js "path", .str (js "data.quantity.amount"))]

/-- The comparison of the amount with a bound. -/
def amount : GraphNode :=
  mkNode 4 .compare 470 300 [(js "op", .str (js "lte")), (js "value", .str (js "1.0000"))]

/-- The table of recipients. -/
def whitelist : GraphNode := mkNode 5 .lookup 250 470 []

/-- The list in the row found. -/
def allowedField : GraphNode := mkNode 6 .getfield 470 470 [(js "path", .str (js "allowed"))]

/-- Whether the recipient is in the list. -/
def allowed : GraphNode := mkNode 7 .contains 670 470 [(js "value", .str (js "$data.to"))]

/-- The conjunction of the two tests. -/
def both : GraphNode := mkNode 8 .booland 860 380 []

/-- A second route, for the decision on the symbol. -/
def tokens : GraphNode :=
  mkNode 10 .routeif 250 650 [(js "contract", .str (js "xtokens")), (js "action", .str (js "transfer"))]

/-- The symbol of the transfer. -/
def symbolField : GraphNode := mkNode 11 .getfield 470 650 [(js "path", .str (js "data.quantity.symbol"))]

/-- The comparison of the symbol. -/
def symbol : GraphNode :=
  mkNode 12 .compare 670 650 [(js "op", .str (js "eq")), (js "value", .str (js "XUSDC"))]

/-- The policy the decisions reach. -/
def policyNode : GraphNode :=
  mkNode 14 .policy 1320 400 [(js "default", .str (js "deny")), (js "maxActions", .str (js "1"))]

/-- What is computed on the demo: how it is wired, and what its nodes hold. -/
structure Computed : Prop where
  short : raw.stringify.length ≤ MAX_INPUT_BYTES
  policy : demoState.nodes.find? (fun n => n.type = .policy) = some policyNode
  decisions : ∀ d ∈ decisionsOf demoState.nodes demoState.wires policyNode, d.id = 9 ∨ d.id = 13
  whitelisted : one demoState.nodes demoState.wires 9 (js "tx") = some transfer ∧
    one demoState.nodes demoState.wires 9 (js "cond") = some both ∧
    inboundNodes demoState.nodes demoState.wires 8 (js "in") = [amount, allowed]
  denied : one demoState.nodes demoState.wires 13 (js "tx") = some tokens ∧
    one demoState.nodes demoState.wires 13 (js "cond") = some symbol
  routed : one demoState.nodes demoState.wires 2 (js "tx") = some transaction ∧
    one demoState.nodes demoState.wires 10 (js "tx") = some transaction
  names : transfer.fields.lookup (js "contract") = some (.str (js "eosio.token")) ∧
    transfer.fields.lookup (js "action") = some (.str (js "transfer")) ∧
    tokens.fields.lookup (js "contract") = some (.str (js "xtokens")) ∧
    tokens.fields.lookup (js "action") = some (.str (js "transfer"))
  amounts : fieldSource demoState.nodes demoState.wires amount = some amountField ∧
    one demoState.nodes demoState.wires 3 (js "in") = some transfer
  rows : fieldSource demoState.nodes demoState.wires allowed = some allowedField ∧
    lookupSource demoState.nodes demoState.wires allowedField = some whitelist ∧
    one demoState.nodes demoState.wires 5 (js "tx") = some transaction
  symbols : fieldSource demoState.nodes demoState.wires symbol = some symbolField ∧
    one demoState.nodes demoState.wires 11 (js "in") = some tokens
  amountPath : ∀ m ∈ coneOf demoState.nodes demoState.wires 9,
    setPath demoState.nodes demoState.wires m = none ∨
      (m = amount ∧ setPath demoState.nodes demoState.wires m = some (js "data.quantity.amount"))
  symbolPath : ∀ m ∈ coneOf demoState.nodes demoState.wires 13,
    setPath demoState.nodes demoState.wires m = none ∨
      (m = symbol ∧ setPath demoState.nodes demoState.wires m = some (js "data.quantity.symbol"))
  operands : ∀ m ∈ demoState.nodes,
    (m.type = .compare → m.fields.text (js "value") = js "$agent" ∨
      (js "$").isPrefixOf (m.fields.text (js "value")) = false) ∧
    ∀ v ∈ listOf (m.fields.text (js "list")), v = js "$agent" ∨ (js "$").isPrefixOf v = false
  uncapped : ∀ n ∈ demoState.nodes, n.type ≠ .aggregate
  searched : ∀ m ∈ demoState.nodes, rowOf demoState.nodes demoState.wires m = none ∨
    (m = allowed ∧ rowOf demoState.nodes demoState.wires m = some (allowedField, whitelist))
  arguments : ∀ key ∈ [js "contract", js "table", js "key"],
    (whitelist.fields.lookup key).isSome = true ∧ whitelist.fields.text key ≠ js "$agentPermission" ∧
      ((js "$").isPrefixOf (whitelist.fields.text key) = true → whitelist.fields.text key = js "$agent")
  effect : ∀ d ∈ demoState.nodes, d.id = 9 → d.fields.isText (js "effect") (js "deny") = false
  verdict : ((compilePolicy demoState.nodes demoState.wires chainId).any fun r =>
    r.warnings.isEmpty && (match validatePolicy r.policy.toJson xprDialect with
      | .ok policy => (evaluatePolicy tx policy ctx).decision.isAllow
      | .error _ => false)) = true

/-- The decoder yields the transaction from the raw JSON. -/
theorem decode_raw (h : Computed) : decodeXprTransaction raw context = .ok tx := by
  have hread : XprSchema.transaction raw = some [⟨js "eosio.token", js "transfer",
      [⟨js "agent", js "active"⟩], [(js "from", .str (js "agent")), (js "to", .str (js "alice")),
        (js "quantity", .str (js "0.5000 XPR"))]⟩] := rfl
  exact decode_of_transaction h.short hread rfl

/-- The first route shows the contract and action it routes by, so it is plain. -/
theorem plainRoute_transfer (h : Computed) : PlainRoute demoState.nodes demoState.wires transfer where
  type := rfl
  source := ⟨transaction, h.routed.1, rfl⟩
  contract := ⟨js "eosio.token", h.names.1, by decide, by decide⟩
  action := Or.inr ⟨js "transfer", h.names.2.1, by decide⟩

/-- So is the second. -/
theorem plainRoute_tokens (h : Computed) : PlainRoute demoState.nodes demoState.wires tokens where
  type := rfl
  source := ⟨transaction, h.routed.2, rfl⟩
  contract := ⟨js "xtokens", h.names.2.2.1, by decide, by decide⟩
  action := Or.inr ⟨js "transfer", h.names.2.2.2, by decide⟩

/-- The amount is bounded, and the recipient is in the row. -/
theorem condition_whitelist (h : Computed) : Condition demoState.nodes demoState.wires transfer both := by
  have hboth : inboundNodes demoState.nodes demoState.wires both.id (js "in") = [amount, allowed] :=
    h.whitelisted.2.2
  obtain ⟨hsource, hin⟩ := h.amounts
  obtain ⟨hfield, hlookup, htx⟩ := h.rows
  refine .and rfl (by rw [hboth]; simp) ?_
  rw [hboth]
  intro m hm
  simp only [List.mem_cons, List.not_mem_nil, or_false] at hm
  rcases hm with rfl | rfl
  · exact .field ⟨Or.inl rfl, amountField, transfer, hsource, hin, Or.inl rfl⟩
  · exact .row ⟨rfl, allowedField, whitelist, transaction, hfield, hlookup, htx, Or.inr rfl⟩

/-- The condition of the second decision is a single comparison. -/
theorem condition_tokens (h : Computed) : Condition demoState.nodes demoState.wires tokens symbol := by
  obtain ⟨hsource, hin⟩ := h.symbols
  exact .field ⟨Or.inl rfl, symbolField, tokens, hsource, hin, Or.inl rfl⟩

/-- What each decision compares. -/
theorem setPath_demo (h : Computed) {d m : GraphNode} {path : JsString}
    (hd : d ∈ decisionsOf demoState.nodes demoState.wires policyNode)
    (hm : m ∈ coneOf demoState.nodes demoState.wires d.id)
    (hpath : setPath demoState.nodes demoState.wires m = some path) :
    (d.id = 9 ∧ m = amount ∧ path = js "data.quantity.amount") ∨
      (d.id = 13 ∧ m = symbol ∧ path = js "data.quantity.symbol") := by
  rcases h.decisions d hd with hid | hid
  · rw [hid] at hm
    rcases h.amountPath m hm with hnone | ⟨heq, hsome⟩
    · rw [hnone] at hpath
      cases hpath
    · rw [hsome, Option.some.injEq] at hpath
      exact Or.inl ⟨hid, heq, hpath.symm⟩
  · rw [hid] at hm
    rcases h.symbolPath m hm with hnone | ⟨heq, hsome⟩
    · rw [hnone] at hpath
      cases hpath
    · rw [hsome, Option.some.injEq] at hpath
      exact Or.inr ⟨hid, heq, hpath.symm⟩

/-- Whatever stands above a decision of the demo is one of its nodes. -/
theorem mem_demo {d m : GraphNode} (hd : d ∈ decisionsOf demoState.nodes demoState.wires policyNode)
    (hm : m ∈ coneOf demoState.nodes demoState.wires d.id) : m ∈ demoState.nodes := by
  obtain ⟨hmem, -⟩ := mem_decisionsOf.1 hd
  exact ((mem_cone_iff (wellFormed_session (.opened .demo)) hmem).1 hm).1

/-- No node of the demo has an operand that the compiler and the simulator would read
differently. -/
theorem plainOperand_demo (h : Computed) {m : GraphNode} (hm : m ∈ demoState.nodes) : PlainOperand m := by
  obtain ⟨hvalue, hlist⟩ := h.operands m hm
  unfold PlainOperand
  split
  · next htype => exact hvalue htype
  · exact hlist

/-- Both decisions of the demo are plain. -/
theorem plainDecision (h : Computed) {d : GraphNode} (hd : d ∈ decisionsOf demoState.nodes demoState.wires policyNode) :
    PlainDecision demoState.nodes demoState.wires d where
  source := by
    rcases h.decisions d hd with hid | hid
    · rw [hid]
      refine ⟨transfer, h.whitelisted.1, Or.inr (plainRoute_transfer h), fun c hc => ?_⟩
      rw [h.whitelisted.2.1, Option.some.injEq] at hc
      rw [← hc]
      exact condition_whitelist h
    · rw [hid]
      refine ⟨tokens, h.denied.1, Or.inr (plainRoute_tokens h), fun c hc => ?_⟩
      rw [h.denied.2, Option.some.injEq] at hc
      rw [← hc]
      exact condition_tokens h
  alone := by
    intro m hm m' hm' path hpath hpath'
    rcases setPath_demo h hd hm hpath with ⟨hid, heq, -⟩ | ⟨hid, heq, -⟩ <;>
      rcases setPath_demo h hd hm' hpath' with ⟨hid', heq', -⟩ | ⟨hid', heq', -⟩
    · rw [heq, heq']
    · omega
    · omega
    · rw [heq, heq']
  unrouted := by
    intro m hm path hpath hkey
    have hname : path ∈ [js "contract", js "action"] := by
      unfold routeKeys at hkey
      split at hkey
      · cases hkey
      · exact (List.mem_filter.1 hkey).1
    rcases setPath_demo h hd hm hpath with ⟨-, -, rfl⟩ | ⟨-, -, rfl⟩ <;> revert hname <;> decide
  operands := fun _ hm => plainOperand_demo h (mem_demo hd hm)

/-- The demo meets the law's condition on graphs. -/
theorem plainGraph (h : Computed) : PlainGraph demoState policyNode :=
  fun _ hd => plainDecision h hd

/-- The simulator shows the transfer as the engine decodes it, sender and recipient included. -/
theorem shown (h : Computed) : ShownAs demoState policyNode ctx act action where
  sender := rfl
  decisions := by
    intro d hd
    refine ⟨fun m hm path hpath => ?_, fun m hm row hrow => ?_⟩
    · rcases setPath_demo h hd hm hpath with ⟨-, -, rfl⟩ | ⟨-, -, rfl⟩ <;> rfl
    · rcases h.searched m (mem_demo hd hm) with hnone | ⟨rfl, hsome⟩
      · rw [hnone] at hrow
        cases hrow
      · rw [hsome, Option.some.injEq] at hrow
        rw [← hrow]
        refine ⟨fun key hkey => (h.arguments key hkey).1, fun key hkey => ?_, by decide, fun _ _ => rfl⟩
        obtain ⟨-, hpermission, hvar⟩ := h.arguments key hkey
        exact ⟨hpermission, fun hdollar hne => absurd (hvar hdollar) hne⟩
  denies := by
    intro d hd hdeny m hm path hpath
    rcases setPath_demo h hd hm hpath with ⟨hid, -, -⟩ | ⟨-, rfl, rfl⟩
    · obtain ⟨hmem, -⟩ := mem_decisionsOf.1 hd
      rw [h.effect d hmem hid] at hdeny
      cases hdeny
    · exact Or.inl rfl

/-- The provider lookups of the context answer from the tables. -/
theorem answers : Answers tables ctx := by
  intro args key e _ he
  exact (Option.some.inj he).symm

/-- The text computations the demo rests on, evaluated together. -/
theorem computed : Computed := by
  constructor <;> decide +kernel

/-- The policy of the demo compiles without a warning and loads, the daemon allows the transfer
under it, and the simulator allows it too or finds a limit of the rule exceeded. -/
theorem enforced_simulated_demo : ∃ result policy,
    compilePolicy demoState.nodes demoState.wires chainId = some result ∧
      validatePolicy result.policy.toJson xprDialect = .ok policy ∧
      (evaluatePolicy tx policy ctx).decision.isAllow = true ∧
      ∃ e, evaluateGraph demoState.nodes demoState.wires [action] (tableLookup tables) = .ok e ∧
        (e.final = .allow ∨ e.decidedBy = .ruleAgg) := by
  obtain ⟨result, hresult, hboth⟩ := (Option.any_eq_true _ _).1 computed.verdict
  rw [Bool.and_eq_true, List.isEmpty_iff] at hboth
  obtain ⟨hwarnings, hallowed⟩ := hboth
  split at hallowed
  · next policy hload =>
    obtain ⟨e, he, hdecided⟩ := enforced_simulated (.opened .demo) computed.policy
      (plainGraph computed) hresult hwarnings hload rfl (by decide) answers tables_printable
      raw_printable (decode_raw computed) txToSampleActions_raw (.cons (shown computed) .nil) hallowed
    refine ⟨result, policy, hresult, hload, hallowed, e, he, ?_⟩
    rcases hdecided with hfinal | ⟨hby, -⟩ | ⟨-, n, hn, htype, -⟩
    · exact Or.inl hfinal
    · exact Or.inr hby
    · exact absurd htype (computed.uncapped n hn)
  · cases hallowed

end DemoEnforced

end Signbox
