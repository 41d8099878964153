import Signbox.Proof.Evaluate
import Signbox.Proof.Recompiled
import Signbox.Proof.Renamed
import Signbox.Proof.Validated

/-!
# Opening a policy in the editor and saving it

A policy that is decompiled without a warning and compiled again is a policy with other rules:
a Route If always names a contract and an action, a Decision with limits always has a cap, a
list is read at its commas, and the conditions come back in another order.

* `PolicyRule.Kept`: when a rule means the same after this.
* `ruleMatches_recompiled`: it then matches the same actions.
* `evaluatePolicy_reopened`: a policy of such rules decides the same, up to the rule ids.
* `AnyAction.reopened_denies`: a rule for every action of a contract becomes one for transfers.
-/

namespace Signbox

open Guard Schema

variable {d doc : Json} {r : PolicyRule} {p : Policy}

/-! ## Rules that are kept -/

/-- A text `substitute` accepts: a variable by itself, or a text that has none in it. -/
def substitutable (t : JsString) : Bool :=
  t = js "$agent" || t = js "$agentPermission" || !(VARIABLES.any fun v => t.includes v)

/-- A predicate that answers for every value: it compares no amounts and its texts can be
substituted. -/
def MatchValue.calm : MatchValue → Bool
  | .lit t | .eq t => substitutable t
  | .isIn vs | .notIn vs => vs.all substitutable
  | .lte _ | .gte _ => false

/-- The only text a predicate admits. -/
def MatchValue.only? : MatchValue → Option JsString
  | .lit t | .eq t => some t
  | .isIn (v :: vs) => if vs.all (· = v) then some v else none
  | _ => none

/-- The fields of a rule admit one contract (or action), and the Route If names it. Otherwise a
default takes its place. -/
def RouteKept (key default : JsString) (fields : List (JsString × MatchValue)) : Prop :=
  (fields.lookup key).bind MatchValue.only? = some (routeValue key default fields)

/-- Two fields that are compiled in the order they have: contract, action, others. The order
decides which condition is asked first. -/
def staysBefore (f g : JsString × MatchValue) : Bool :=
  f.1 = js "contract" || (f.1 = js "action" && g.1 ≠ js "contract")

/-- **A rule that means the same after it was opened and saved.** Each field is one thing that the
editor's form of a rule cannot carry otherwise. -/
structure PolicyRule.Kept (r : PolicyRule) : Prop where
  contract : RouteKept (js "contract") (js "eosio.token") r.matchOn
  action : RouteKept (js "action") (js "transfer") r.matchOn
  lists : ∀ f ∈ r.matchOn, onData f = true → ∀ t ∈ f.2.items, Listable t
  order : r.matchOn.Pairwise fun f g => staysBefore f g = true ∨ f.2.calm = true ∧ g.2.calm = true
  scopes : ∀ q ∈ r.providers.getD [], q.args.scope.getD q.args.contract = q.args.contract
  requirements : (r.providers.getD []).reverse.eraseDups = (r.providers.getD []).eraseDups
  limits : ∀ l, r.limits = some l → l.Fits

/-- The id a rule gets. -/
def routeSlug (r : PolicyRule) : JsString :=
  slug [effectText r.effect, routeContract r, routeAction r]

/-- **A policy that means the same after it was opened and saved**: its rules do, and they get
different ids. -/
structure Policy.Kept (p : Policy) : Prop where
  rules : ∀ r ∈ p.rules, r.Kept
  slugs : (p.rules.map routeSlug).Nodup

/-- The rule that comes back: under another id, with its equalities as literals and its conditions
reversed. -/
def recompiled (r : PolicyRule) : PolicyRule where
  id := routeSlug r
  effect := r.effect
  matchOn := [(js "contract", .lit (routeContract r)), (js "action", .lit (routeAction r))] ++
    (r.matchOn.filter onData).reverse.map fun f => (f.1, f.2.plain)
  limits := r.limits
  providers := r.providers.map fun qs => qs.reverse.map fun q =>
    { q with args := { q.args with scope := some q.args.contract } }

/-! ## Predicates that answer -/

variable {action : DecodedAction} {ctx : EvaluationContext}

theorem substitute_answers {t : JsString} (h : substitutable t = true) (ctx : EvaluationContext) :
    ∃ s, substitute t ctx = .ok s := by
  simp only [substitutable, Bool.or_eq_true, decide_eq_true_eq, Bool.not_eq_true'] at h
  unfold substitute
  split_ifs with hagent hpermission hembedded
  · exact ⟨_, rfl⟩
  · exact ⟨_, rfl⟩
  · rcases h with (h | h) | h
    · exact absurd h hagent
    · exact absurd h hpermission
    · rw [h] at hembedded
      cases hembedded
  · exact ⟨_, rfl⟩

theorem resolvePath_answers {path : JsString} (h : MATCH_PATH_PATTERN path = true)
    (action : DecodedAction) : ∃ v, xprDialect.resolvePath action path = .ok v := by
  simp only [MATCH_PATH_PATTERN, Bool.or_eq_true, Bool.and_eq_true, decide_eq_true_eq] at h
  unfold xprDialect.resolvePath
  simp only
  split_ifs with hcontract haction hactor hpermission hdata
  · exact ⟨_, rfl⟩
  · exact ⟨_, rfl⟩
  · exact ⟨_, rfl⟩
  · exact ⟨_, rfl⟩
  · exact ⟨_, rfl⟩
  · rcases h with (((h | h) | h) | h) | ⟨h, -⟩
    · exact absurd h hcontract
    · exact absurd h haction
    · exact absurd h hactor
    · exact absurd h hpermission
    · exact absurd h hdata

theorem equalsText_answers {t : JsString} (h : substitutable t = true) (v : JsValue)
    (ctx : EvaluationContext) : ∃ b, equalsText v t ctx = .ok b := by
  obtain ⟨s, hs⟩ := substitute_answers h ctx
  unfold equalsText
  cases v.str? with
  | none => exact ⟨false, rfl⟩
  | some u => exact ⟨u == s, by rw [hs]; rfl⟩

/-- A calm predicate answers. -/
theorem predicateHolds_answers {x : MatchValue} (h : x.calm = true) (v : JsValue)
    (ctx : EvaluationContext) : ∃ b, predicateHolds v x ctx = .ok b := by
  have hmember : ∀ (u : JsString) {vs : List JsString}, vs.all substitutable = true →
      ∃ b, (vs.anyM fun t => return u == (← substitute t ctx)) = Except.ok b := by
    intro u vs hvs
    refine anyM_answers fun t ht => ?_
    obtain ⟨s, hs⟩ := substitute_answers (List.all_eq_true.1 hvs t ht) ctx
    exact ⟨u == s, by simp only [hs]; rfl⟩
  cases x with
  | lit t => exact equalsText_answers h v ctx
  | eq t => exact equalsText_answers h v ctx
  | lte bound => cases h
  | gte bound => cases h
  | isIn vs =>
    unfold predicateHolds
    cases v.str? with
    | none => exact ⟨false, rfl⟩
    | some u => exact hmember u h
  | notIn vs =>
    unfold predicateHolds
    cases v.str? with
    | none => exact ⟨false, rfl⟩
    | some u =>
      obtain ⟨b, hb⟩ := hmember u h
      exact ⟨!b, by simp only [hb, ok_bind]; rfl⟩

theorem fieldHolds_answers {f : JsString × MatchValue} (hpath : MATCH_PATH_PATTERN f.1 = true)
    (hcalm : f.2.calm = true) (hdialect : ctx.dialect = xprDialect) :
    Answers (fieldHolds action ctx) f := by
  obtain ⟨v, hv⟩ := resolvePath_answers hpath action
  obtain ⟨b, hb⟩ := predicateHolds_answers hcalm v ctx
  have hread : ctx.dialect.resolvePath action f.1 = .ok v := by
    rw [hdialect]
    exact hv
  exact ⟨b, by rw [fieldHolds, hread, ok_bind, hb]⟩

/-! ## The match of a rule -/

theorem plain_holds (v : JsValue) (x : MatchValue) (ctx : EvaluationContext) :
    predicateHolds v x.plain ctx = predicateHolds v x ctx := by
  cases x <;> rfl

/-- A predicate that admits one text is that text. -/
theorem only_holds {x : MatchValue} {t : JsString} (h : x.only? = some t) (v : JsValue)
    (ctx : EvaluationContext) : predicateHolds v (.lit t) ctx = predicateHolds v x ctx := by
  cases x with
  | lit s =>
    obtain rfl := Option.some.inj h
    rfl
  | eq s =>
    obtain rfl := Option.some.inj h
    rfl
  | isIn vs =>
    cases vs with
    | nil => cases h
    | cons u us =>
      simp only [MatchValue.only?, Option.ite_none_right_eq_some, Option.some.injEq] at h
      obtain ⟨hall, rfl⟩ := h
      change equalsText v u ctx = predicateHolds v (.isIn (u :: us)) ctx
      unfold equalsText predicateHolds
      cases v.str? with
      | none => rfl
      | some s =>
        -- the other texts of the list are the first one again
        simp only [anyM_cons]
        cases hu : substitute u ctx with
        | error e => rfl
        | ok w =>
          have hsame : ∀ t ∈ us, (do return s == (← substitute t ctx)) = Except.ok (s == w) := by
            intro t ht
            have heq := List.all_eq_true.1 hall t ht
            rw [decide_eq_true_eq] at heq
            rw [heq, hu]
            rfl
          cases hw : s == w with
          | true => simp only [ok_bind, hw]; rfl
          | false =>
            have hrest : (us.anyM fun t => do return s == (← substitute t ctx)) = .ok false :=
              anyM_ok_false.2 fun t ht => by rw [hsame t ht, hw]
            simp only [ok_bind, hw, pure_eq, Bool.false_eq_true, if_false]
            exact hrest.symm
  | lte bound => cases h
  | gte bound => cases h
  | notIn vs => cases h

theorem fieldHolds_congr {path : JsString} {x y : MatchValue}
    (h : ∀ v, predicateHolds v x ctx = predicateHolds v y ctx) :
    fieldHolds action ctx (path, x) = fieldHolds action ctx (path, y) := by
  unfold fieldHolds
  exact bind_congr_ok fun v _ => h v

section

variable {L : List (JsString × MatchValue)} {xc xa : MatchValue}

theorem onData_routed {f : JsString × MatchValue} :
    onData f = false ↔ f.1 = js "contract" ∨ f.1 = js "action" := by
  simp only [onData, Bool.and_eq_false_iff, decide_eq_false_iff_not, not_not]

/-- The order of the compiler: contract, action, and the other fields from last to first. -/
def compiledOrder (L : List (JsString × MatchValue)) (xc xa : MatchValue) :
    List (JsString × MatchValue) :=
  (js "contract", xc) :: (js "action", xa) :: (L.filter onData).reverse

theorem nodup_compiledOrder (hkeys : (L.map Prod.fst).Nodup) : (compiledOrder L xc xa).Nodup := by
  have hdata : (L.filter onData).reverse.Nodup :=
    List.nodup_reverse.2 ((List.Nodup.of_map _ hkeys).sublist List.filter_sublist)
  have hout : ∀ f : JsString × MatchValue, onData f = false → f ∉ (L.filter onData).reverse := by
    intro f hf hmem
    rw [List.mem_reverse, List.mem_filter, hf] at hmem
    exact absurd hmem.2 (by simp)
  have hne : js "contract" ≠ js "action" := by decide
  rw [compiledOrder, List.nodup_cons, List.nodup_cons, List.mem_cons, not_or]
  refine ⟨⟨fun heq => hne (congrArg Prod.fst heq), hout _ ?_⟩, hout _ ?_, hdata⟩
  · exact onData_routed.2 (Or.inl rfl)
  · exact onData_routed.2 (Or.inr rfl)

theorem perm_compiledOrder (hkeys : (L.map Prod.fst).Nodup) (hc : (js "contract", xc) ∈ L)
    (ha : (js "action", xa) ∈ L) : L.Perm (compiledOrder L xc xa) := by
  refine (List.perm_ext_iff_of_nodup (List.Nodup.of_map _ hkeys)
    (nodup_compiledOrder hkeys)).2 fun f => ?_
  rw [compiledOrder, List.mem_cons, List.mem_cons, List.mem_reverse, List.mem_filter]
  constructor
  · intro hf
    cases hdata : onData f with
    | true => exact Or.inr (Or.inr ⟨hf, rfl⟩)
    | false =>
      rcases onData_routed.1 hdata with hkey | hkey
      · exact Or.inl (List.inj_on_of_nodup_map hkeys hf hc hkey)
      · exact Or.inr (Or.inl (List.inj_on_of_nodup_map hkeys hf ha hkey))
  · rintro (rfl | rfl | ⟨hf, -⟩)
    · exact hc
    · exact ha
    · exact hf

/-- A field that stays before another one does not come after it. -/
theorem staysBefore_order (hkeys : (L.map Prod.fst).Nodup) (hc : (js "contract", xc) ∈ L)
    (ha : (js "action", xa) ∈ L) {f g : JsString × MatchValue} (hf : f ∈ L)
    (hstays : staysBefore f g = true) : ¬ [g, f].Sublist (compiledOrder L xc xa) := by
  have hnodup : (compiledOrder L xc xa).Nodup := nodup_compiledOrder hkeys
  rw [compiledOrder, List.nodup_cons, List.nodup_cons] at hnodup
  obtain ⟨hnewc, hnewa, -⟩ := hnodup
  have hlast : ∀ {l : List (JsString × MatchValue)}, [g, f].Sublist l → f ∈ l :=
    fun h => h.subset (by simp)
  -- nothing is in front of the contract
  have hfirst : ∀ {l : List (JsString × MatchValue)}, f ∉ l → ¬ [g, f].Sublist (f :: l) := by
    intro l hl h
    cases h with
    | cons _ h => exact hl (hlast h)
    | cons_cons _ h => exact hl (List.singleton_sublist.1 h)
  simp only [staysBefore, Bool.or_eq_true, Bool.and_eq_true, decide_eq_true_eq] at hstays
  rcases hstays with hkey | ⟨hkey, hother⟩
  · obtain rfl := List.inj_on_of_nodup_map hkeys hf hc hkey
    exact hfirst hnewc
  · obtain rfl := List.inj_on_of_nodup_map hkeys hf ha hkey
    intro h
    cases h with
    | cons _ h => exact hfirst hnewa h
    | cons_cons _ _ => exact hother rfl

end

/-- **The match of a rule that is kept** is the one it had, although its fields come back in
another order and form. -/
theorem staticMatch_recompiled (hkept : r.Kept) (hkeys : (r.matchOn.map Prod.fst).Nodup)
    (hpaths : ∀ f ∈ r.matchOn, MATCH_PATH_PATTERN f.1 = true) (hdialect : ctx.dialect = xprDialect)
    (action : DecodedAction) :
    staticMatch action (recompiled r) ctx = staticMatch action r ctx := by
  obtain ⟨xc, hxc, hcontract⟩ := Option.bind_eq_some_iff.1 hkept.contract
  obtain ⟨xa, hxa, haction⟩ := Option.bind_eq_some_iff.1 hkept.action
  have hc := mem_of_lookup hxc
  have ha := mem_of_lookup hxa
  have hreorder : r.matchOn.allM (fieldHolds action ctx) =
      (compiledOrder r.matchOn xc xa).allM (fieldHolds action ctx) := by
    refine allM_reorder (perm_compiledOrder hkeys hc ha) fun f g hfg hgf => ?_
    have hf : f ∈ r.matchOn := hfg.subset (by simp)
    have hg : g ∈ r.matchOn := hfg.subset (by simp)
    rcases List.pairwise_iff_forall_sublist.1 hkept.order hfg with hstays | ⟨hcalmf, hcalmg⟩
    · exact absurd hgf (staysBefore_order hkeys hc ha hf hstays)
    · exact ⟨fieldHolds_answers (hpaths f hf) hcalmf hdialect,
        fieldHolds_answers (hpaths g hg) hcalmg hdialect⟩
  have hroute : fieldHolds action ctx (js "contract", .lit (routeContract r)) =
      fieldHolds action ctx (js "contract", xc) :=
    fieldHolds_congr fun v => only_holds hcontract v ctx
  have hrouteAction : fieldHolds action ctx (js "action", .lit (routeAction r)) =
      fieldHolds action ctx (js "action", xa) :=
    fieldHolds_congr fun v => only_holds haction v ctx
  have hplain : ((r.matchOn.filter onData).reverse.map fun f => (f.1, f.2.plain)).allM
      (fieldHolds action ctx) = (r.matchOn.filter onData).reverse.allM (fieldHolds action ctx) := by
    rw [allM_map]
    exact allM_congr fun f _ => fieldHolds_congr fun v => plain_holds v f.2 ctx
  unfold staticMatch
  rw [hreorder, recompiled, compiledOrder]
  simp only [List.cons_append, List.nil_append, allM_cons, hroute, hrouteAction, hplain]

/-! ## The providers of a rule -/

theorem providerHolds_scoped {q : TableRowProvider}
    (h : q.args.scope.getD q.args.contract = q.args.contract) (action : DecodedAction)
    (ctx : EvaluationContext) :
    providerHolds { q with args := { q.args with scope := some q.args.contract } } action ctx =
      providerHolds q action ctx := by
  have hargs : resolveTableRowArgs { q with args := { q.args with scope := some q.args.contract } }
      action ctx = resolveTableRowArgs q action ctx := by
    unfold resolveTableRowArgs
    rw [h]
    rfl
  unfold providerHolds providerQuery
  rw [hargs]
  rfl

/-- **A rule that is kept matches the same actions**, its providers included. -/
theorem ruleMatches_recompiled (hkept : r.Kept) (hkeys : (r.matchOn.map Prod.fst).Nodup)
    (hpaths : ∀ f ∈ r.matchOn, MATCH_PATH_PATTERN f.1 = true) (hdialect : ctx.dialect = xprDialect)
    (action : DecodedAction) :
    ruleMatches action (recompiled r) ctx = ruleMatches action r ctx := by
  unfold ruleMatches
  rw [staticMatch_recompiled hkept hkeys hpaths hdialect]
  cases hproviders : r.providers with
  | none => simp only [recompiled, hproviders, Option.map_none]
  | some qs =>
    have hscopes := hkept.scopes
    have hrequirements := hkept.requirements
    rw [hproviders, Option.getD_some] at hscopes hrequirements
    have hsame : (qs.reverse.map fun q => ({ q with
        args := { q.args with scope := some q.args.contract } } : TableRowProvider)).allM
          (fun q => providerHolds q action ctx) = qs.allM fun q => providerHolds q action ctx := by
      rw [allM_map, ← allM_of_eraseDups hrequirements]
      exact allM_congr fun q hq => providerHolds_scoped (hscopes q (List.mem_reverse.1 hq)) action ctx
    simp only [recompiled, hproviders, Option.map_some, hsame]

/-! ## The documents of a policy -/

/-- What the document of a rule says about the rule. -/
structure RuleFacts (r : PolicyRule) : Prop where
  keys : (r.matchOn.map Prod.fst).Nodup
  paths : ∀ f ∈ r.matchOn, MATCH_PATH_PATTERN f.1 = true
  values : ∀ f ∈ r.matchOn, ∃ u, matchValue u = some f.2
  limits : ∀ l, r.limits = some l → l.Bounded
  providers : ∀ qs, r.providers = some qs → 1 ≤ qs.length ∧ qs.length ≤ 8
  rows : ∀ q ∈ r.providers.getD [], ∃ u, provider xprDialect u = some q

theorem rule_facts (hdoc : d.Distinct) (h : rule xprDialect d = some r) : RuleFacts r := by
  obtain ⟨p, entries, hget, -, hread⟩ := match_entries h
  obtain ⟨hcount, docs, -, hproviders⟩ := provider_docs h
  obtain ⟨p', ms, rfl, -, -, -, -, hlimits, -⟩ := rule_iff.1 h
  have hentries : (Json.obj p entries).Distinct := distinct_member hdoc.2 hget
  have hkeys : entries.map Prod.fst = r.matchOn.map Prod.fst :=
    entries_keys (hread.imp fun m f hmf => ⟨hmf.1, matchValue_doc hmf.2.2⟩)
  have hfield : ∀ f ∈ r.matchOn, ∃ m, FieldRead xprDialect m f := by
    intro f hf
    obtain ⟨m, -, hm⟩ := forall₂_right hread hf
    exact ⟨m, hm⟩
  refine ⟨?_, fun f hf => ?_, fun f hf => ?_, fun l hl => ?_, hcount, fun q hq => ?_⟩
  · rw [← hkeys]
    exact hentries.1
  · obtain ⟨m, hm⟩ := hfield f hf
    exact hm.2.1
  · obtain ⟨m, hm⟩ := hfield f hf
    exact ⟨m.2, hm.2.2⟩
  · cases hlook : ms.lookup (js "limits") with
    | none =>
      rw [Schema.optional, hlook, hl] at hlimits
      cases hlimits
    | some u =>
      simp only [Schema.optional, hlook, Option.map_eq_some_iff] at hlimits
      obtain ⟨l', hl', heq⟩ := hlimits
      rw [hl, Option.some.injEq] at heq
      rw [← heq]
      exact limits_bounded hl'
  · obtain ⟨u, -, hu⟩ := forall₂_right hproviders hq
    exact ⟨u, hu⟩

/-! ## The rules that come back -/

theorem required_doc {α : Type} {f : Json → Option α} {ms : List (JsString × Json)}
    {key : JsString} {u : Json} {x : α} (h : ms.lookup key = some u) (hf : f u = some x) :
    required ms key f = some x := by
  rw [required, h]
  exact hf

/-- What the schema reads is read again from the document the compiler writes. -/
theorem matchValue_plain {u : Json} {x : MatchValue} (h : matchValue u = some x) :
    matchValue (matchDoc .ordinary x.plain) = some x.plain := by
  obtain ⟨p, rfl⟩ := matchValue_doc h
  cases x with
  | lit t => exact h
  | eq t =>
    obtain ⟨s, hs, heq⟩ : ∃ s, text 1 256 (.str t) = some s ∧ MatchValue.eq s = .eq t :=
      Option.map_eq_some_iff.1 h
    rw [MatchValue.eq.inj heq] at hs
    change (text 1 256 (.str t)).map MatchValue.lit = _
    rw [hs]
    rfl
  | lte bound => exact h
  | gte bound => exact h
  | isIn vs => exact h
  | notIn vs => exact h

/-- The texts of a list the schema reads. -/
theorem matchValue_items {u : Json} {x : MatchValue} (h : matchValue u = some x) :
    ∀ t ∈ x.items, t ≠ [] := by
  have harray : ∀ {vs ws : List JsString}, array 1 256 (text 1 256) (.arr (vs.map .str)) = some ws →
      ∀ t ∈ ws, t ≠ [] := by
    intro vs ws h t ht
    obtain ⟨us, -, -, hus⟩ := array_iff.1 h
    obtain ⟨v, -, hv⟩ := forall₂_right (R := fun v x => text 1 256 v = some x) hus ht
    exact text_ne_nil hv
  obtain ⟨p, rfl⟩ := matchValue_doc h
  cases x with
  | isIn vs =>
    obtain ⟨ws, hws, heq⟩ : ∃ ws, array 1 256 (text 1 256) (.arr (vs.map .str)) = some ws ∧
        MatchValue.isIn ws = .isIn vs := Option.map_eq_some_iff.1 h
    rw [MatchValue.isIn.inj heq] at hws
    exact harray hws
  | notIn vs =>
    obtain ⟨ws, hws, heq⟩ : ∃ ws, array 1 256 (text 1 256) (.arr (vs.map .str)) = some ws ∧
        MatchValue.notIn ws = .notIn vs := Option.map_eq_some_iff.1 h
    rw [MatchValue.notIn.inj heq] at hws
    exact harray hws
  | _ => simp [MatchValue.items]

theorem listKept_of_listable {u : Json} {x : MatchValue} (h : matchValue u = some x)
    (hlist : ∀ t ∈ x.items, Listable t) : x.ListKept := by
  unfold MatchValue.ListKept
  cases hitems : x.items with
  | nil => rfl
  | cons t ts =>
    rw [hitems] at hlist
    have htexts := matchValue_items h
    rw [hitems] at htexts
    exact listOf_joinList hlist (by simp) htexts

/-- The text of a Route If is one the schema admits. -/
theorem routeValue_text {key default : JsString} {fields : List (JsString × MatchValue)}
    (hvalues : ∀ f ∈ fields, ∃ u, matchValue u = some f.2)
    (hdefault : text 1 256 (.str default) = some default) :
    text 1 256 (.str (routeValue key default fields)) = some (routeValue key default fields) := by
  unfold routeValue
  split
  next t hlook =>
    obtain ⟨u, hu⟩ := hvalues _ (mem_of_lookup hlook)
    obtain ⟨p, rfl⟩ := matchValue_doc hu
    obtain ⟨s, hs, heq⟩ : ∃ s, text 1 256 (.str t) = some s ∧ MatchValue.lit s = .lit t :=
      Option.map_eq_some_iff.1 hu
    rw [MatchValue.lit.inj heq] at hs
    exact hs
  next => exact hdefault

namespace RuleFacts

theorem contractText (h : RuleFacts r) :
    text 1 256 (.str (routeContract r)) = some (routeContract r) :=
  routeValue_text h.values (by decide)

theorem actionText (h : RuleFacts r) :
    text 1 256 (.str (routeAction r)) = some (routeAction r) :=
  routeValue_text h.values (by decide)

/-- A rule that is kept comes back from its nodes. -/
theorem readable (h : RuleFacts r) (hkept : r.Kept) (hdeny : r.effect = .deny → r.limits = none) :
    r.Readable := by
  refine ⟨h.keys, fun f hf hdata => ?_, ⟨text_ne_nil h.contractText, text_ne_nil h.actionText⟩,
    hdeny, fun l hl => ⟨hkept.limits l hl, h.limits l hl⟩⟩
  obtain ⟨u, hu⟩ := h.values f hf
  exact listKept_of_listable hu (hkept.lists f hf hdata)

/-- There are few paths besides contract and action. -/
theorem data_length (h : RuleFacts r) (hshown : r.Shown) :
    (r.matchOn.filter onData).length ≤ 6 := by
  have hnodup : ((r.matchOn.filter onData).map Prod.fst).Nodup :=
    h.keys.sublist (List.filter_sublist.map Prod.fst)
  have hsub : (r.matchOn.filter onData).map Prod.fst ⊆ FIELD_PATHS := by
    intro path hpath
    obtain ⟨f, hf, rfl⟩ := List.mem_map.1 hpath
    exact hshown.paths f (List.mem_of_mem_filter hf)
  have hlen := (hnodup.subperm hsub).length_le
  rwa [List.length_map] at hlen

/-- The match the daemon reads. -/
theorem matchFields_recompiled (h : RuleFacts r) (hshown : r.Shown) :
    Schema.matchFields xprDialect (.obj .ordinary (compiledOf r).matchOn) =
      some (recompiled r).matchOn := by
  have hlen := h.data_length hshown
  refine matchFields_iff.2 ⟨.ordinary, _, rfl, ?_, ?_⟩
  · simp only [compiledOf, List.length_append, List.length_map, List.length_reverse,
      List.length_cons, List.length_nil]
    omega
  · have hlit : ∀ {t : JsString}, text 1 256 (.str t) = some t →
        matchValue (.str t) = some (.lit t) := by
      intro t ht
      change (text 1 256 (.str t)).map MatchValue.lit = _
      rw [ht]
      rfl
    have hrest : List.Forall₂ (FieldRead xprDialect)
        ((r.matchOn.filter onData).reverse.map fieldEntry)
        ((r.matchOn.filter onData).reverse.map fun f => (f.1, f.2.plain)) := by
      rw [List.forall₂_map_left_iff, List.forall₂_map_right_iff, List.forall₂_same]
      intro f hf
      have hmem : f ∈ r.matchOn := List.mem_of_mem_filter (List.mem_reverse.1 hf)
      obtain ⟨u, hu⟩ := h.values f hmem
      exact ⟨rfl, h.paths f hmem, matchValue_plain hu⟩
    exact .cons ⟨rfl, rfl, hlit h.contractText⟩ (.cons ⟨rfl, rfl, hlit h.actionText⟩ hrest)

end RuleFacts

/-- The row requirement the daemon reads. -/
theorem provider_rowDoc {u : Json} {q : TableRowProvider} (h : provider xprDialect u = some q)
    (hop : q.op = .contains) : provider xprDialect (rowDoc q) =
      some { q with args := { q.args with scope := some q.args.contract } } := by
  obtain ⟨hname, p, ms, rfl, -, -, hargs, hselect, -, hvalue⟩ := provider_iff.1 h
  obtain ⟨args, hargsdoc, hargsome⟩ := required_some hargs
  obtain ⟨sel, -, hsel⟩ := required_some hselect
  obtain ⟨v, -, hv⟩ := required_some hvalue
  obtain ⟨p', ns, rfl, -, hcontract, -, htable, hkey⟩ := providerArgs_iff.1 hargsome
  obtain ⟨c, -, hc⟩ := required_some hcontract
  obtain ⟨t, -, ht⟩ := required_some htable
  obtain ⟨k, -, hk⟩ := required_some hkey
  rw [text_eq hc] at hc
  rw [text_eq ht] at ht
  rw [text_eq hk] at hk
  rw [text_eq hv] at hv
  rw [(pattern_eq hsel).1] at hsel
  refine provider_iff.2 ⟨hname, .ordinary, _, rfl, rfl, required_doc rfl rfl,
    required_doc rfl ?_, required_doc rfl hsel, required_doc rfl ?_, required_doc rfl hv⟩
  · exact providerArgs_iff.2 ⟨.ordinary, _, rfl, rfl, required_doc rfl hc,
      optional_doc (o := some q.args.contract) rfl fun x hx => by rwa [← Option.some.inj hx],
      required_doc rfl ht, required_doc rfl hk⟩
  · rw [hop]
    rfl

/-- **The daemon reads the rule that comes back**, and reads it as the recompiled rule. -/
theorem rule_compiledOf (h : RuleFacts r) (hkept : r.Kept) (hshown : r.Shown) :
    rule xprDialect (compiledOf r).toJson = some (recompiled r) := by
  have hid : ruleIdPattern (routeSlug r) = true := by
    unfold routeSlug
    cases r.effect <;> exact slug_valid (by decide) _ _
  have heffect : effect (.str (effectText r.effect)) = some r.effect := by
    cases r.effect <;> rfl
  have hlimits : (compiledOf r).toJson.get (js "limits") =
      r.limits.map fun l => .obj .ordinary (limitsDoc l) := by
    unfold compiledOf
    cases r.limits <;> cases r.providers <;> rfl
  have hproviders : (compiledOf r).toJson.get (js "providers") =
      (recompiled r).providers.map fun qs => .arr (qs.map rowDoc) := by
    have hdocs : ∀ qs : List TableRowProvider, (qs.reverse.map fun q => ({ q with
        args := { q.args with scope := some q.args.contract } } : TableRowProvider)).map rowDoc =
          qs.reverse.map rowDoc := by
      intro qs
      rw [List.map_map]
      rfl
    cases hqs : r.providers with
    | none =>
      unfold compiledOf recompiled
      rw [hqs]
      cases r.limits <;> rfl
    | some qs =>
      simp only [recompiled, hqs, Option.map_some, hdocs]
      unfold compiledOf
      rw [hqs]
      cases r.limits <;> rfl
  refine rule_iff.2 ⟨.ordinary, _, rfl, ?_, required_doc (u := .str (routeSlug r)) rfl ?_,
    required_doc (u := .str (effectText r.effect)) rfl heffect,
    required_doc (u := .obj .ordinary (compiledOf r).matchOn) rfl (h.matchFields_recompiled hshown),
    optional_doc hlimits fun l hl => limits_limitsDoc (hkept.limits l hl) (h.limits l hl),
    optional_doc hproviders fun qs hqs => ?_⟩
  · unfold compiledOf
    cases r.limits <;> cases r.providers <;> rfl
  · rw [pattern, if_pos hid]
    rfl
  · cases hold : r.providers with
    | none =>
      simp only [recompiled, hold, Option.map_none, reduceCtorEq] at hqs
    | some rows =>
      simp only [recompiled, hold, Option.map_some, Option.some.injEq] at hqs
      have hlen := h.providers rows hold
      have hrows := h.rows
      have hops := hshown.ops
      rw [hold, Option.getD_some] at hrows hops
      rw [← hqs]
      refine array_iff.2 ⟨_, rfl, by simpa using hlen, ?_⟩
      rw [List.map_map, List.forall₂_map_left_iff, List.forall₂_map_right_iff, List.forall₂_same]
      intro q hq
      have hmem := List.mem_reverse.1 hq
      obtain ⟨u, hu⟩ := hrows q hmem
      -- the document names the contract as its scope, whatever the rule had
      change provider xprDialect (rowDoc q) = _
      exact provider_rowDoc hu (hops q hmem)

/-! ## The policy that comes back -/

/-- The facts about the rules of a document. -/
theorem policy_facts (h : policy xprDialect doc = some p) (hdoc : doc.Distinct) :
    ∀ r ∈ p.rules, RuleFacts r := by
  obtain ⟨docs, hdocs, hget, -⟩ := decompileDocument_rules h
  obtain ⟨q, ms, rfl, -⟩ := policy_iff.1 h
  have hitems : (Json.arr docs).Distinct := distinct_member hdoc.2 hget
  intro r hr
  obtain ⟨d, hd, hdr⟩ := forall₂_right hdocs hr
  exact rule_facts (distinct_item hitems hd) hdr

/-- **The daemon reads the policy that comes back.** Its chain id is the one it had, and its count
of actions is written out even where it was left to the default. -/
theorem validatePolicy_recompiled (hvalid : validatePolicy doc xprDialect = .ok p)
    (hfacts : ∀ r ∈ p.rules, RuleFacts r) (hkept : p.Kept) (hshown : ∀ r ∈ p.rules, r.Shown) :
    validatePolicy (CompiledPolicy.mk (js "deny") p.chain.chainId
        (natNumber (p.maxActionsPerTransaction.getD 1)) (p.rules.map compiledOf)).toJson
      xprDialect = .ok ⟨⟨js "XPR", p.chain.chainId⟩, p.rules.map recompiled,
        some (p.maxActionsPerTransaction.getD 1)⟩ := by
  have hold := validatePolicy_valid hvalid
  -- what was validated once: the chain id, the number of rules and the count of actions
  obtain ⟨q, ms, rfl, -, -, -, hchain, hrules, hmax⟩ := policy_iff.1 (validatePolicy_ok.1 hvalid).1
  obtain ⟨c, -, hchainRead⟩ := required_some hchain
  obtain ⟨p', ns, rfl, -, -, hchainId⟩ := chain_iff.1 hchainRead
  obtain ⟨i, -, hpattern⟩ := required_some hchainId
  rw [(pattern_eq hpattern).1] at hpattern
  obtain ⟨u, -, hrulesRead⟩ := required_some hrules
  obtain ⟨docs, rfl, hlen, hdocs⟩ := array_iff.1 hrulesRead
  rw [hdocs.length_eq] at hlen
  have hrulesDoc : array 0 256 (rule xprDialect)
      (.arr ((p.rules.map compiledOf).map CompiledRule.toJson)) =
        some (p.rules.map recompiled) := by
    refine array_iff.2 ⟨_, rfl, by simpa using hlen, ?_⟩
    rw [List.map_map, List.forall₂_map_left_iff, List.forall₂_map_right_iff, List.forall₂_same]
    exact fun r hr => rule_compiledOf (hfacts r hr) (hkept.rules r hr) (hshown r hr)
  have hcount : 1 ≤ p.maxActionsPerTransaction.getD 1 ∧ p.maxActionsPerTransaction.getD 1 ≤ 64 := by
    cases hn : p.maxActionsPerTransaction with
    | none => simp
    | some n => exact (optional_integer hmax).2 n hn
  -- the document that comes back, member by member
  refine validatePolicy_ok.2 ⟨policy_iff.2 ⟨.ordinary, _, rfl, rfl, required_doc rfl rfl,
    required_doc rfl rfl, required_doc rfl ?_, required_doc rfl hrulesDoc,
    optional_doc (show _ = (some (p.maxActionsPerTransaction.getD 1)).map natDoc from rfl)
      fun n hn => ?_⟩, ?_⟩
  · exact chain_iff.2 ⟨.ordinary, _, rfl, rfl, required_doc rfl rfl, required_doc rfl hpattern⟩
  · rw [← Option.some.inj hn]
    exact integer_natDoc hcount.1 hcount.2
  -- its ids are the slugs, which are distinct, and its limits parse as they did
  · refine validateRules_ok.2 ⟨?_, by simp, fun r hr => ?_⟩
    · have hids : (p.rules.map recompiled).map PolicyRule.id = p.rules.map routeSlug := by
        rw [List.map_map]
        rfl
      rw [hids]
      exact hkept.slugs
    · obtain ⟨s, hs, rfl⟩ := List.mem_map.1 hr
      exact ⟨(hold.rules s hs).denyUnlimited, (hold.rules s hs).parses⟩

/-- A new id for every rule of a policy: the slug of its effect and its route. -/
def newId (rules : List PolicyRule) (id : JsString) : JsString :=
  ((rules.find? fun r => r.id = id).map routeSlug).getD id

theorem newId_eq {rules : List PolicyRule} (h : (rules.map PolicyRule.id).Nodup)
    (hr : r ∈ rules) : newId rules r.id = routeSlug r := by
  have hfind : rules.find? (fun s => s.id = r.id) = some r := by
    cases hfound : rules.find? (fun s => s.id = r.id) with
    | none =>
      have hnone := List.find?_eq_none.1 hfound r hr
      simp at hnone
    | some s =>
      have hid : s.id = r.id := by simpa using List.find?_some hfound
      rw [List.inj_on_of_nodup_map h (List.mem_of_find?_eq_some hfound) hr hid]
  rw [newId, hfind]
  rfl

/-- **Opening and saving a policy.** A policy that the editor shows without a warning and whose
rules are kept compiles to one that the daemon accepts, that allows as many actions, and that
gives the same decision and the same demands, up to the rule ids, for every transaction. -/
theorem evaluatePolicy_reopened {nearest : Decimal → JsNumber} {text : JsString}
    {graph : DecompileResult} (hparse : Json.parse nearest text = some doc)
    (hvalid : validatePolicy doc xprDialect = .ok p)
    (hgraph : decompilePolicy nearest text = some graph) (hwarn : graph.warnings = [])
    (hkept : p.Kept) :
    ∃ result q rename, compilePolicy graph.nodes graph.wires p.chain.chainId = some result ∧
      result.warnings = [] ∧ validatePolicy result.policy.toJson xprDialect = .ok q ∧
      q.maxActionsPerTransaction.getD 1 = p.maxActionsPerTransaction.getD 1 ∧
      (∀ r ∈ p.rules, ∀ s ∈ p.rules, rename r.id = rename s.id → r.id = s.id) ∧
      ∀ (tx : DecodedTransaction) (ctx : EvaluationContext), ctx.dialect = xprDialect →
        evaluatePolicy tx q ctx = (evaluatePolicy tx p ctx).rename rename := by
  have hdoc := parse_distinct hparse
  have hschema := (validatePolicy_ok.1 hvalid).1
  have hids := validatePolicy_valid hvalid
  rw [decompilePolicy, hparse, Option.map_some, Option.some.injEq] at hgraph
  subst hgraph
  have hshown := rules_shown hschema hwarn
  have hfacts := policy_facts hschema hdoc
  have hread : ∀ r ∈ p.rules, r.Readable := fun r hr =>
    (hfacts r hr).readable (hkept.rules r hr) (hids.rules r hr).denyUnlimited
  refine ⟨_, _, newId p.rules, compilePolicy_decompiled hschema hread hshown, rfl,
    validatePolicy_recompiled hvalid hfacts hkept hshown, rfl, ?_, ?_⟩
  · intro r hr s hs heq
    rw [newId_eq hids.ids hr, newId_eq hids.ids hs] at heq
    rw [List.inj_on_of_nodup_map hkept.slugs hr hs heq]
  · intro tx ctx hdialect
    refine evaluatePolicy_renamed rfl (fun r hr => ⟨rfl, rfl, fun action => ?_⟩)
      (fun r hr => (newId_eq hids.ids hr).symm) (fun r hr s hs heq => ?_) rfl rfl
    · exact ruleMatches_recompiled (hkept.rules r hr) (hfacts r hr).keys (hfacts r hr).paths
        hdialect action
    · rw [newId_eq hids.ids hr, newId_eq hids.ids hs] at heq
      rw [List.inj_on_of_nodup_map hkept.slugs hr hs heq]

/-! A policy that is kept. -/

namespace PayList

/-- Transfers to two recipients, with a cap and a cooldown of one hour. -/
def document : Json := Sample.policyDoc [.obj .ordinary
  [(js "id", Sample.text "pay"), (js "effect", Sample.text "allow"),
    (js "match", .obj .ordinary [(js "contract", Sample.text "eosio.token"),
      (js "action", .obj .ordinary [(js "in", .arr [Sample.text "transfer"])]),
      (js "data.to", .obj .ordinary [(js "in", .arr [Sample.text "alice", Sample.text "bob"])])]),
    (js "limits", .obj .ordinary [(js "maxPerTransaction", Sample.text "1.0000 XPR"),
      (js "cooldownPerRecipientMs", .num (.finite (.ofParts false 36 5)))])]]

def policy : Policy := Sample.policyOf
  [⟨js "pay", .allow, [(js "contract", .lit (js "eosio.token")),
      (js "action", .isIn [js "transfer"]), (js "data.to", .isIn [js "alice", js "bob"])],
    some ⟨some (js "1.0000 XPR"), none, none, some 3600000, none, none, none⟩, none⟩]

theorem document_sound : document.Sound JsNumber.finite := by
  have houter : [js "schemaVersion", js "default", js "chain", js "rules"].Nodup := by decide
  have hchain : [js "name", js "chainId"].Nodup := by decide
  have hrule : [js "id", js "effect", js "match", js "limits"].Nodup := by decide
  have hmatch : [js "contract", js "action", js "data.to"].Nodup := by decide
  have hin : [js "in"].Nodup := by decide
  have hlimits : [js "maxPerTransaction", js "cooldownPerRecipientMs"].Nodup := by decide
  exact ⟨houter, rfl, trivial, ⟨hchain, trivial, trivial, trivial⟩,
    ⟨⟨hrule, trivial, trivial, ⟨hmatch, trivial, ⟨hin, ⟨trivial, trivial⟩, trivial⟩,
      ⟨hin, ⟨trivial, trivial, trivial⟩, trivial⟩, trivial⟩, ⟨hlimits, trivial, rfl, trivial⟩,
      trivial⟩, trivial⟩, trivial⟩

theorem kept : policy.Kept := by
  refine ⟨fun r hr => ?_, by decide⟩
  rw [List.mem_singleton.1 hr]
  refine ⟨rfl, rfl, by decide, by decide, by decide, by decide, fun l hl => ?_⟩
  rw [← Option.some.inj hl]
  exact ⟨rfl, rfl, by decide, by decide, by decide⟩

/-- The policy with one plain rule is opened and saved: it loads again, its rules keep distinct
names, and every transaction is decided as before. -/
theorem evaluatePolicy_reopened_pay : ∃ result q rename,
    compilePolicy (decompileDocument document).nodes (decompileDocument document).wires Sample.chainId =
        some result ∧
      result.warnings = [] ∧ validatePolicy result.policy.toJson xprDialect = .ok q ∧
      q.maxActionsPerTransaction.getD 1 = policy.maxActionsPerTransaction.getD 1 ∧
      (∀ r ∈ policy.rules, ∀ s ∈ policy.rules, rename r.id = rename s.id → r.id = s.id) ∧
      ∀ (tx : DecodedTransaction) (ctx : EvaluationContext), ctx.dialect = xprDialect →
        evaluatePolicy tx q ctx = (evaluatePolicy tx policy ctx).rename rename := by
  have hordinary : document.ordinary = document := rfl
  have hparse : Json.parse .finite document.stringify = some document := by
    rw [parse_stringify document_sound, hordinary]
  have hgraph : decompilePolicy .finite document.stringify = some (decompileDocument document) := by
    rw [decompilePolicy, hparse]
    rfl
  have hvalid : validatePolicy document xprDialect = .ok policy := by decide
  exact evaluatePolicy_reopened hparse hvalid hgraph rfl kept

end PayList

/-! A rule without an action is shown without a warning, and comes back for transfers only. -/

namespace AnyAction

/-- A policy that allows every action of `eosio.token`. -/
def document : Json := Sample.policyDoc [.obj .ordinary
  [(js "id", Sample.text "token"), (js "effect", Sample.text "allow"),
    (js "match", .obj .ordinary [(js "contract", Sample.text "eosio.token")])]]

def policy : Policy := Sample.policyOf
  [⟨js "token", .allow, [(js "contract", .lit (js "eosio.token"))], none, none⟩]

/-- The policy that comes back. -/
def reopened : Policy := ⟨⟨js "XPR", Sample.chainId⟩,
  [⟨js "allow-eosio-token-transfer", .allow, [(js "contract", .lit (js "eosio.token")),
    (js "action", .lit (js "transfer"))], none, none⟩], some 1⟩

def issue : DecodedTransaction :=
  ⟨⟨js "xpr", js "testnet", Sample.chainId⟩,
    [⟨js "eosio.token", js "issue", [⟨js "bot", js "active"⟩], []⟩], none⟩

theorem document_sound : document.Sound JsNumber.finite := by
  have houter : [js "schemaVersion", js "default", js "chain", js "rules"].Nodup := by decide
  have hchain : [js "name", js "chainId"].Nodup := by decide
  have hrule : [js "id", js "effect", js "match"].Nodup := by decide
  have hmatch : [js "contract"].Nodup := by decide
  exact ⟨houter, rfl, trivial, ⟨hchain, trivial, trivial, trivial⟩,
    ⟨⟨hrule, trivial, trivial, ⟨hmatch, trivial, trivial⟩, trivial⟩, trivial⟩, trivial⟩

/-- **A policy that opens to another one.** Its rule allows any action of the contract, the editor
shows the action `transfer` without a warning, and what it saves denies an `issue` that the policy
allowed. -/
theorem reopened_denies : ∃ graph result,
    decompilePolicy .finite document.stringify = some graph ∧ graph.warnings = [] ∧
      validatePolicy document xprDialect = .ok policy ∧
      compilePolicy graph.nodes graph.wires Sample.chainId = some result ∧ result.warnings = [] ∧
      validatePolicy result.policy.toJson xprDialect = .ok reopened ∧
      (evaluatePolicy issue policy (Sample.context none)).decision = .allow [js "token"] 1 ∧
      (evaluatePolicy issue reopened (Sample.context none)).decision.isAllow = false := by
  have hordinary : document.ordinary = document := rfl
  have hgraph : decompilePolicy .finite document.stringify = some (decompileDocument document) := by
    rw [decompilePolicy, parse_stringify document_sound, hordinary]
    rfl
  have hvalid : validatePolicy document xprDialect = .ok policy := by decide
  have hread : ∀ r ∈ policy.rules, r.Readable := by
    intro r hr
    rw [List.mem_singleton.1 hr]
    refine ⟨by decide, fun f hf hdata => ?_, by decide, by decide, fun l hl => nomatch hl⟩
    -- the contract is not a condition on the data
    rw [List.mem_singleton.1 hf] at hdata
    cases hdata
  have hshown : ∀ r ∈ policy.rules, r.Shown := by
    intro r hr
    rw [List.mem_singleton.1 hr]
    exact ⟨by decide, by decide⟩
  exact ⟨_, _, hgraph, rfl, hvalid,
    compilePolicy_decompiled (validatePolicy_ok.1 hvalid).1 hread hshown, rfl, by decide,
    by decide, by decide⟩

end AnyAction

end Signbox
