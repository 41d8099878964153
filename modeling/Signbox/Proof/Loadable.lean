import Signbox.Proof.Loading

/-!
# Which graphs compile to a policy that loads

One decision whose rule does not load, or two with one slug, and the daemon refuses the policy as
a whole.

* `RuleLoads`, `ruleLoads_iff`: when the rule of a decision is valid.
* `Loads`, `loads_session`: exactly which graphs of a session compile to a policy that is accepted.
* `TwoDecisions.refused`: two decisions behind one Route If compile to a policy that is refused.
-/

namespace Signbox

open Schema Guard

section
variable (nodes : List GraphNode) (wires : List Wire)

/-! ## One decision -/

/-- The node that has the last word on a match path of a decision. Those before it are
overwritten. -/
def lastSetter (d : GraphNode) (path : JsString) : Option GraphNode :=
  (coneOf nodes wires d.id).reverse.find? fun n => setPath nodes wires n = some path

/-- The paths that the Route If fills. -/
def routeKeys (route : Option GraphNode) : List JsString :=
  match route with
  | none => []
  | some r => [js "contract", js "action"].filter fun key => (r.fields.truthy key).isSome

/-- **A decision whose rule loads**: every text in the cone of the decision that ends up in the
rule has the form and the length that the daemon's schema asks for. -/
structure RuleLoads (d : GraphNode) : Prop where
  effect : d.fields.text (js "effect") = js "allow" ∨ d.fields.text (js "effect") = js "deny"
  paths : (routeKeys (routeOf nodes wires d.id) ++
    (coneOf nodes wires d.id).filterMap (setPath nodes wires)).dedup.length ≤ 32
  route : ∀ r, routeOf nodes wires d.id = some r → ∀ key ∈ [js "contract", js "action"],
    lastSetter nodes wires d key = none → ∀ v, r.fields.truthy key = some v →
      ∃ s, v = .str s ∧ ucs2length s ≤ 256
  operands : ∀ path n, lastSetter nodes wires d path = some n → OperandLoads n
  rows : ((coneOf nodes wires d.id).filterMap (rowOf nodes wires)).length ≤ 8
  row : ∀ n ∈ coneOf nodes wires d.id, RowLoads nodes wires n
  limits : d.fields.isTrue (js "useLimit") = true →
    d.fields.isText (js "effect") (js "allow") = true → LimitsLoad d.fields

end

variable {nodes : List GraphNode} {wires : List Wire} {d : GraphNode} {path : JsString}

theorem lookup_filterMap_pairs {β : Type} (l : List β) (p : β → Option JsString) (g : β → Json)
    (k : JsString) : (l.filterMap fun b => (p b).map fun k => (k, g b)).lookup k =
      (l.find? fun b => p b = some k).map g := by
  induction l with
  | nil => rfl
  | cons b l ih =>
    cases hp : p b with
    | none =>
      have hne : ¬ p b = some k := by rw [hp]; exact Option.some_ne_none k |>.symm
      rw [List.filterMap_cons_none (by rw [hp]; rfl), ih, List.find?_cons_of_neg (by simpa using hne)]
    | some k' =>
      rw [List.filterMap_cons_some (by rw [hp]; rfl), List.lookup_cons]
      by_cases hk : k = k'
      · have hyes : p b = some k := by rw [hp, hk]
        rw [List.find?_cons_of_pos (by simpa using hyes), hk, BEq.rfl]
        rfl
      · have hne : ¬ p b = some k := by
          rw [hp, Option.some.injEq]
          exact fun h => hk h.symm
        have hbeq : (k == k') = false := by simpa using hk
        rw [List.find?_cons_of_neg (by simpa using hne), hbeq, ih]

theorem routeMatch_keys (route : Option GraphNode) :
    (routeMatch route).map Prod.fst = routeKeys route := by
  cases route with
  | none => rfl
  | some r =>
    unfold routeMatch routeKeys
    cases hc : r.fields.truthy (js "contract") <;>
      cases ha : r.fields.truthy (js "action") <;> simp [hc, ha]

theorem routeKeys_nodup (route : Option GraphNode) : (routeKeys route).Nodup := by
  cases route with
  | none => exact List.nodup_nil
  | some r => exact List.Nodup.filter _ (show [js "contract", js "action"].Nodup by decide)

theorem lookup_routeMatch {route : Option GraphNode} {key : JsString} {v : Json} :
    (routeMatch route).lookup key = some v ↔ ∃ r, route = some r ∧
      key ∈ [js "contract", js "action"] ∧ ∃ u, r.fields.truthy key = some u ∧ u.toJson = v := by
  have hnd : ((routeMatch route).map Prod.fst).Nodup := routeMatch_keys route ▸ routeKeys_nodup route
  rw [lookup_iff_mem hnd]
  cases route with
  | none => simp [routeMatch]
  | some r =>
    rw [routeMatch, List.mem_filterMap]
    constructor
    · rintro ⟨k, hk, hm⟩
      obtain ⟨u, hu, heq⟩ := Option.map_eq_some_iff.1 hm
      rw [Prod.mk.injEq] at heq
      rw [← heq.1]
      exact ⟨r, rfl, hk, u, hu, heq.2⟩
    · rintro ⟨r', hr', hk, u, hu, hv⟩
      rw [← Option.some.inj hr'] at hu
      exact ⟨key, hk, by rw [hu, Option.map_some, hv]⟩

theorem draftOf_lookup : (draftOf nodes wires d).matchOn.lookup path =
    ((lastSetter nodes wires d path).map operand).or
      ((routeMatch (routeOf nodes wires d.id)).lookup path) := by
  rw [draftOf_matchOn, lookup_foldl_mapSet, ← List.filterMap_reverse, lookup_filterMap_pairs]
  rfl

theorem draftOf_nodup : ((draftOf nodes wires d).matchOn.map Prod.fst).Nodup := by
  rw [draftOf_matchOn]
  exact nodup_foldl_mapSet (routeMatch_keys _ ▸ routeKeys_nodup _)

theorem draftOf_length : (draftOf nodes wires d).matchOn.length =
    (routeKeys (routeOf nodes wires d.id) ++
      (coneOf nodes wires d.id).filterMap (setPath nodes wires)).dedup.length := by
  have hkeys : ∀ k, k ∈ (draftOf nodes wires d).matchOn.map Prod.fst ↔
      k ∈ (routeKeys (routeOf nodes wires d.id) ++
        (coneOf nodes wires d.id).filterMap (setPath nodes wires)).dedup := by
    intro k
    rw [draftOf_matchOn, mem_keys_foldl_mapSet, routeMatch_keys, List.mem_dedup, List.mem_append]
    refine or_congr_right ?_
    rw [List.map_filterMap]
    simp
  -- both lists are without duplicates
  have hperm := (List.perm_ext_iff_of_nodup draftOf_nodup (List.nodup_dedup _)).2 hkeys
  rw [← hperm.length_eq, List.length_map]

/-- **When the match of a decision loads**: at most 32 fields, a path in each, and operands of the
right size. A field of the route counts only where no comparison sets the same path. -/
theorem accepts_match (hmatch : (draftOf nodes wires d).matchOn ≠ []) :
    Accepts (Schema.matchFields xprDialect) (.obj .ordinary (draftOf nodes wires d).matchOn) ↔
      (routeKeys (routeOf nodes wires d.id) ++
        (coneOf nodes wires d.id).filterMap (setPath nodes wires)).dedup.length ≤ 32 ∧
      (∀ r, routeOf nodes wires d.id = some r → ∀ key ∈ [js "contract", js "action"],
        lastSetter nodes wires d key = none → ∀ v, r.fields.truthy key = some v →
          ∃ s, v = .str s ∧ ucs2length s ≤ 256) ∧
      ∀ path n, lastSetter nodes wires d path = some n → OperandLoads n := by
  have hsets : ∀ {path n}, lastSetter nodes wires d path = some n →
      setPath nodes wires n = some path := by
    intro path n hn
    have hfound := List.find?_some hn
    exact of_decide_eq_true hfound
  have hlen : 1 ≤ (draftOf nodes wires d).matchOn.length := List.length_pos_iff.2 hmatch
  rw [accepts_matchFields, ← draftOf_length, and_assoc, and_iff_right hlen]
  refine and_congr_right fun _ => ?_
  constructor
  · intro h
    have hvalue : ∀ {k v}, (draftOf nodes wires d).matchOn.lookup k = some v →
        Accepts matchValue v := fun hv => (h _ ((lookup_iff_mem draftOf_nodup).1 hv)).2
    refine ⟨fun r hr key hkey hlast v hv => ?_, fun path n hn => ?_⟩
    · have hlook : (draftOf nodes wires d).matchOn.lookup key = some v.toJson := by
        rw [draftOf_lookup, hlast, Option.map_none, Option.none_or, hr]
        exact lookup_routeMatch.2 ⟨r, rfl, hkey, v, hv, rfl⟩
      cases v with
      | str s => exact ⟨s, rfl, (accepts_lit.1 (hvalue hlook)).2⟩
      | bool b =>
        obtain ⟨x, hx⟩ := hvalue hlook
        cases hx
    · have hlook : (draftOf nodes wires d).matchOn.lookup path = some (operand n) := by
        rw [draftOf_lookup, hn]
        rfl
      exact (accepts_operand (hsets hn)).1 (hvalue hlook)
  · rintro ⟨hroute, hoperands⟩ ⟨k, v⟩ hm
    have hlook := (lookup_iff_mem draftOf_nodup).2 hm
    rw [draftOf_lookup] at hlook
    -- the last condition on a path decides, and where there is none the Route If
    cases hlast : lastSetter nodes wires d k with
    | some n =>
      rw [hlast, Option.map_some, Option.some_or, Option.some.injEq] at hlook
      rw [← hlook]
      exact ⟨setPath_pattern (hsets hlast), (accepts_operand (hsets hlast)).2 (hoperands k n hlast)⟩
    | none =>
      rw [hlast, Option.map_none, Option.none_or] at hlook
      obtain ⟨r, hr, hk, u, hu, rfl⟩ := lookup_routeMatch.1 hlook
      obtain ⟨s, rfl, hs⟩ := hroute r hr k hk hlast u hu
      refine ⟨?_, accepts_lit.2 ⟨one_le_ucs2length (truthy_str hu), hs⟩⟩
      simp only [List.mem_cons, List.not_mem_nil, or_false] at hk
      rcases hk with rfl | rfl
      · exact show MATCH_PATH_PATTERN (js "contract") = true by decide
      · exact show MATCH_PATH_PATTERN (js "action") = true by decide

/-- **When the rows of a decision load**: at most eight of them, each with texts that are in
size. -/
theorem accepts_rows (hkept : ∀ n ∈ coneOf nodes wires d.id, ¬ Rejects nodes wires n)
    (hrows : (draftOf nodes wires d).providers ≠ []) :
    Accepts (array 1 8 (provider xprDialect)) (.arr (draftOf nodes wires d).providers) ↔
      ((coneOf nodes wires d.id).filterMap (rowOf nodes wires)).length ≤ 8 ∧
        ∀ n ∈ coneOf nodes wires d.id, RowLoads nodes wires n := by
  have hlength : (draftOf nodes wires d).providers.length =
      ((coneOf nodes wires d.id).filterMap (rowOf nodes wires)).length := by
    rw [draftOf_providers hkept]
    generalize coneOf nodes wires d.id = cone
    induction cone with
    | nil => rfl
    | cons n cone ih =>
      cases hrow : rowOf nodes wires n with
      | none => simp [hrow, ih]
      | some row => simp [hrow, ih]
  have hpos : 1 ≤ (draftOf nodes wires d).providers.length := List.length_pos_iff.2 hrows
  rw [accepts_array, and_iff_right hpos, hlength, draftOf_providers hkept]
  refine and_congr_right fun _ => ?_
  simp only [List.mem_filterMap, forall_exists_index, and_imp]
  constructor
  · intro h n hn row hrow
    have haccepts := h _ n hn (show (rowOf nodes wires n).map (rowProvider n) = some _ by
      rw [hrow, Option.map_some])
    exact (accepts_provider.1 haccepts).2
  · intro h v n hn hv
    obtain ⟨row, hrow, rfl⟩ := Option.map_eq_some_iff.1 hv
    exact accepts_provider.2 ⟨(compileNode_row (hkept n hn)).2 row hrow, h n hn row hrow⟩

section
variable (nodes wires d)

/-- The id of the rule of a decision. -/
def ruleSlug : JsString :=
  slug (d.fields.text (js "effect") :: match routeOf nodes wires d.id with
    | some r => [r.fields.text (js "contract"), r.fields.text (js "action")]
    | none => [d.fields.text (js "effect")])

theorem compileRule_id : (compileRule nodes wires d).1.id = ruleSlug nodes wires d := rfl

end

theorem ruleSlug_valid (h : d.fields.text (js "effect") = js "allow" ∨
    d.fields.text (js "effect") = js "deny") : ruleIdPattern (ruleSlug nodes wires d) = true := by
  unfold ruleSlug
  rcases h with h | h
  · rw [h]
    exact slug_valid (u := unit 'a') (by decide) (js "llow") _
  · rw [h]
    exact slug_valid (u := unit 'd') (by decide) (js "eny") _

/-- **When the limits of a decision load**: a decision that denies, or does not use its limits, has
none to load. -/
theorem accepts_ruleLimits :
    (∀ l, (compileRule nodes wires d).1.limits = some l → d.fields.text (js "effect") ≠ js "deny" ∧
      Accepts Schema.limits (.obj .ordinary l) ∧ Schema.Parses l) ↔
    (d.fields.isTrue (js "useLimit") = true → d.fields.isText (js "effect") (js "allow") = true →
      LimitsLoad d.fields) := by
  have hlimits : (compileRule nodes wires d).1.limits =
      if (if d.fields.isTrue (js "useLimit") = true ∧
          d.fields.isText (js "effect") (js "allow") = true then compileLimits d.fields
        else []).length > 0 then
        some (if d.fields.isTrue (js "useLimit") = true ∧
          d.fields.isText (js "effect") (js "allow") = true then compileLimits d.fields else [])
      else none := rfl
  rw [hlimits]
  -- a decision that denies, or does not use its limits, has none
  by_cases huse : d.fields.isTrue (js "useLimit") = true ∧
      d.fields.isText (js "effect") (js "allow") = true
  · have hallow : d.fields.text (js "effect") ≠ js "deny" := by
      have hlook : d.fields.lookup (js "effect") = some (.str (js "allow")) :=
        of_decide_eq_true huse.2
      rw [Fields.text, hlook]
      decide
    have himp : (d.fields.isTrue (js "useLimit") = true →
        d.fields.isText (js "effect") (js "allow") = true → LimitsLoad d.fields) ↔
          LimitsLoad d.fields := ⟨fun h => h huse.1 huse.2, fun h _ _ => h⟩
    rw [himp, if_pos huse, ← limitsLoad_iff]
    cases hl : compileLimits d.fields with
    -- limits without a member are left out of the rule
    | nil => simp [Schema.Parses]
    | cons m ms =>
      have hnd : ((m :: ms).map Prod.fst).Nodup := hl ▸ compileLimits_nodup
      have hlen : (m :: ms).length > 0 := Nat.zero_lt_succ ms.length
      simp only [if_pos hlen, Option.some.injEq, forall_eq', accepts_limits hnd]
      constructor
      · rintro ⟨-, ⟨-, hmembers⟩, hparses⟩
        exact ⟨hmembers, hparses⟩
      · rintro ⟨hmembers, hparses⟩
        exact ⟨hallow, ⟨hlen, hmembers⟩, hparses⟩
  · simp only [if_neg huse, List.length_nil, gt_iff_lt, lt_self_iff_false, if_false, reduceCtorEq,
      false_imp_iff, implies_true, true_iff]
    intro htrue htext
    exact absurd ⟨htrue, htext⟩ huse

/-- **When a rule loads**, for a decision whose rule is kept and has a match: exactly when each of
its parts does. -/
theorem ruleLoads_iff (hkept : ∀ n ∈ coneOf nodes wires d.id, ¬ Rejects nodes wires n)
    (hmatch : (draftOf nodes wires d).matchOn ≠ []) :
    (∃ q, rule xprDialect (compileRule nodes wires d).1.toJson = some q ∧ q.Valid xprDialect) ↔
      RuleLoads nodes wires d := by
  have hproviders : (compileRule nodes wires d).1.providers =
      if (draftOf nodes wires d).providers.length > 0 then some (draftOf nodes wires d).providers
      else none := rfl
  have hrows : (∀ ps, (compileRule nodes wires d).1.providers = some ps →
      Accepts (array 1 8 (provider xprDialect)) (.arr ps)) ↔
        ((coneOf nodes wires d.id).filterMap (rowOf nodes wires)).length ≤ 8 ∧
          ∀ n ∈ coneOf nodes wires d.id, RowLoads nodes wires n := by
    -- a rule without rows has no `providers`
    by_cases hnil : (draftOf nodes wires d).providers = []
    · have hnone : ∀ n ∈ coneOf nodes wires d.id, rowOf nodes wires n = none := by
        intro n hn
        rw [draftOf_providers hkept, List.filterMap_eq_nil_iff] at hnil
        exact Option.map_eq_none_iff.1 (hnil n hn)
      have hzero : (coneOf nodes wires d.id).filterMap (rowOf nodes wires) = [] :=
        List.filterMap_eq_nil_iff.2 hnone
      rw [hproviders, hnil, hzero]
      refine iff_of_true (by simp) ⟨Nat.zero_le 8, fun n hn row hrow => ?_⟩
      rw [hnone n hn] at hrow
      cases hrow
    · have hlen : (draftOf nodes wires d).providers.length > 0 := List.length_pos_iff.2 hnil
      rw [hproviders, if_pos hlen, ← accepts_rows hkept hnil]
      simp
  rw [reads_rule, hrows, compileRule_id]
  change ruleIdPattern (ruleSlug nodes wires d) = true ∧ (d.fields.text (js "effect") = js "allow" ∨
    d.fields.text (js "effect") = js "deny") ∧ Accepts (Schema.matchFields xprDialect)
      (.obj .ordinary (draftOf nodes wires d).matchOn) ∧ (∀ l, (compileRule nodes wires d).1.limits =
        some l → d.fields.text (js "effect") ≠ js "deny" ∧ Accepts Schema.limits (.obj .ordinary l) ∧
          Schema.Parses l) ∧ _ ↔ _
  rw [accepts_match hmatch, accepts_ruleLimits]
  constructor
  · rintro ⟨-, heffect, ⟨hpaths, hroute, hoperands⟩, hlimits, hcount, hrow⟩
    exact ⟨heffect, hpaths, hroute, hoperands, hcount, hrow, hlimits⟩
  · intro h
    exact ⟨ruleSlug_valid h.effect, h.effect, ⟨h.paths, h.route, h.operands⟩, h.limits, h.rows,
      h.row⟩

/-! ## The policy -/

section
variable (nodes : List GraphNode) (wires : List Wire) (p : GraphNode)

/-- A decision that gets a rule: it is wired to the policy, nothing drops it, and its `match` is
not empty. -/
structure Ruled (d : GraphNode) : Prop where
  decision : d.type = .decision
  feeds : Feeds wires d.id p.id
  kept : ∀ n ∈ coneOf nodes wires d.id, ¬ Rejects nodes wires n
  matched : Routed nodes wires d.id ∨ ∃ n ∈ coneOf nodes wires d.id, Constrains nodes wires n

/-- **A graph whose policy loads**: it denies by default, its count of actions is in range, it has
at most 256 rules, each of them loads, and no two get one id. -/
structure Loads : Prop where
  default : p.fields.text (js "default") = js "deny"
  maxActions : CountLoads 64 (p.fields.text (js "maxActions"))
  rules : ∀ d ∈ nodes, Ruled nodes wires p d → RuleLoads nodes wires d
  ids : ∀ d ∈ nodes, ∀ e ∈ nodes, Ruled nodes wires p d → Ruled nodes wires p e →
    ruleSlug nodes wires d = ruleSlug nodes wires e → d = e
  few : ∀ ds : List GraphNode, ds.Nodup → (∀ d ∈ ds, d ∈ nodes ∧ Ruled nodes wires p d) →
    ds.length ≤ 256

/-- The decisions of a graph that get a rule, from top to bottom. -/
def ruledOf : List GraphNode :=
  (decisionsOf nodes wires p).filter fun d => (compileDecision nodes wires d).1.isSome

end

variable {p : GraphNode}

theorem compileDecision_some {r : CompiledRule} (h : (compileDecision nodes wires d).1 = some r) :
    r = (compileRule nodes wires d).1 := by
  unfold compileDecision at h
  simp only at h
  split_ifs at h
  exact (Option.some.inj h).symm

theorem compiledRules_snd : (compiledRules nodes wires p).map Prod.snd =
    (ruledOf nodes wires p).map fun d => (compileRule nodes wires d).1 := by
  unfold compiledRules ruledOf
  induction decisionsOf nodes wires p with
  | nil => rfl
  | cons d ds ih =>
    cases hrule : (compileDecision nodes wires d).1 with
    | none => simp [hrule, ih]
    | some r => simp [hrule, ih, compileDecision_some hrule]

theorem isSome_compileDecision : (compileDecision nodes wires d).1.isSome = true ↔
    (∀ n ∈ coneOf nodes wires d.id, ¬ Rejects nodes wires n) ∧
      (Routed nodes wires d.id ∨ ∃ n ∈ coneOf nodes wires d.id, Constrains nodes wires n) := by
  rw [Option.isSome_iff_ne_none, ne_eq, compileDecision_none]
  simp only [not_exists, not_and, not_not, not_forall, exists_prop, or_iff_not_imp_left]

theorem mem_ruledOf : d ∈ ruledOf nodes wires p ↔ d ∈ nodes ∧ Ruled nodes wires p d := by
  rw [ruledOf, List.mem_filter, mem_decisionsOf, isSome_compileDecision]
  constructor
  · rintro ⟨⟨hd, htype, hfeeds⟩, hkept, hmatched⟩
    exact ⟨hd, htype, hfeeds, hkept, hmatched⟩
  · rintro ⟨hd, h⟩
    exact ⟨⟨hd, h.decision, h.feeds⟩, h.kept, h.matched⟩

theorem ruledOf_nodup (h : nodes.Nodup) : (ruledOf nodes wires p).Nodup := by
  have hdecisions : (decisionsOf nodes wires p).Nodup :=
    (List.perm_insertionSort _ _).nodup_iff.2 (h.filter _)
  exact hdecisions.filter _

theorem Ruled.match_ne_nil (h : Ruled nodes wires p d) :
    (draftOf nodes wires d).matchOn ≠ [] := by
  intro hnil
  obtain ⟨hroute, hnone⟩ := (foldl_matchOn _ _).1 hnil
  rcases h.matched with hrouted | ⟨n, hn, hconstrains⟩
  · exact routeMatch_nil.1 hroute hrouted
  · exact hnone n hn hconstrains

/-- **When the policy of a graph loads**: for a chain id of the right form, the daemon validates
the compiled policy exactly when the graph loads. Both sides are about one compilation. -/
theorem loads_iff {chainId : JsString} {result : CompileResult} (hnodup : nodes.Nodup)
    (hpolicy : nodes.find? (fun n => n.type = .policy) = some p)
    (hchain : CHAIN_ID_PATTERN chainId = true)
    (hresult : compilePolicy nodes wires chainId = some result) :
    (∃ policy, validatePolicy result.policy.toJson xprDialect = .ok policy) ↔
      Loads nodes wires p := by
  rw [compilePolicy, hpolicy, Option.map_some, Option.some.injEq] at hresult
  rw [← hresult, validatePolicy_accepts]
  simp only
  rw [compiledRules_snd, accepts_parseCount (by norm_num) (by norm_num), List.length_map,
    List.map_map, List.nodup_map_iff_inj_on (ruledOf_nodup hnodup)]
  simp only [List.forall_mem_map, mem_ruledOf, Function.comp_apply, compileRule_id]
  constructor
  · rintro ⟨hdefault, -, hmax, hlen, hrules, hids⟩
    refine ⟨hdefault, hmax, fun d hd hruled => ?_, fun d hd e he hr hr' hslug => ?_, ?_⟩
    · exact (ruleLoads_iff hruled.kept hruled.match_ne_nil).1 (hrules d ⟨hd, hruled⟩)
    · exact hids d ⟨hd, hr⟩ e ⟨he, hr'⟩ hslug
    · intro ds hds hall
      have hsub : ds ⊆ ruledOf nodes wires p := fun d hd => mem_ruledOf.2 (hall d hd)
      exact (hds.subperm hsub).length_le.trans hlen
  · intro h
    refine ⟨h.default, hchain, h.maxActions, ?_, fun d hd => ?_, fun d hd e he hslug => ?_⟩
    · exact h.few _ (ruledOf_nodup hnodup) fun d hd => mem_ruledOf.1 hd
    · exact (ruleLoads_iff hd.2.kept hd.2.match_ne_nil).2 (h.rules d hd.1 hd.2)
    · exact h.ids d hd.1 e he.1 hd.2 he.2 hslug

/-- **What the editor compiles loads exactly when its texts fit**, on every graph that a session
reaches. Such a graph has a policy node, so there is always something to compile; `Loads` says of
its nodes what the schema asks of the compiled policy. -/
theorem loads_session {s : GraphState} {chainId : JsString} (h : Reachable s)
    (hchain : CHAIN_ID_PATTERN chainId = true) :
    ∃ p ∈ s.nodes, p.type = .policy ∧ ∃ result, compilePolicy s.nodes s.wires chainId = some result ∧
      ((∃ policy, validatePolicy result.policy.toJson xprDialect = .ok policy) ↔
        Loads s.nodes s.wires p) := by
  have hsound : Sound s := sound_of_reachable h
  obtain ⟨p, hp, htype, hfind⟩ := hsound.find (show NodeType.policy.single = true from rfl)
  obtain ⟨result, hresult⟩ : ∃ result, compilePolicy s.nodes s.wires chainId = some result := by
    rw [compilePolicy, hfind, Option.map_some]
    exact ⟨_, rfl⟩
  exact ⟨p, hp, htype, result, hresult,
    loads_iff (List.Nodup.of_map _ hsound.ids_nodup) hfind hchain hresult⟩

/-! ## Two decisions for one route -/

namespace TwoDecisions

/-- A second decision, behind the Route If of the demo's first. -/
def state : GraphState :=
  reducer (reducer (reducer demoState (.addNode .decision 1050 400))
    (.addWire ⟨2, js "out"⟩ ⟨15, js "tx"⟩)) (.addWire ⟨15, js "out"⟩ ⟨14, js "in"⟩)

def policyNode : GraphNode :=
  mkNode 14 .policy 1320 400 [(js "default", .str (js "deny")), (js "maxActions", .str (js "1"))]

def chainId : JsString := List.replicate 64 (unit '0')

theorem reachable : Reachable state :=
  .step (.step (.step (.opened .demo) trivial) trivial) trivial

/-- **A policy that the daemon refuses.** The second decision gets the slug of the first, and the
schema refuses two rules with one id; so not all that the editor compiles loads. -/
theorem refused : ¬ ∀ (s : GraphState) (chainId : JsString), Reachable s →
    CHAIN_ID_PATTERN chainId = true → ∃ result, compilePolicy s.nodes s.wires chainId = some result ∧
      ∃ policy, validatePolicy result.policy.toJson xprDialect = .ok policy := by
  intro h
  obtain ⟨result, hresult, hloads⟩ := h state chainId reachable (by decide +kernel)
  have hpolicy : state.nodes.find? (fun n => n.type = .policy) = some policyNode := by
    decide +kernel
  rw [compilePolicy, hpolicy, Option.map_some, Option.some.injEq] at hresult
  rw [← hresult, validatePolicy_accepts] at hloads
  obtain ⟨-, -, -, -, -, hids⟩ := hloads
  rw [List.map_map] at hids
  have htwice : ¬ ((compiledRules state.nodes state.wires policyNode).map
      (CompiledRule.id ∘ Prod.snd)).Nodup := by decide +kernel
  exact htwice hids

/-- For the graph with two decisions of one slug there is something to compile, and whether it
loads is settled by its texts alone. -/
theorem loads_session_state : ∃ p ∈ state.nodes, p.type = .policy ∧
    ∃ result, compilePolicy state.nodes state.wires chainId = some result ∧
      ((∃ policy, validatePolicy result.policy.toJson xprDialect = .ok policy) ↔
        Loads state.nodes state.wires p) :=
  loads_session reachable (by decide +kernel)

-- the demo itself loads
example : ((compilePolicy demoState.nodes demoState.wires chainId).map fun r =>
    (validatePolicy r.policy.toJson xprDialect).isOk) = some true := by decide +kernel

end TwoDecisions

end Signbox
