import Signbox.Proof.Meaning
import Signbox.Proof.Permitted

/-!
# One condition, enforced and simulated

The engine checks an entry of a rule against the action it decoded, the simulator evaluates the
node that the entry was compiled from on the action it shows. Where both see the same value, what
the engine takes for true is true in the simulator. That what it takes for false is false there
needs a value that both compare in the same way.

* `Mirrors`: an action that the simulator shows as the daemon decodes it.
* `field_true`, `field_false`: a Compare or an In List, and its entry of `match`.
* `row_agrees`: a Contains on a table row, and its provider.
-/

namespace Signbox

open Guard

/-- The text that both take literally, or for the agent. Other variables mean different things to
the two. -/
def PlainText (v : JsString) : Prop := v = js "$agent" ∨ (js "$").isPrefixOf v = false

/-- A path at which the simulator shows what the daemon reads. Both resolve it to the same
value. -/
def MirrorsAt (act : DecodedAction) (a : Eval.SampleAction) (path : JsString) : Prop :=
  xprDialect.resolvePath act path = .ok (Eval.getPath a.value path)

/-- An action that the simulator shows as the daemon decodes it: the same names, and the agent as
its sender. -/
structure Mirrors (ctx : EvaluationContext) (act : DecodedAction) (a : Eval.SampleAction) : Prop where
  contract : a.contract = act.contract
  action : a.action = act.action
  sender : a.text (js "data.from") = ctx.agent
  agent : ctx.agent ≠ []

/-- An argument of a lookup that both resolve alike: it is not the agent's permission, and a path
mirrors. -/
def PlainArg (act : DecodedAction) (a : Eval.SampleAction) (v : JsString) : Prop :=
  v ≠ js "$agentPermission" ∧
    ((js "$").isPrefixOf v = true → v ≠ js "$agent" → MirrorsAt act a (v.drop 1))

variable {ctx : EvaluationContext} {act : DecodedAction} {a : Eval.SampleAction}
  {nodes : List GraphNode} {wires : List Wire} {n : GraphNode} {lookup : Eval.LookupResolver}

/-! ## Values -/

theorem substitute_agrees {v t : JsString} (hmirrors : Mirrors ctx act a) (hplain : PlainText v)
    (h : substitute v ctx = .ok t) : Eval.substitute v a = t := by
  unfold substitute at h
  unfold Eval.substitute
  by_cases hagent : v = js "$agent"
  · rw [if_pos hagent] at h ⊢
    rw [← Except.ok.inj h]
    exact hmirrors.sender
  · have hliteral : (js "$").isPrefixOf v = false := hplain.resolve_left hagent
    have hpermission : v ≠ js "$agentPermission" := by
      rintro rfl
      revert hliteral
      decide
    rw [if_neg hagent, if_neg hpermission] at h
    rw [if_neg hagent, hliteral]
    split_ifs at h
    exact Except.ok.inj h

theorem substituteArg_agrees {v t : JsString} (hdialect : ctx.dialect = xprDialect)
    (hmirrors : Mirrors ctx act a) (hplain : PlainArg act a v) (h : substituteArg v act ctx = .ok t) :
    Eval.substitute v a = t := by
  unfold substituteArg at h
  unfold Eval.substitute
  by_cases hagent : v = js "$agent"
  · have hvar : (js "$").isPrefixOf v = true := by
      rw [hagent]
      decide
    rw [if_neg (by simp [hvar]), if_pos hagent] at h
    rw [if_pos hagent, ← Except.ok.inj h]
    exact hmirrors.sender
  · rw [if_neg hagent]
    cases hvar : (js "$").isPrefixOf v with
    | false =>
      rw [if_pos (by simp [hvar])] at h
      exact Except.ok.inj h
    | true =>
      rw [if_neg (by simp [hvar]), if_neg hagent, if_neg hplain.1, hdialect] at h
      have hat : PolicyDialect.resolvePath Signbox.xprDialect act (v.drop 1) =
          .ok (Eval.getPath a.value (v.drop 1)) := hplain.2 hvar hagent
      rw [hat] at h
      -- what resolves to a text resolves to it in both
      cases hstr : (Eval.getPath a.value (v.drop 1)).str? with
      | none =>
        simp only [hstr, bind, Except.bind] at h
        cases h
      | some s =>
        simp only [hstr, bind, Except.bind, pure, Except.pure] at h
        exact Except.ok.inj h

/-! ## Fields -/

/-- **A field that both compare alike**: a text under a text operator, or nothing at all; under a
bound, an amount that is not another one that reads as the same double. -/
def ComparedAlike (n : GraphNode) (v : JsValue) : Prop :=
  match n.type with
  | .compare =>
    if n.fields.text (js "op") = js "eq" then v.str?.isSome = true ∨ v.isNullish = true
    else ∀ t o, v.toText = .ok t → compareOrdered v (n.fields.text (js "value")) = .ok o →
      parseFloat t = parseFloat (n.fields.text (js "value")) → o = .eq
  | _ => v.str?.isSome = true ∨
    (v.isNullish = true ∧ n.fields.isText (js "mode") (js "notin") = false)

/-- The texts that a Compare or an In List compares with. -/
def PlainOperand (n : GraphNode) : Prop :=
  match n.type with
  | .compare => PlainText (n.fields.text (js "value"))
  | _ => ∀ s ∈ listOf (n.fields.text (js "list")), PlainText s

theorem str?_some {v : JsValue} {s : JsString} (h : v.str? = some s) : v = .json (.str s) := by
  unfold JsValue.str? at h
  split at h
  · rw [Option.some.inj h]
  · cases h

theorem equalsText_true {v : JsValue} {expected : JsString} :
    equalsText v expected ctx = .ok true ↔
      ∃ s, v = .json (.str s) ∧ substitute expected ctx = .ok s := by
  unfold equalsText
  cases hstr : v.str? with
  | none =>
    refine iff_of_false (by simp) ?_
    rintro ⟨s, rfl, -⟩
    cases hstr
  | some s =>
    simp only [bind_ok, pure_eq, Except.ok.injEq]
    constructor
    · rintro ⟨t, ht, heq⟩
      exact ⟨s, str?_some hstr, by rw [ht, eq_of_beq heq]⟩
    · rintro ⟨s', heq, ht⟩
      rw [heq] at hstr
      exact ⟨s', ht, by rw [← Option.some.inj hstr, beq_self_eq_true]⟩

theorem equalsText_false {v : JsValue} {expected : JsString}
    (h : equalsText v expected ctx = .ok false) (hv : v.str?.isSome = true) :
    ∃ s t, v = .json (.str s) ∧ substitute expected ctx = .ok t ∧ s ≠ t := by
  unfold equalsText at h
  obtain ⟨s, hs⟩ := Option.isSome_iff_exists.1 hv
  simp only [hs, bind_ok, pure_eq, Except.ok.injEq] at h
  obtain ⟨t, ht, hne⟩ := h
  exact ⟨s, t, str?_some hs, ht, by simpa using hne⟩

/-- A bound that an amount or an integer was compared with is no variable. -/
theorem substitute_bound {v : JsValue} {bound : JsString} {o : Ordering}
    (h : compareOrdered v bound = .ok o) : Eval.substitute bound a = bound := by
  have hdigit : ∃ u us, bound = u :: us ∧ isDigit u = true := by
    unfold compareOrdered at h
    split at h
    · simp only [bind_ok] at h
      obtain ⟨-, -, b, hb, -⟩ := h
      unfold parseBareAmount at hb
      cases hm : matchBareAmount bound with
      | none =>
        rw [hm] at hb
        cases hb
      | some m =>
        obtain ⟨int, frac⟩ := m
        obtain ⟨hint, -, rfl⟩ := matchBareAmount_iff.1 hm
        obtain ⟨u, us, rfl⟩ := List.exists_cons_of_ne_nil hint.1
        have hu : isDigit u = true := hint.2 u List.mem_cons_self
        cases frac with
        | none => exact ⟨u, us, rfl, hu⟩
        | some f => exact ⟨u, us ++ unit '.' :: f, rfl, hu⟩
    · split at h
      · split_ifs at h with hdigits
        obtain ⟨u, us, rfl⟩ := List.exists_cons_of_ne_nil hdigits.1
        exact ⟨u, us, rfl, List.all_eq_true.1 hdigits.2 u List.mem_cons_self⟩
      · cases h
    · cases h
  obtain ⟨u, us, rfl, hu⟩ := hdigit
  have hne : (unit '$' == u) = false := by
    rw [beq_eq_false_iff_ne]
    rintro rfl
    revert hu
    decide
  have hvar : (js "$").isPrefixOf (u :: us) = false := by
    rw [show js "$" = [unit '$'] from by decide, List.isPrefixOf_cons_cons, hne, Bool.false_and]
  have hagent : u :: us ≠ js "$agent" := by
    intro heq
    rw [heq] at hvar
    revert hvar
    decide
  rw [Eval.substitute, if_neg hagent, hvar]
  rfl

/-- **A list that both look a text up in.** The daemon substitutes in each entry and compares, the
simulator looks the text up in the substituted list; with plain entries these are the same. -/
theorem inList_agrees {s : JsString} {b : Bool} (hmirrors : Mirrors ctx act a)
    (hplain : ∀ v ∈ listOf (n.fields.text (js "list")), PlainText v)
    (h : ((listOf (n.fields.text (js "list"))).anyM fun v => return s == (← substitute v ctx)) =
      .ok b) : (Eval.listItems n.fields a).contains s = b := by
  -- nothing that is substituted is empty, so the simulator does not drop it
  have hne : ∀ {v t}, v ∈ listOf (n.fields.text (js "list")) → substitute v ctx = .ok t → t ≠ [] := by
    intro v t hv ht
    unfold substitute at ht
    split_ifs at ht with hagent hpermission
    · rw [← Except.ok.inj ht]
      exact hmirrors.agent
    · have hvar := (hplain v hv).resolve_left hagent
      rw [hpermission] at hvar
      exact absurd hvar (by decide)
    · rw [← Except.ok.inj ht]
      exact listOf_ne_nil hv
  -- the entries of the list, as the compiler and as the simulator cut them
  have hmem : ∀ {v}, v ∈ listOf (n.fields.text (js "list")) ↔ v ≠ [] ∧
      ∃ x ∈ JsString.split (unit ',') (n.fields.text (js "list")), JsString.trim x = v := by
    intro v
    rw [listOf, List.mem_filter, List.mem_map, decide_eq_true_eq, and_comm]
  have hcontains : (Eval.listItems n.fields a).contains s = true ↔ s ≠ [] ∧
      ∃ v ∈ listOf (n.fields.text (js "list")), Eval.substitute v a = s := by
    rw [List.contains_iff_mem, Eval.listItems, List.mem_filter, List.mem_map, decide_eq_true_eq,
      and_comm]
    refine and_congr_right fun hs => ⟨?_, ?_⟩
    · rintro ⟨x, hx, heq⟩
      refine ⟨JsString.trim x, hmem.2 ⟨?_, x, hx, rfl⟩, heq⟩
      intro hnil
      rw [hnil] at heq
      exact hs heq.symm
    · rintro ⟨v, hv, heq⟩
      obtain ⟨-, x, hx, rfl⟩ := hmem.1 hv
      exact ⟨x, hx, heq⟩
  -- the daemon stops at the first entry that matches, and the simulator looks at all of them
  cases b with
  | true =>
    obtain ⟨v, hfirst⟩ := anyM_ok_true.1 h
    have hholds := hfirst.holds
    simp only [bind_ok, pure_eq, Except.ok.injEq] at hholds
    obtain ⟨t, ht, heq⟩ := hholds
    rw [← show s = t from eq_of_beq heq] at ht
    exact hcontains.2 ⟨hne hfirst.mem ht, v, hfirst.mem,
      substitute_agrees hmirrors (hplain v hfirst.mem) ht⟩
  | false =>
    rw [anyM_ok_false] at h
    refine Bool.eq_false_iff.2 fun htrue => ?_
    obtain ⟨-, v, hv, heq⟩ := hcontains.1 htrue
    have hholds := h v hv
    simp only [bind_ok, pure_eq, Except.ok.injEq] at hholds
    obtain ⟨t, ht, hne⟩ := hholds
    rw [substitute_agrees hmirrors (hplain v hv) ht] at heq
    rw [heq, beq_self_eq_true] at hne
    cases hne

/-- How the daemon reads what a node sets its path to. -/
theorem matchValue_operand {path : JsString} {expected : MatchValue}
    (hpath : setPath nodes wires n = some path)
    (h : Schema.matchValue (operand n) = some expected) :
    (n.type = .compare ∧
      ((n.fields.text (js "op") = js "eq" ∧ expected = .lit (n.fields.text (js "value"))) ∨
        (n.fields.text (js "op") = js "lte" ∧ expected = .lte (n.fields.text (js "value"))) ∨
        (n.fields.text (js "op") = js "gte" ∧ expected = .gte (n.fields.text (js "value"))))) ∨
    (n.type = .inlist ∧
      if n.fields.isText (js "mode") (js "notin") then
        expected = .notIn (listOf (n.fields.text (js "list")))
      else expected = .isIn (listOf (n.fields.text (js "list")))) := by
  -- texts and lists are read back as they were written into the operand
  have htext : ∀ {lo hi s t}, Schema.text lo hi (.str s) = some t → t = s := by
    intro lo hi s t ht
    simp only [Schema.text, Option.ite_none_right_eq_some, Option.some.injEq] at ht
    exact ht.2.symm
  have hlist : ∀ {xs}, Schema.array 1 256 (Schema.text 1 256)
      (.arr ((listOf (n.fields.text (js "list"))).map .str)) = some xs →
        xs = listOf (n.fields.text (js "list")) := by
    intro xs hxs
    obtain ⟨vs, heq, -, hall⟩ := Schema.array_iff.1 hxs
    rw [← Json.arr.inj heq, List.forall₂_map_left_iff] at hall
    have heq : List.Forall₂ (fun s t => s = t) (listOf (n.fields.text (js "list"))) xs :=
      hall.imp fun _ _ h => (htext h).symm
    exact (List.forall₂_eq_eq_eq ▸ heq : listOf (n.fields.text (js "list")) = xs).symm
  unfold setPath at hpath
  unfold operand at h
  -- only a comparison or a list sets a path
  cases htype : n.type
  case compare =>
    simp only [htype] at hpath h
    refine Or.inl ⟨rfl, ?_⟩
    split at hpath
    · next hop =>
      by_cases heq : n.fields.text (js "op") = js "eq"
      · rw [if_pos heq] at h
        obtain ⟨t, ht, hexpected⟩ := Option.map_eq_some_iff.1 h
        exact Or.inl ⟨heq, by rw [← hexpected, htext ht]⟩
      · rw [if_neg heq] at h
        simp only [boundedOps, List.mem_cons, List.not_mem_nil, or_false, heq, false_or] at hop
        rcases hop with hop | hop
        · rw [hop] at h
          obtain ⟨t, ht, hexpected⟩ := Option.map_eq_some_iff.1 h
          exact Or.inr (Or.inl ⟨hop, by rw [← hexpected, htext ht]⟩)
        · rw [hop] at h
          obtain ⟨t, ht, hexpected⟩ := Option.map_eq_some_iff.1 h
          exact Or.inr (Or.inr ⟨hop, by rw [← hexpected, htext ht]⟩)
    · cases hpath
  case inlist =>
    simp only [htype] at h
    refine Or.inr ⟨rfl, ?_⟩
    cases hmode : n.fields.isText (js "mode") (js "notin") with
    | true =>
      rw [hmode] at h
      obtain ⟨t, ht, hexpected⟩ := Option.map_eq_some_iff.1 h
      rw [if_pos rfl, ← hexpected, hlist ht]
    | false =>
      rw [hmode] at h
      obtain ⟨t, ht, hexpected⟩ := Option.map_eq_some_iff.1 h
      rw [if_neg (by simp), ← hexpected, hlist ht]
  all_goals simp [htype] at hpath

/-! ## One entry -/

theorem includedIn_str (list : List JsString) (s : JsString) :
    Eval.includedIn list (.of (.json (.str s))) = .ok (list.contains s) := rfl

theorem compare_eq (s expected : JsString) :
    Eval.compare (.of (.json (.str s))) (js "eq") expected = .ok (decide (s = expected)) := by
  simp [Eval.compare, Eval.Value.isNullish, JsValue.isNullish, Eval.Value.toText, JsValue.toText,
    Json.toText, bind, Except.bind, pure, Except.pure]

theorem compare_nullish {v : JsValue} {op expected : JsString} (h : v.isNullish = true) :
    Eval.compare (.of v) op expected = .ok false := by
  simp [Eval.compare, Eval.Value.isNullish, h]

theorem compare_lte {v : JsValue} {t expected : JsString} (hnull : ¬ v.isNullish = true)
    (ht : v.toText = .ok t) : Eval.compare (.of v) (js "lte") expected =
      .ok ((parseFloat t).le (parseFloat expected)) := by
  have hop : js "lte" ≠ js "eq" ∧ js "lte" ≠ js "neq" ∧ js "lte" ≠ js "between" := by decide
  simp [Eval.compare, Eval.Value.isNullish, hnull, Eval.Value.toText, ht, hop, bind, Except.bind,
    pure, Except.pure]

theorem compare_gte {v : JsValue} {t expected : JsString} (hnull : ¬ v.isNullish = true)
    (ht : v.toText = .ok t) : Eval.compare (.of v) (js "gte") expected =
      .ok ((parseFloat expected).le (parseFloat t)) := by
  have hop : js "gte" ≠ js "eq" ∧ js "gte" ≠ js "neq" ∧ js "gte" ≠ js "between" ∧
      js "gte" ≠ js "lte" := by decide
  simp [Eval.compare, Eval.Value.isNullish, hnull, Eval.Value.toText, ht, hop, bind, Except.bind,
    pure, Except.pure]

theorem apply_compare {v : JsValue} {b : Bool} (htype : n.type = .compare)
    (h : Eval.compare (.of v) (n.fields.text (js "op"))
      (Eval.substitute (n.fields.text (js "value")) a) = .ok b) :
    Eval.apply lookup a n [.of v] = .ok (.bool b) := by
  simp only [Eval.apply, htype, List.head?_cons, Option.getD_some, h, bind, Except.bind, pure,
    Except.pure]

theorem apply_inlist {v : JsValue} {b : Bool} (htype : n.type = .inlist)
    (h : Eval.includedIn (Eval.listItems n.fields a) (.of v) = .ok b) :
    Eval.apply lookup a n [.of v] =
      .ok (.bool (if n.fields.isText (js "mode") (js "notin") then !b else b)) := by
  simp only [Eval.apply, htype, List.head?_cons, Option.getD_some, h, bind, Except.bind, pure,
    Except.pure]

/-- A text is in the list, or not. -/
theorem predicateHolds_in {v : JsValue} {vs : List JsString} {b : Bool}
    (h : predicateHolds v (.isIn vs) ctx = .ok b) :
    (∃ s, v = .json (.str s) ∧
      (vs.anyM fun v => return s == (← substitute v ctx)) = .ok b) ∨ (v.str? = none ∧ b = false) := by
  unfold predicateHolds at h
  simp only at h
  split at h
  · next s hs => exact Or.inl ⟨s, str?_some hs, h⟩
  · next hs => exact Or.inr ⟨hs, (Except.ok.inj h).symm⟩

theorem predicateHolds_notIn {v : JsValue} {vs : List JsString} {b : Bool}
    (h : predicateHolds v (.notIn vs) ctx = .ok b) :
    (∃ s, v = .json (.str s) ∧
      (vs.anyM fun v => return s == (← substitute v ctx)) = .ok (!b)) ∨
        (v.str? = none ∧ b = false) := by
  unfold predicateHolds at h
  simp only at h
  split at h
  · next s hs =>
    simp only [bind_ok, pure_eq, Except.ok.injEq] at h
    obtain ⟨c, hc, rfl⟩ := h
    exact Or.inl ⟨s, str?_some hs, by rw [Bool.not_not]; exact hc⟩
  · next hs => exact Or.inr ⟨hs, (Except.ok.inj h).symm⟩

/-- A bound compares with what is there. -/
theorem predicateHolds_lte {v : JsValue} {bound : JsString} {b : Bool}
    (h : predicateHolds v (.lte bound) ctx = .ok b) : (v.isNullish = true ∧ b = false) ∨
      (¬ v.isNullish = true ∧ ∃ o, compareOrdered v bound = .ok o ∧ (o != .gt) = b) := by
  unfold predicateHolds at h
  simp only at h
  split at h
  · next hnull => exact Or.inl ⟨hnull, (Except.ok.inj h).symm⟩
  · next hnull =>
    simp only [bind_ok, pure_eq, Except.ok.injEq] at h
    exact Or.inr ⟨hnull, h⟩

theorem predicateHolds_gte {v : JsValue} {bound : JsString} {b : Bool}
    (h : predicateHolds v (.gte bound) ctx = .ok b) : (v.isNullish = true ∧ b = false) ∨
      (¬ v.isNullish = true ∧ ∃ o, compareOrdered v bound = .ok o ∧ (o != .lt) = b) := by
  unfold predicateHolds at h
  simp only at h
  split at h
  · next hnull => exact Or.inl ⟨hnull, (Except.ok.inj h).symm⟩
  · next hnull =>
    simp only [bind_ok, pure_eq, Except.ok.injEq] at h
    exact Or.inr ⟨hnull, h⟩

/-- **What the daemon takes for true is true in the simulator**, for a node that sets a path and a
value that the path resolves to. No condition on how the two compare is needed in this direction,
because rounding keeps the order. -/
theorem field_true {path : JsString} {expected : MatchValue} {v : JsValue}
    (hmirrors : Mirrors ctx act a) (hplain : PlainOperand n)
    (hpath : setPath nodes wires n = some path)
    (hread : Schema.matchValue (operand n) = some expected)
    (h : predicateHolds v expected ctx = .ok true) :
    Eval.apply lookup a n [.of v] = .ok (.bool true) := by
  unfold PlainOperand at hplain
  rcases matchValue_operand hpath hread with ⟨htype, hcompare⟩ | ⟨htype, hlist⟩
  · simp only [htype] at hplain
    refine apply_compare htype ?_
    rcases hcompare with ⟨hop, rfl⟩ | ⟨hop, rfl⟩ | ⟨hop, rfl⟩
    · obtain ⟨s, rfl, hs⟩ := equalsText_true.1 h
      rw [hop, compare_eq, substitute_agrees hmirrors hplain hs, decide_eq_true rfl]
    · rcases predicateHolds_lte h with ⟨-, hfalse⟩ | ⟨hnull, o, ho, hle⟩
      · cases hfalse
      · obtain ⟨t, ht, hdouble, -⟩ := compareOrdered_le ho
        rw [hop, substitute_bound ho, compare_lte hnull ht, hdouble (by simpa using hle)]
    · rcases predicateHolds_gte h with ⟨-, hfalse⟩ | ⟨hnull, o, ho, hge⟩
      · cases hfalse
      · obtain ⟨t, ht, -, hdouble⟩ := compareOrdered_le ho
        rw [hop, substitute_bound ho, compare_gte hnull ht, hdouble (by simpa using hge)]
  · simp only [htype] at hplain
    cases hmode : n.fields.isText (js "mode") (js "notin") with
    | true =>
      rw [hmode, if_pos rfl] at hlist
      rw [hlist] at h
      rcases predicateHolds_notIn h with ⟨s, rfl, hs⟩ | ⟨-, hfalse⟩
      · rw [apply_inlist htype (includedIn_str _ s), inList_agrees hmirrors hplain hs, hmode]
        rfl
      · cases hfalse
    | false =>
      rw [hmode, if_neg (by simp)] at hlist
      rw [hlist] at h
      rcases predicateHolds_in h with ⟨s, rfl, hs⟩ | ⟨-, hfalse⟩
      · rw [apply_inlist htype (includedIn_str _ s), inList_agrees hmirrors hplain hs, hmode]
        rfl
      · cases hfalse

/-- **What the daemon takes for false is false in the simulator**, where both compare alike. Two
amounts that read as one double are what the condition rules out. -/
theorem field_false {path : JsString} {expected : MatchValue} {v : JsValue}
    (hmirrors : Mirrors ctx act a) (hplain : PlainOperand n) (halike : ComparedAlike n v)
    (hpath : setPath nodes wires n = some path)
    (hread : Schema.matchValue (operand n) = some expected)
    (h : predicateHolds v expected ctx = .ok false) :
    Eval.apply lookup a n [.of v] = .ok (.bool false) := by
  unfold PlainOperand at hplain
  unfold ComparedAlike at halike
  rcases matchValue_operand hpath hread with ⟨htype, hcompare⟩ | ⟨htype, hlist⟩
  · simp only [htype] at hplain halike
    refine apply_compare htype ?_
    -- by the three operators of a comparison
    rcases hcompare with ⟨hop, rfl⟩ | ⟨hop, rfl⟩ | ⟨hop, rfl⟩
    · rw [if_pos hop] at halike
      rcases halike with hstr | hnull
      -- a text is compared as it stands; the two substitute the same
      · obtain ⟨s, t, rfl, ht, hne⟩ := equalsText_false h hstr
        rw [hop, compare_eq, substitute_agrees hmirrors hplain ht, decide_eq_false hne]
      · exact compare_nullish hnull
    · rcases predicateHolds_lte h with ⟨hnull, -⟩ | ⟨hnull, o, ho, hle⟩
      · exact compare_nullish hnull
      · rw [if_neg (by rw [hop]; decide)] at halike
        -- amounts are compared exactly by the daemon and as doubles by the simulator
        obtain ⟨t, ht, -⟩ := compareOrdered_le ho
        rw [hop, substitute_bound ho, compare_lte hnull ht,
          (compareOrdered_doubles ho ht (halike t o ht ho)).1, hle]
    · rcases predicateHolds_gte h with ⟨hnull, -⟩ | ⟨hnull, o, ho, hge⟩
      · exact compare_nullish hnull
      · rw [if_neg (by rw [hop]; decide)] at halike
        obtain ⟨t, ht, -⟩ := compareOrdered_le ho
        rw [hop, substitute_bound ho, compare_gte hnull ht,
          (compareOrdered_doubles ho ht (halike t o ht ho)).2, hge]
  -- and by the two modes of a list
  · simp only [htype] at hplain halike
    cases hmode : n.fields.isText (js "mode") (js "notin") with
    | true =>
      rw [hmode, if_pos rfl] at hlist
      rw [hlist] at h
      rcases predicateHolds_notIn h with ⟨s, rfl, hs⟩ | ⟨hnone, -⟩
      · rw [apply_inlist htype (includedIn_str _ s), inList_agrees hmirrors hplain hs, hmode]
        rfl
      · rw [hmode, hnone] at halike
        simp at halike
    | false =>
      rw [hmode, if_neg (by simp)] at hlist
      rw [hlist] at h
      rcases predicateHolds_in h with ⟨s, rfl, hs⟩ | ⟨hnone, -⟩
      · rw [apply_inlist htype (includedIn_str _ s), inList_agrees hmirrors hplain hs, hmode]
        rfl
      · rw [hnone] at halike
        have hnull : v.isNullish = true := by simpa [hmode] using halike
        have habsent : Eval.includedIn (Eval.listItems n.fields a) (.of v) = .ok false := by
          simp [Eval.includedIn, Eval.Value.isNullish, hnull]
        rw [apply_inlist htype habsent, hmode]
        rfl

/-! ## Rows -/

/-- The requirement that a Contains on a table row is read as. -/
def rowRequirement (lk gf n : GraphNode) : TableRowProvider where
  provider := js "xpr.rpc.tableRow"
  args :=
    { contract := lk.fields.text (js "contract")
      scope := some (lk.fields.text (js "contract"))
      table := lk.fields.text (js "table")
      key := lk.fields.text (js "key") }
  select := gf.fields.text (js "path")
  op := .contains
  value := n.fields.text (js "value")

theorem provider_rowProvider {gf lk : GraphNode} {req : TableRowProvider}
    (h : Schema.provider xprDialect (rowProvider n (gf, lk)) = some req) :
    req = rowRequirement lk gf n := by
  obtain ⟨hname, p, ms, heq, -, -, hargs, hselect, hop, hvalue⟩ := Schema.provider_iff.1 h
  rw [rowProvider, tableRowProvider, Json.obj.injEq] at heq
  obtain ⟨-, rfl⟩ := heq
  obtain ⟨u, hu, hargs⟩ := Schema.required_some hargs
  obtain ⟨p', ns, hns, -, hcontract, hscope, htable, hkey⟩ := Schema.providerArgs_iff.1 hargs
  rw [← Option.some.inj hu, Json.obj.injEq] at hns
  obtain ⟨-, rfl⟩ := hns
  obtain ⟨v, hv, hselect⟩ := Schema.required_some hselect
  obtain ⟨w, hw, hop⟩ := Schema.required_some hop
  have hselect' : req.select = gf.fields.text (js "path") := by
    have hsel := (Schema.pattern_eq hselect).1
    rw [← Option.some.inj hv] at hsel
    exact (Json.str.inj hsel).symm
  have hop' : req.op = .contains := by
    rw [← Option.some.inj hw] at hop
    exact (Option.some.inj hop).symm
  have htext : ∀ {s t : JsString}, some (Json.str s) = some (Json.str t) → t = s :=
    fun h => (Json.str.inj (Option.some.inj h)).symm
  have hscope' : req.args.scope = some (lk.fields.text (js "contract")) := by
    rw [Schema.optional, show ([(js "contract", Json.str (lk.fields.text (js "contract"))),
      (js "scope", .str (lk.fields.text (js "contract"))),
      (js "table", .str (lk.fields.text (js "table"))),
      (js "key", .str (lk.fields.text (js "key")))].lookup (js "scope")) =
        some (.str (lk.fields.text (js "contract"))) from rfl] at hscope
    obtain ⟨s, hs, hsome⟩ := Option.map_eq_some_iff.1 hscope
    rw [← hsome, Json.str.inj (Schema.text_eq hs)]
  obtain ⟨provider, ⟨contract, scope, table, key⟩, select, op, value⟩ := req
  simp only [rowRequirement, TableRowProvider.mk.injEq, TableRowArgs.mk.injEq]
  exact ⟨hname, ⟨htext (Schema.required_text hcontract), hscope',
    htext (Schema.required_text htable), htext (Schema.required_text hkey)⟩, hselect', hop',
    htext (Schema.required_text hvalue)⟩

/-- The evidence that the daemon has is what the tables answer. Where it has none, nothing is
said. -/
def Answers (tables : Eval.Tables) (ctx : EvaluationContext) : Prop :=
  ∀ args key e, evidenceKey ctx.dialect.providerNamespace args = .ok key →
    (ctx.evidence.bind fun evidence => evidence key) = some e → e = tables args

/-- A Lookup and a Contains that both resolve alike. -/
structure PlainRow (act : DecodedAction) (a : Eval.SampleAction) (lk n : GraphNode) : Prop where
  present : ∀ key ∈ [js "contract", js "table", js "key"], (lk.fields.lookup key).isSome = true
  args : ∀ key ∈ [js "contract", js "table", js "key"], PlainArg act a (lk.fields.text key)
  value : PlainArg act a (n.fields.text (js "value"))

/-- What a Get Field makes of a value. -/
def fieldOf (gf : GraphNode) (v : JsValue) : JsValue :=
  if v.isNullish then .undefined else Eval.getPath v (gf.fields.text (js "path"))

theorem fields_present {f : Fields} {key : JsString} (h : (f.lookup key).isSome = true) :
    f.textOrEmpty key = f.text key := by
  obtain ⟨v, hv⟩ := Option.isSome_iff_exists.1 h
  rw [Fields.textOrEmpty, Fields.text, hv]

/-- The tables are asked for the same row. -/
theorem tableLookup_agrees {tables : Eval.Tables} {lk gf : GraphNode} {args : ProviderArgs}
    (hdialect : ctx.dialect = xprDialect) (hmirrors : Mirrors ctx act a)
    (hplain : PlainRow act a lk n) (hmode : lk.fields.isText (js "mode") (js "http") = false)
    (h : resolveTableRowArgs (rowRequirement lk gf n) act ctx = .ok args) :
    Eval.tableLookup tables lk.fields a = match tables args with
      | .row members => .json (.obj .ordinary members)
      | _ => .json .null := by
  simp only [resolveTableRowArgs, rowRequirement, Option.getD_some, bind_ok, pure_eq,
    Except.ok.injEq] at h
  obtain ⟨contract, hcontract, scope, hscope, table, htable, key, hkey, rfl⟩ := h
  have hagrees : ∀ {k t}, k ∈ [js "contract", js "table", js "key"] →
      substituteArg (lk.fields.text k) act ctx = .ok t → Eval.substitute (lk.fields.text k) a = t :=
    fun hk ht => substituteArg_agrees hdialect hmirrors (hplain.args _ hk) ht
  have hsame : scope = contract := Except.ok.inj (hscope.symm.trans hcontract)
  obtain ⟨v, hv⟩ := Option.isSome_iff_exists.1 (hplain.present (js "key") (by decide))
  have htext : lk.fields.text (js "key") = v.toText := by rw [Fields.text, hv]
  have hquery : Eval.queryFor lk.fields a = .table contract table key := by
    simp only [Eval.queryFor, hmode, Bool.false_eq_true, if_false, hv]
    rw [fields_present (hplain.present (js "contract") (by decide)),
      fields_present (hplain.present (js "table") (by decide)), ← htext,
      hagrees (by decide) hcontract, hagrees (by decide) htable, hagrees (by decide) hkey]
  cases hanswer : tables ⟨contract, contract, table, key⟩ <;>
    simp only [Eval.tableLookup, hquery, hsame, hanswer]

theorem getPath_select {path : JsString} (hpath : SELECT_FIELD_PATTERN path = true)
    (members : List (JsString × Json)) :
    Eval.getPath (.json (.obj .ordinary members)) path = readMember .ordinary members path := by
  have hword : ∀ u ∈ path, u ≠ unit '.' := by
    intro u hu heq
    rw [SELECT_FIELD_PATTERN, matchesClass, Bool.and_eq_true, List.all_eq_true] at hpath
    have hu := hpath.2 u hu
    rw [heq] at hu
    revert hu
    decide
  have hsplit : JsString.split (unit '.') path = [path] := split_plain fun h => hword _ h rfl
  rw [Eval.getPath, hsplit]
  rfl

/-- **A row that the daemon requires and the simulator looks up**, when the tables answer both. The
daemon's requirement holds exactly when the simulator's Contains is true, in each of the two
results it can have. -/
theorem row_agrees {tables : Eval.Tables} {lk gf : GraphNode} {b : Bool}
    (hdialect : ctx.dialect = xprDialect) (hmirrors : Mirrors ctx act a)
    (hanswers : Answers tables ctx) (htype : n.type = .contains)
    (hplain : PlainRow act a lk n) (hmode : lk.fields.isText (js "mode") (js "http") = false)
    (hselect : SELECT_FIELD_PATTERN (gf.fields.text (js "path")) = true)
    (h : providerHolds (rowRequirement lk gf n) act ctx = .ok b) :
    Eval.apply lookup a n [.of (fieldOf gf (Eval.tableLookup tables lk.fields a))] =
      .ok (.bool b) := by
  -- the requirement asks the evidence under the key that its arguments give
  unfold providerHolds at h
  simp only [bind_ok] at h
  obtain ⟨query, hquery, hholds⟩ := h
  simp only [providerQuery, bind_ok, pure_eq, Except.ok.injEq] at hquery
  obtain ⟨args, hargs, key, hkey, rfl⟩ := hquery
  -- and the simulator looks up the same table with the same arguments
  have hlookup : Eval.tableLookup tables lk.fields a = match tables args with
      | .row members => .json (.obj .ordinary members)
      | _ => .json .null := tableLookup_agrees hdialect hmirrors hplain hmode hargs
  have hnamespace : (rowRequirement lk gf n).provider = ctx.dialect.providerNamespace := by
    rw [hdialect]
    rfl
  rw [hnamespace] at hkey
  cases hevidence : ctx.evidence.bind fun evidence => evidence key with
  | none =>
    simp only [hevidence] at hholds
    cases hholds
  | some e =>
    have htables : e = tables args := hanswers args key e hkey hevidence
    simp only [hevidence] at hholds
    rw [htables] at hholds
    rw [hlookup]
    cases hrow : tables args with
    | failed =>
      rw [hrow] at hholds
      cases hholds
    -- no row: the daemon refuses, and the simulator finds nothing in an empty value
    | notFound =>
      rw [hrow] at hholds
      rw [← Except.ok.inj hholds]
      simp [Eval.apply, htype, fieldOf, JsValue.isNullish]
    | row members =>
      rw [hrow] at hholds
      simp only [rowHolds, rowRequirement, bind_ok] at hholds
      obtain ⟨target, htarget, hcontains⟩ := hholds
      have hvalue := substituteArg_agrees hdialect hmirrors hplain.value htarget
      have hfield : fieldOf gf (.json (.obj .ordinary members)) =
          readMember .ordinary members (gf.fields.text (js "path")) := by
        rw [fieldOf, getPath_select hselect]
        rfl
      simp only
      rw [hfield]
      generalize readMember .ordinary members (gf.fields.text (js "path")) = field at hcontains ⊢
      -- a row with a list in the field; anything else makes the daemon throw
      split at hcontains
      · next items =>
        simp only [bind_ok, pure_eq, Except.ok.injEq] at hcontains
        obtain ⟨ts, hts, hb⟩ := hcontains
        simp only [Eval.apply, htype, List.head?_cons, Option.getD_some, hts, hvalue, hb, bind,
          Except.bind, pure, Except.pure]
      · cases hcontains

end Signbox
