import Signbox.Proof.Simulated

/-!
# What the simulator says

The simulator goes through the decisions with one memo and asks for each value when it needs it.
What it answers is a statement about the graph alone.

* `Eval.Fires`, `Eval.Permits`: when a decision fires, and when the graph permits an action.
* `Eval.LimitsKept`: the limits of the rules, on the actions that each rule allows together.
* `Eval.evaluateGraph_meaning`: on every graph of a session the simulator answers, and where no
  node depends on itself it allows exactly what the graph permits, within the limits.
-/

namespace Signbox

open Guard

namespace Eval

section
variable (nodes : List GraphNode) (wires : List Wire) (lookup : LookupResolver) (a : SampleAction)

/-- The value that the graph gives a node. It is defined by the nodes alone, without a memo or an
order. -/
abbrev Means (n : GraphNode) (v : Value) : Prop := Memo.Yields (graph nodes wires lookup a) n v

/-- A decision fires: what it is on is routed to it, and its condition is true. Then its value is
its verdict. -/
def Fires (d : GraphNode) : Prop := Means nodes wires lookup a d (.of (verdict d))

/-- **When the graph permits an action**: no decision fires that denies, and one fires that
allows, unless the policy allows by default. -/
def Permits (p : GraphNode) : Prop :=
  (∀ d ∈ decisionsOf nodes wires p, d.fields.isText (js "effect") (js "deny") = true →
    ¬ Fires nodes wires lookup a d) ∧
  ((∃ d ∈ decisionsOf nodes wires p, d.fields.isText (js "effect") (js "allow") = true ∧
    Fires nodes wires lookup a d) ∨ p.fields.isText (js "default") (js "allow") = true)

open Classical in
/-- The decision that an action is allowed by: the first one, in the order of the nodes, that is
wired to the policy, allows and fires. -/
noncomputable def allowedBy (p : GraphNode) : Option GraphNode :=
  (nodes.filter fun n => n.type = .decision).find? fun d => Feeds wires d.id p.id ∧
    d.fields.isText (js "effect") (js "allow") = true ∧ Fires nodes wires lookup a d

/-- The limits of a decision count an action: it is permitted, the decision allows it, and its
limits are on. -/
def Counts (p d : GraphNode) : Prop :=
  Permits nodes wires lookup a p ∧ allowedBy nodes wires lookup a p = some d ∧
    d.fields.isTrue (js "useLimit") = true

open Classical in
/-- The actions that the limits of a decision are on. -/
noncomputable def counted (p d : GraphNode) (actions : List SampleAction) : RuleGroup :=
  ⟨d, actions.filter fun a => Counts nodes wires lookup a p d⟩

/-- **The limits of the rules are kept**: for every decision whose limits count some action, the
amounts it allows together are within its cap, no recipient gets more actions than its rate, and
under a cooldown no recipient gets two. -/
def LimitsKept (p : GraphNode) (actions : List SampleAction) : Prop :=
  ∀ d, (∃ a ∈ actions, Counts nodes wires lookup a p d) →
    capHit (counted nodes wires lookup p d actions) = none ∧
    rateHit (counted nodes wires lookup p d actions) = none ∧
    cooldownHit (counted nodes wires lookup p d actions) = none

/-- No node depends on itself. The editor does not see to it, so it is a condition. -/
def Acyclic : Prop :=
  ∀ id, ¬ Relation.TransGen (fun m n => ∃ w ∈ wires, w.fromPort.node = m ∧ w.toPort.node = n) id id

end

variable {s : GraphState} {a : SampleAction} {lookup : LookupResolver} {memo : NodeValues}
  {d p : GraphNode}

/-! ## Decisions -/

/-- What is kept of the values of the graph. -/
abbrev Kept (s : GraphState) (lookup : LookupResolver) (a : SampleAction) (memo : NodeValues) :
    Prop :=
  Memo.Consistent (graph s.nodes s.wires lookup a) Value.Printable (sources s.nodes) memo

theorem evalNode_spec {n : GraphNode} (h : s.WellFormed) (ha : a.value.Printable)
    (hlookup : ∀ f, (lookup f a).Printable) (hn : n ∈ sources s.nodes) (hmemo : Kept s lookup a memo) :
    ∃ v memo', evalNode s.nodes s.wires lookup a memo n = .ok (v, memo') ∧
      (∀ w, Means s.nodes s.wires lookup a n w → v = w) ∧ Kept s lookup a memo' := by
  have hturns : (sources s.nodes).length + 1 ≤ s.nodes.length + 1 + ([] : List ℕ).length := by
    have hle : (sources s.nodes).length ≤ s.nodes.length := List.length_filter_le _ _
    rw [List.length_nil]
    omega
  obtain ⟨v, memo', heval, hfits, hmemo'⟩ :=
    Memo.visit_spec (domain_session h ha hlookup) hn Memo.active_nil hturns hmemo
  exact ⟨v, memo', heval, hfits.2, hmemo'⟩

theorem evalPort_spec (h : s.WellFormed) (ha : a.value.Printable)
    (hlookup : ∀ f, (lookup f a).Printable) (hmemo : Kept s lookup a memo) (id : ℕ) (key : JsString) :
    ∃ v memo', evalPort s.nodes s.wires lookup a memo id key = .ok (v, memo') ∧
      Kept s lookup a memo' := by
  unfold evalPort
  cases hone : one s.nodes s.wires id key with
  | none => exact ⟨_, memo, rfl, hmemo⟩
  | some n =>
    have hn : n ∈ sources s.nodes :=
      mem_sources.2 ⟨(mem_inboundNodes (one_mem hone)).1, source_type h (one_mem hone)⟩
    obtain ⟨v, memo', heval, -, hmemo'⟩ := evalNode_spec h ha hlookup hn hmemo
    exact ⟨v, memo', heval, hmemo'⟩

/-- What is found of a decision is what the graph says: whether it reaches the policy, and its
verdict. -/
structure Found (s : GraphState) (lookup : LookupResolver) (policy : Option GraphNode)
    (a : SampleAction) (dn : GraphNode) (d : DecisionResult) : Prop where
  node : d.node = dn
  reachesPolicy : d.reachesPolicy = policy.any fun p => reaches s.wires dn.id p.id
  verdict : ∀ v, Means s.nodes s.wires lookup a dn v → d.verdict = effectOf v

theorem evalDecision_spec (h : s.WellFormed) (ha : a.value.Printable)
    (hlookup : ∀ f, (lookup f a).Printable) (hd : d ∈ s.nodes) (htype : d.type = .decision)
    (policy : Option GraphNode) (hmemo : Kept s lookup a memo) :
    ∃ r memo', evalDecision s.nodes s.wires lookup policy a memo d = .ok (r, memo') ∧
      Found s lookup policy a d r ∧ Kept s lookup a memo' := by
  obtain ⟨tx, memo₁, htx, hmemo₁⟩ := evalPort_spec h ha hlookup hmemo d.id (js "tx")
  obtain ⟨cond, memo₂, hcond, hmemo₂⟩ := evalPort_spec h ha hlookup hmemo₁ d.id (js "cond")
  have hsource : d ∈ sources s.nodes := by
    refine mem_sources.2 ⟨hd, ?_⟩
    rw [htype]
    decide
  obtain ⟨v, memo₃, hv, hmeans, hmemo₃⟩ := evalNode_spec h ha hlookup hsource hmemo₂
  refine ⟨⟨d, tx.isRouted, cond, effectOf v, policy.any fun p => reaches s.wires d.id p.id⟩, memo₃,
    ?_, ⟨rfl, rfl, fun w hw => by rw [hmeans w hw]⟩, hmemo₃⟩
  simp only [evalDecision, htx, hcond, hv, bind, Except.bind, pure, Except.pure]

theorem evalDecisions_spec (h : s.WellFormed) (ha : a.value.Printable)
    (hlookup : ∀ f, (lookup f a).Printable) (policy : Option GraphNode) {ds : List GraphNode}
    (hds : ∀ d ∈ ds, d ∈ s.nodes ∧ d.type = .decision) (hmemo : Kept s lookup a memo) :
    ∃ rs, evalDecisions s.nodes s.wires lookup policy a memo ds = .ok rs ∧
      List.Forall₂ (Found s lookup policy a) ds rs := by
  induction ds generalizing memo with
  | nil => exact ⟨[], rfl, .nil⟩
  | cons d ds ih =>
    rw [List.forall_mem_cons] at hds
    obtain ⟨r, memo', hr, hfound, hmemo'⟩ :=
      evalDecision_spec h ha hlookup hds.1.1 hds.1.2 policy hmemo
    obtain ⟨rs, hrs, hall⟩ := ih hds.2 hmemo'
    refine ⟨r :: rs, ?_, .cons hfound hall⟩
    simp only [evalDecisions, hr, hrs, bind, Except.bind, pure, Except.pure]

/-- A decision is left out, does not fire, or fires. -/
theorem means_decision {v : Value} (htype : d.type = .decision)
    (h : Means s.nodes s.wires lookup a d v) :
    v = .skip ∨ v = .of (.json .null) ∨ v = .of (verdict d) := by
  cases h with
  | node hall happly =>
    simp only [graph, apply, htype] at happly
    split at happly
    · exact Or.inl (Except.ok.inj happly).symm
    · have hvalue := (Except.ok.inj happly).symm
      exact Or.inr (hvalue ▸ (ite_eq_or_eq _ _ _).symm)

theorem effectOf_verdict {e : JsString} :
    strictEquals (effectOf (.of (verdict d))) (some (.str e)) = d.fields.isText (js "effect") e := by
  have hrule : (js "effect" == js "rule") = false := by decide
  have hproto : js "effect" ≠ js "__proto__" ∧ prototypeFunctions.lookup (js "effect") = none := by
    decide
  cases heffect : d.fields.lookup (js "effect") with
  | none =>
    simp [effectOf, verdict, JsValue.isNullish, JsValue.property, JsValue.readObject, readMember,
      List.lookup_cons, heffect, hrule, hproto, prototypeMember, Fields.isText, strictEquals]
  | some w =>
    cases w <;> simp [effectOf, verdict, JsValue.isNullish, JsValue.property, JsValue.readObject,
      readMember, heffect, Fields.isText, FieldValue.toJson, strictEquals]

/-- The effect of what a decision evaluates to. -/
theorem effectOf_means {v : Value} {e : JsString} (htype : d.type = .decision)
    (h : Means s.nodes s.wires lookup a d v) :
    strictEquals (effectOf v) (some (.str e)) = true ↔
      Fires s.nodes s.wires lookup a d ∧ d.fields.isText (js "effect") e = true := by
  constructor
  · intro heq
    rcases means_decision htype h with rfl | rfl | rfl
    · cases heq
    · cases heq
    · rw [effectOf_verdict] at heq
      exact ⟨h, heq⟩
  · rintro ⟨hfires, htext⟩
    rw [h.unique hfires, effectOf_verdict]
    exact htext

/-! ## Actions -/

theorem governing_isSome {rs : List DecisionResult} {e : JsString} :
    (governing rs e).isSome = true ↔
      ∃ r ∈ rs, r.reachesPolicy = true ∧ strictEquals r.verdict (some (.str e)) = true := by
  simp [governing]

/-- Every decision that reaches the policy has a value. On a cycle a node may have none. -/
def Defined (s : GraphState) (lookup : LookupResolver) (a : SampleAction) (p : GraphNode) : Prop :=
  ∀ d ∈ decisionsOf s.nodes s.wires p, ∃ v, Means s.nodes s.wires lookup a d v

/-- What is found of a decision that has a value: it reaches the policy, has this effect and
fires. -/
theorem found_effect {r : DecisionResult} {e : JsString} (hd : d ∈ s.nodes)
    (htype : d.type = .decision) (hr : Found s lookup (some p) a d r)
    (hdefined : Defined s lookup a p) :
    (r.reachesPolicy && strictEquals r.verdict (some (.str e))) = true ↔
      Feeds s.wires d.id p.id ∧ d.fields.isText (js "effect") e = true ∧
        Fires s.nodes s.wires lookup a d := by
  rw [Bool.and_eq_true, hr.reachesPolicy, Option.any_some, reaches_iff]
  constructor
  · rintro ⟨hfeeds, heq⟩
    obtain ⟨v, hv⟩ := hdefined d (mem_decisionsOf.2 ⟨hd, htype, hfeeds⟩)
    rw [hr.verdict v hv, effectOf_means htype hv] at heq
    exact ⟨hfeeds, heq.2, heq.1⟩
  · rintro ⟨hfeeds, htext, hfires⟩
    obtain ⟨v, hv⟩ := hdefined d (mem_decisionsOf.2 ⟨hd, htype, hfeeds⟩)
    rw [hr.verdict v hv, effectOf_means htype hv]
    exact ⟨hfeeds, hfires, htext⟩

theorem mem_decisions {n : GraphNode} :
    n ∈ s.nodes.filter (fun n => n.type = .decision) ↔ n ∈ s.nodes ∧ n.type = .decision := by
  rw [List.mem_filter, decide_eq_true_eq]

/-- A decision with this effect fires. -/
theorem governing_iff {rs : List DecisionResult} {e : JsString}
    (hfound : List.Forall₂ (Found s lookup (some p) a) (s.nodes.filter fun n => n.type = .decision) rs)
    (hdefined : Defined s lookup a p) :
    (governing rs e).isSome = true ↔ ∃ d ∈ decisionsOf s.nodes s.wires p,
      d.fields.isText (js "effect") e = true ∧ Fires s.nodes s.wires lookup a d := by
  rw [governing_isSome]
  constructor
  · rintro ⟨r, hr, hfires⟩
    obtain ⟨d, hd, hdr⟩ := forall₂_right hfound hr
    obtain ⟨hmem, htype⟩ := mem_decisions.1 hd
    obtain ⟨hfeeds, heffect⟩ :=
      (found_effect hmem htype hdr hdefined).1 (Bool.and_eq_true _ _ ▸ hfires)
    exact ⟨d, mem_decisionsOf.2 ⟨hmem, htype, hfeeds⟩, heffect⟩
  · rintro ⟨d, hd, heffect⟩
    obtain ⟨hmem, htype, hfeeds⟩ := mem_decisionsOf.1 hd
    obtain ⟨r, hr, hdr⟩ := forall₂_right hfound.flip (mem_decisions.2 ⟨hmem, htype⟩)
    refine ⟨r, hr, ?_⟩
    rw [← Bool.and_eq_true]
    exact (found_effect hmem htype hdr hdefined).2 ⟨hfeeds, heffect⟩

/-- The first that is found with the effect is the first decision that allows. -/
theorem governing_allow {rs : List DecisionResult}
    (hfound : List.Forall₂ (Found s lookup (some p) a) (s.nodes.filter fun n => n.type = .decision) rs)
    (hdefined : Defined s lookup a p) :
    governing rs (js "allow") = allowedBy s.nodes s.wires lookup a p := by
  classical
  have hmem : ∀ d ∈ s.nodes.filter (fun n => n.type = .decision), d ∈ s.nodes ∧ d.type = .decision :=
    fun d hd => mem_decisions.1 hd
  unfold governing allowedBy
  generalize s.nodes.filter (fun n => n.type = .decision) = ds at hfound hmem
  induction hfound with
  | nil => rfl
  | @cons d r ds rs hr _ ih =>
    rw [List.forall_mem_cons] at hmem
    have heffect := found_effect (e := js "allow") hmem.1.1 hmem.1.2 hr hdefined
    rw [List.find?_cons, List.find?_cons]
    by_cases hfires : Feeds s.wires d.id p.id ∧
        d.fields.isText (js "effect") (js "allow") = true ∧ Fires s.nodes s.wires lookup a d
    · rw [heffect.2 hfires, decide_eq_true hfires, Option.map_some, hr.node]
    · rw [Bool.eq_false_iff.2 (mt heffect.1 hfires), decide_eq_false hfires]
      exact ih hmem.2

/-- What governs an action is a decision that reaches the policy. -/
theorem governing_mem {rs : List DecisionResult} {e : JsString} {n : GraphNode}
    (hfound : List.Forall₂ (Found s lookup (some p) a) (s.nodes.filter fun n => n.type = .decision) rs)
    (h : governing rs e = some n) : n ∈ decisionsOf s.nodes s.wires p := by
  obtain ⟨r, hr, rfl⟩ := Option.map_eq_some_iff.1 h
  obtain ⟨d, hd, hdr⟩ := forall₂_right hfound (List.mem_of_find?_eq_some hr)
  rw [List.mem_filter, decide_eq_true_eq] at hd
  have hreaches := List.find?_some hr
  rw [Bool.and_eq_true, hdr.reachesPolicy, Option.any_some, reaches_iff] at hreaches
  rw [hdr.node]
  exact mem_decisionsOf.2 ⟨hd.1, hd.2, hreaches.1⟩

/-- No node reads itself, through others or not. -/
theorem Acyclic.reads (h : Acyclic s.wires) (n : GraphNode) :
    ¬ Relation.TransGen (Memo.Reads (graph s.nodes s.wires lookup a)) n n := by
  intro hcycle
  have hwires : ∀ {n m}, Relation.TransGen (Memo.Reads (graph s.nodes s.wires lookup a)) n m →
      Relation.TransGen (fun m n => ∃ w ∈ s.wires, w.fromPort.node = m ∧ w.toPort.node = n)
        m.id n.id := by
    have hstep : ∀ {n m}, Memo.Reads (graph s.nodes s.wires lookup a) n m →
        ∃ w ∈ s.wires, w.fromPort.node = m.id ∧ w.toPort.node = n.id := by
      intro n m hread
      obtain ⟨key, hkey⟩ := mem_inputs hread
      obtain ⟨-, w, hw, hfrom, hto⟩ := mem_inboundNodes hkey
      exact ⟨w, hw, hfrom, by rw [hto]⟩
    intro n m hpath
    induction hpath with
    | single hread => exact .single (hstep hread)
    | tail _ hread ih => exact .head (hstep hread) ih
  exact h n.id (hwires hcycle)

/-- Wires that all lead to later nodes make no cycle. -/
theorem acyclic_of_lt {wires : List Wire} (h : ∀ w ∈ wires, w.fromPort.node < w.toPort.node) :
    Acyclic wires := by
  have hlater : ∀ {m n}, Relation.TransGen
      (fun m n => ∃ w ∈ wires, w.fromPort.node = m ∧ w.toPort.node = n) m n → m < n := by
    intro m n hpath
    induction hpath with
    | single hwire =>
      obtain ⟨w, hw, rfl, rfl⟩ := hwire
      exact h w hw
    | tail _ hwire ih =>
      obtain ⟨w, hw, rfl, rfl⟩ := hwire
      exact ih.trans (h w hw)
  exact fun id hcycle => absurd (hlater hcycle) (lt_irrefl id)

/-- The decision whose limits count an action that was decided. -/
def PerAction.limitedBy (r : PerAction) : Option GraphNode :=
  match r.verdict, r.governing with
  | .allow, some n => if n.fields.isTrue (js "useLimit") then some n else none
  | _, _ => none

/-- What is decided of an action, and by which decision, against what the graph permits. -/
structure Judged (s : GraphState) (lookup : LookupResolver) (p : GraphNode) (a : SampleAction)
    (r : PerAction) : Prop where
  action : r.action = a
  governed : r.verdict = .deny → r.governing.isSome = true ∨ r.byDefault = true
  governing : ∀ n, r.governing = some n → n ∈ decisionsOf s.nodes s.wires p
  verdict : Defined s lookup a p → (r.verdict = .allow ↔ Permits s.nodes s.wires lookup a p)
  allowed : Defined s lookup a p → r.verdict = .allow →
    r.governing = allowedBy s.nodes s.wires lookup a p

theorem evalAction_spec (h : s.WellFormed) (ha : a.value.Printable)
    (hlookup : ∀ f, (lookup f a).Printable)
    (hpolicy : s.nodes.find? (fun n => n.type = .policy) = some p) :
    ∃ r, evalAction s.nodes s.wires lookup a = .ok r ∧ Judged s lookup p a r := by
  have hdecisions : ∀ d ∈ s.nodes.filter (fun n => n.type = .decision),
      d ∈ s.nodes ∧ d.type = .decision := by
    intro d hd
    rw [List.mem_filter, decide_eq_true_eq] at hd
    exact hd
  have hempty : Memo.Consistent (graph s.nodes s.wires lookup a) Value.Printable (sources s.nodes) [] :=
    Memo.consistent_nil
  -- every decision is evaluated; the first one to fire governs, and deny goes before allow
  obtain ⟨rs, hrs, hfound⟩ := evalDecisions_spec h ha hlookup (some p) hdecisions hempty
  have hgoverning : Defined s lookup a p → ∀ e, (governing rs e).isSome = true ↔
      ∃ d ∈ decisionsOf s.nodes s.wires p, d.fields.isText (js "effect") e = true ∧
        Fires s.nodes s.wires lookup a d := fun hdefined e => governing_iff hfound hdefined
  unfold evalAction
  simp only [hpolicy, hrs, bind, Except.bind, pure, Except.pure, Option.any_some]
  -- a decision that denies settles it
  cases hdeny : governing rs (js "deny") with
  | some n =>
    refine ⟨_, rfl, rfl, fun _ => Or.inl rfl, fun m hm => ?_, fun hdefined => ?_,
      fun _ hverdict => by cases hverdict⟩
    · rw [← Option.some.inj hm]
      exact governing_mem hfound hdeny
    have hfires := (hgoverning hdefined (js "deny")).1 (by rw [hdeny]; rfl)
    obtain ⟨d, hd, htext, hd'⟩ := hfires
    refine ⟨fun hverdict => ?_, fun hpermits => absurd hd' (hpermits.1 d hd htext)⟩
    cases hverdict
  | none =>
    have hnone : Defined s lookup a p → ∀ d ∈ decisionsOf s.nodes s.wires p,
        d.fields.isText (js "effect") (js "deny") = true → ¬ Fires s.nodes s.wires lookup a d := by
      intro hdefined d hd htext hfires
      have hsome := (hgoverning hdefined (js "deny")).2 ⟨d, hd, htext, hfires⟩
      rw [hdeny] at hsome
      cases hsome
    cases hallow : governing rs (js "allow") with
    | some n =>
      have hverdict : Effect.allow ≠ Effect.deny := by decide
      refine ⟨_, rfl, rfl, fun heq => absurd heq hverdict, fun m hm => ?_, fun hdefined => ?_,
        fun hdefined _ => ?_⟩
      · rw [← Option.some.inj hm]
        exact governing_mem hfound hallow
      case refine_3 => rw [← governing_allow hfound hdefined, hallow]
      have hfires := (hgoverning hdefined (js "allow")).1 (by rw [hallow]; rfl)
      exact iff_of_true rfl ⟨hnone hdefined, Or.inl hfires⟩
    -- nothing fires, so the default of the policy decides
    | none =>
      refine ⟨_, rfl, rfl, fun _ => Or.inr rfl, fun m hm => absurd hm.symm (Option.some_ne_none m),
        fun hdefined => ?_, fun hdefined _ => ?_⟩
      case refine_2 => rw [← governing_allow hfound hdefined, hallow]
      have hidle : ¬ ∃ d ∈ decisionsOf s.nodes s.wires p,
          d.fields.isText (js "effect") (js "allow") = true ∧ Fires s.nodes s.wires lookup a d := by
        intro hfires
        have hsome := (hgoverning hdefined (js "allow")).2 hfires
        rw [hallow] at hsome
        cases hsome
      cases hdefault : p.fields.isText (js "default") (js "allow") with
      | true => exact iff_of_true rfl ⟨hnone hdefined, Or.inr hdefault⟩
      | false =>
        refine iff_of_false (by simp) fun hpermits => ?_
        rcases hpermits.2 with hfires | htext
        · exact hidle hfires
        · rw [hdefault] at htext
          cases htext

/-! ## Limits -/

section Groups

variable {groups : List RuleGroup} {rs : List PerAction} {n : GraphNode} {g : RuleGroup}

theorem addToGroup_ids : (addToGroup n a groups).map (fun g => g.decision.id) =
    if n.id ∈ groups.map (fun g => g.decision.id) then groups.map (fun g => g.decision.id)
    else groups.map (fun g => g.decision.id) ++ [n.id] := by
  induction groups with
  | nil => rfl
  | cons g groups ih =>
    rw [addToGroup]
    by_cases hid : g.decision.id = n.id
    · rw [if_pos hid, if_pos (by rw [List.map_cons, hid]; exact List.mem_cons_self), List.map_cons,
        List.map_cons]
    · have hne : n.id ≠ g.decision.id := Ne.symm hid
      rw [if_neg hid, List.map_cons, ih]
      simp only [List.map_cons, List.mem_cons, hne, false_or]
      split <;> rfl

/-- An action is added to the group of its decision, or starts one. -/
theorem mem_addToGroup (hnd : (groups.map fun g => g.decision.id).Nodup) :
    g ∈ addToGroup n a groups ↔ (g ∈ groups ∧ g.decision.id ≠ n.id) ∨
      (∃ g' ∈ groups, g'.decision.id = n.id ∧ g = ⟨g'.decision, g'.actions ++ [a]⟩) ∨
      ((∀ g' ∈ groups, g'.decision.id ≠ n.id) ∧ g = ⟨n, [a]⟩) := by
  induction groups with
  | nil => simp [addToGroup]
  | cons g₀ groups ih =>
    rw [List.map_cons, List.nodup_cons] at hnd
    rw [addToGroup]
    by_cases hid : g₀.decision.id = n.id
    · -- the decisions of the other groups are others
      have hrest : ∀ g' ∈ groups, g'.decision.id ≠ n.id := by
        intro g' hg' heq
        exact hnd.1 (List.mem_map.2 ⟨g', hg', heq.trans hid.symm⟩)
      rw [if_pos hid, List.mem_cons]
      constructor
      · rintro (rfl | hg)
        · exact Or.inr (Or.inl ⟨g₀, List.mem_cons_self, hid, rfl⟩)
        · exact Or.inl ⟨List.mem_cons_of_mem _ hg, hrest g hg⟩
      · rintro (⟨hg, hne⟩ | ⟨g', hg', heq, rfl⟩ | ⟨hnone, -⟩)
        · rcases List.mem_cons.1 hg with rfl | hg
          · exact absurd hid hne
          · exact Or.inr hg
        · rcases List.mem_cons.1 hg' with rfl | hg'
          · exact Or.inl rfl
          · exact absurd heq (hrest g' hg')
        · exact absurd hid (hnone g₀ List.mem_cons_self)
    · rw [if_neg hid, List.mem_cons, ih hnd.2]
      simp only [List.mem_cons, exists_eq_or_imp, forall_eq_or_imp, hid, false_and, false_or, ne_eq,
        not_false_eq_true, true_and]
      constructor
      · rintro (rfl | ⟨hg, hne⟩ | hg)
        · exact Or.inl ⟨Or.inl rfl, hid⟩
        · exact Or.inl ⟨Or.inr hg, hne⟩
        · exact Or.inr hg
      · rintro (⟨rfl | hg, hne⟩ | hg)
        · exact Or.inl rfl
        · exact Or.inr (Or.inl ⟨hg, hne⟩)
        · exact Or.inr (Or.inr hg)

theorem groupsOf_snoc (rs : List PerAction) (r : PerAction) :
    groupsOf (rs ++ [r]) = match r.limitedBy with
      | some n => addToGroup n r.action (groupsOf rs)
      | none => groupsOf rs := by
  rw [groupsOf, List.foldl_append, List.foldl_cons, List.foldl_nil, PerAction.limitedBy]
  cases r.verdict with
  | deny => rfl
  | allow =>
    cases r.governing with
    | none => rfl
    | some n =>
      simp only
      split <;> rfl

theorem groupsOf_nodup (rs : List PerAction) :
    ((groupsOf rs).map fun g => g.decision.id).Nodup := by
  induction rs using List.reverseRecOn with
  | nil => exact List.nodup_nil
  | append_singleton rs r ih =>
    rw [groupsOf_snoc]
    cases r.limitedBy with
    | none => exact ih
    | some n =>
      simp only [addToGroup_ids]
      split
      case isTrue => exact ih
      case isFalse hnew =>
        rw [List.nodup_append_comm, List.singleton_append, List.nodup_cons]
        exact ⟨hnew, ih⟩

/-- The actions that a decision limits. -/
def limitedActions (rs : List PerAction) (d : GraphNode) : List SampleAction :=
  (rs.filter fun r => r.limitedBy = some d).map PerAction.action

theorem limitedActions_snoc (rs : List PerAction) (r : PerAction) (d : GraphNode) :
    limitedActions (rs ++ [r]) d = limitedActions rs d ++
      if r.limitedBy = some d then [r.action] else [] := by
  rw [limitedActions, List.filter_append, List.map_append, List.filter_singleton]
  by_cases hd : r.limitedBy = some d <;> simp [hd, limitedActions]

theorem limitedActions_nil {d : GraphNode} (h : ¬ ∃ r ∈ rs, r.limitedBy = some d) :
    limitedActions rs d = [] := by
  rw [limitedActions, List.map_eq_nil_iff, List.filter_eq_nil_iff]
  exact fun r hr hlimited => h ⟨r, hr, of_decide_eq_true hlimited⟩

/-- **The groups**: one for each decision that limits an action, with all the actions it limits in
their order. The source finds a group by the id of its decision, so ids must tell decisions
apart. -/
theorem mem_groupsOf (hids : ∀ r ∈ rs, ∀ r' ∈ rs, ∀ n n', r.limitedBy = some n →
      r'.limitedBy = some n' → n.id = n'.id → n = n') {d : GraphNode} {as : List SampleAction} :
    ⟨d, as⟩ ∈ groupsOf rs ↔ (∃ r ∈ rs, r.limitedBy = some d) ∧ as = limitedActions rs d := by
  induction rs using List.reverseRecOn generalizing d as with
  | nil => simp [groupsOf]
  | append_singleton rs r ih =>
    have hbefore : ∀ {d as}, ⟨d, as⟩ ∈ groupsOf rs ↔
        (∃ r ∈ rs, r.limitedBy = some d) ∧ as = limitedActions rs d := ih fun x hx y hy =>
      hids x (List.mem_append_left _ hx) y (List.mem_append_left _ hy)
    have hlast : r ∈ rs ++ [r] := List.mem_append_right _ List.mem_cons_self
    rw [groupsOf_snoc, limitedActions_snoc]
    cases hlimited : r.limitedBy with
    | none => simp [hbefore, hlimited, or_and_right, exists_or]
    | some n =>
      simp only [mem_addToGroup (groupsOf_nodup rs), Option.some.injEq]
      -- a group with the id of the decision is its group
      have hsame : ∀ g ∈ groupsOf rs, g.decision.id = n.id → g.decision = n := by
        intro g hg hid
        obtain ⟨⟨r', hr', hdecision⟩, -⟩ := hbefore.1 hg
        exact hids r' (List.mem_append_left _ hr') r hlast _ _ hdecision hlimited hid
      by_cases hd : n = d
      · subst hd
        rw [if_pos rfl]
        refine ⟨?_, fun hactions => ?_⟩
        · rintro (⟨-, hne⟩ | ⟨g, hg, hid, heq⟩ | ⟨hnone, heq⟩)
          · exact absurd rfl hne
          · rw [RuleGroup.mk.injEq] at heq
            rw [heq.2, (hbefore.1 hg).2, ← heq.1]
            exact ⟨⟨r, hlast, hlimited⟩, rfl⟩
          · rw [RuleGroup.mk.injEq] at heq
            have hnew : ¬ ∃ r' ∈ rs, r'.limitedBy = some n := fun hold =>
              hnone _ (hbefore.2 ⟨hold, rfl⟩) rfl
            rw [heq.2, limitedActions_nil hnew]
            exact ⟨⟨r, hlast, hlimited⟩, rfl⟩
        · by_cases hold : ∃ r' ∈ rs, r'.limitedBy = some n
          · refine Or.inr (Or.inl ⟨⟨n, limitedActions rs n⟩, hbefore.2 ⟨hold, rfl⟩, rfl, ?_⟩)
            rw [hactions.2]
          · refine Or.inr (Or.inr ⟨fun g hg hid => hold ?_, ?_⟩)
            · obtain ⟨hcounts, -⟩ := hbefore.1 hg
              rwa [hsame g hg hid] at hcounts
            · rw [hactions.2, limitedActions_nil hold]
              rfl
      · rw [if_neg hd, List.append_nil]
        have hgroup : ⟨d, as⟩ ∈ groupsOf rs ↔
            (∃ r' ∈ rs ++ [r], r'.limitedBy = some d) ∧ as = limitedActions rs d := by
          rw [hbefore]
          simp [or_and_right, exists_or, hlimited, hd]
        rw [← hgroup]
        constructor
        · rintro (⟨hg, -⟩ | ⟨g, hg, hid, heq⟩ | ⟨-, heq⟩)
          · exact hg
          · rw [RuleGroup.mk.injEq, hsame g hg hid] at heq
            exact absurd heq.1.symm hd
          · rw [RuleGroup.mk.injEq] at heq
            exact absurd heq.1.symm hd
        · exact fun hg => Or.inl ⟨hg, fun hid => hd (hsame _ hg hid).symm⟩

/-- No limit is exceeded where none is by the actions that a decision limits. -/
theorem ruleAggregateCheck_none (hids : ∀ r ∈ rs, ∀ r' ∈ rs, ∀ n n', r.limitedBy = some n →
      r'.limitedBy = some n' → n.id = n'.id → n = n') :
    ruleAggregateCheck rs = none ↔ ∀ d, (∃ r ∈ rs, r.limitedBy = some d) →
      capHit ⟨d, limitedActions rs d⟩ = none ∧ rateHit ⟨d, limitedActions rs d⟩ = none ∧
        cooldownHit ⟨d, limitedActions rs d⟩ = none := by
  rw [ruleAggregateCheck, List.findSome?_eq_none_iff]
  simp only [Option.orElse_eq_none]
  constructor
  · exact fun h d hd => h _ ((mem_groupsOf hids).2 ⟨hd, rfl⟩)
  · rintro h ⟨d, as⟩ hg
    obtain ⟨hd, rfl⟩ := (mem_groupsOf hids).1 hg
    exact h d hd

end Groups

/-! ## Transactions -/

theorem verdictOf_allow {perAction : List PerAction} {tooMany : Bool} {ruleAgg : Option RuleAggHit}
    {globalCap : Option GlobalCapHit}
    (h : ∀ r ∈ perAction, r.verdict = .deny → r.governing.isSome = true ∨ r.byDefault = true) :
    (verdictOf perAction tooMany ruleAgg globalCap).1 = .allow ↔ tooMany = false ∧
      (∀ r ∈ perAction, r.verdict = .allow) ∧ ruleAgg = none ∧ globalCap = none := by
  unfold verdictOf
  cases tooMany with
  | true => simp
  | false =>
    simp only [Bool.false_eq_true, if_false, true_and]
    -- the verdict is read off in the order of the source: denials, defaults, limits, the cap
    cases hdeny : perAction.find? fun r => r.verdict = .deny && r.governing.isSome with
    | some r =>
      have hr : r.verdict = .deny := by
        have hsome := List.find?_some hdeny
        simp only [Bool.and_eq_true, decide_eq_true_eq] at hsome
        exact hsome.1
      refine iff_of_false (by simp) fun hall => ?_
      rw [hall.1 r (List.mem_of_find?_eq_some hdeny)] at hr
      cases hr
    | none =>
      rw [List.find?_eq_none] at hdeny
      by_cases hdefault : perAction.any (fun r => r.verdict = .deny && r.byDefault) = true
      · simp only [hdefault, if_true]
        refine iff_of_false (by simp) fun hall => ?_
        obtain ⟨r, hr, hboth⟩ := List.any_eq_true.1 hdefault
        rw [Bool.and_eq_true, decide_eq_true_eq, hall.1 r hr] at hboth
        cases hboth.1
      · -- nothing is denied, by a rule or by default
        have hallow : ∀ r ∈ perAction, r.verdict = .allow := by
          intro r hr
          cases hverdict : r.verdict with
          | allow => rfl
          | deny =>
            rcases h r hr hverdict with hsome | hbyDefault
            · exact absurd (by simp [hverdict, hsome]) (hdeny r hr)
            · exact absurd (List.any_eq_true.2 ⟨r, hr, by simp [hverdict, hbyDefault]⟩) hdefault
        simp only [hdefault, Bool.false_eq_true, if_false]
        cases ruleAgg with
        | some hit => cases hit <;> simp
        | none =>
          cases globalCap with
          | some hit => simp
          | none => exact iff_of_true rfl ⟨hallow, rfl, rfl⟩

/-- The simulator answers, and what it answers is what the graph permits within the limits. -/
theorem evaluateGraph_spec (hs : Reachable s) {actions : List SampleAction}
    (hactions : ∀ a ∈ actions, a.value.Printable)
    (hlookup : ∀ a ∈ actions, ∀ f, (lookup f a).Printable)
    (hpolicy : s.nodes.find? (fun n => n.type = .policy) = some p) :
    ∃ e, evaluateGraph s.nodes s.wires actions lookup = .ok e ∧
      e.maxActions = parseCount (p.fields.text (js "maxActions")) ∧
      e.tooMany = e.maxActions.toDouble.lt (.finite actions.length) ∧
      e.globalCap = globalCapCheck s.nodes s.wires actions (some p) ∧
      ∃ rs, List.Forall₂ (Judged s lookup p) actions rs ∧ e.ruleAgg = ruleAggregateCheck rs ∧
        (e.final, e.decidedBy, e.governingId) = verdictOf rs e.tooMany e.ruleAgg e.globalCap := by
  obtain ⟨rs, hrs⟩ : ∃ rs, List.Forall₂ (fun a r => evalAction s.nodes s.wires lookup a = .ok r ∧
      Judged s lookup p a r) actions rs := by
    refine Schema.exists_forall₂.2 fun a ha => ?_
    exact evalAction_spec (wellFormed_session hs) (hactions a ha) (hlookup a ha) hpolicy
  have hmap : actions.mapM (evalAction s.nodes s.wires lookup) = .ok rs :=
    mapM_ok.2 (hrs.imp fun _ _ h => h.1)
  unfold evaluateGraph
  simp only [hmap, hpolicy, bind, Except.bind, pure, Except.pure]
  exact ⟨_, rfl, rfl, rfl, rfl, rs, hrs.imp fun _ _ h => h.2, rfl, rfl⟩

theorem judged_allow {actions : List SampleAction} {rs : List PerAction}
    (h : List.Forall₂ (Judged s lookup p) actions rs) (hdefined : ∀ a ∈ actions, Defined s lookup a p) :
    (∀ r ∈ rs, r.verdict = .allow) ↔ ∀ a ∈ actions, Permits s.nodes s.wires lookup a p := by
  induction h with
  | nil => simp
  | cons hr _ ih =>
    rw [List.forall_mem_cons] at hdefined
    rw [List.forall_mem_cons, List.forall_mem_cons, hr.verdict hdefined.1, ih hdefined.2]

theorem judged_governed {actions : List SampleAction} {rs : List PerAction}
    (h : List.Forall₂ (Judged s lookup p) actions rs) :
    ∀ r ∈ rs, r.verdict = .deny → r.governing.isSome = true ∨ r.byDefault = true := by
  intro r hr
  obtain ⟨a, -, hjudged⟩ := forall₂_right h hr
  exact hjudged.governed

/-- The decision that limits an action is the one whose limits count it. -/
theorem Judged.limitedBy {r : PerAction} (h : Judged s lookup p a r) (hdefined : Defined s lookup a p)
    {d : GraphNode} : r.limitedBy = some d ↔ Counts s.nodes s.wires lookup a p d := by
  rw [Counts, ← h.verdict hdefined, PerAction.limitedBy]
  cases hverdict : r.verdict with
  | deny => simp
  | allow =>
    rw [← h.allowed hdefined hverdict]
    cases r.governing with
    | none => simp
    | some n =>
      simp only [Option.ite_none_right_eq_some, true_and, Option.some.injEq]
      constructor
      · rintro ⟨hlimit, rfl⟩
        exact ⟨rfl, hlimit⟩
      · rintro ⟨rfl, hlimit⟩
        exact ⟨hlimit, rfl⟩

theorem judged_counted {actions : List SampleAction} {rs : List PerAction}
    (h : List.Forall₂ (Judged s lookup p) actions rs)
    (hdefined : ∀ a ∈ actions, Defined s lookup a p) (d : GraphNode) :
    (⟨d, limitedActions rs d⟩ : RuleGroup) = counted s.nodes s.wires lookup p d actions := by
  classical
  rw [counted, RuleGroup.mk.injEq]
  refine ⟨rfl, ?_⟩
  induction h with
  | nil => rfl
  | @cons a r actions rs hr _ ih =>
    rw [List.forall_mem_cons] at hdefined
    have hcounts := hr.limitedBy hdefined.1 (d := d)
    rw [limitedActions, List.filter_cons, List.filter_cons, ← ih hdefined.2]
    by_cases hd : r.limitedBy = some d
    · rw [if_pos (decide_eq_true hd), if_pos (decide_eq_true (hcounts.1 hd)), List.map_cons,
        hr.action, limitedActions]
    · rw [if_neg (mt of_decide_eq_true hd), if_neg (mt of_decide_eq_true (mt hcounts.2 hd)),
        limitedActions]

/-- **The limits that the simulator checks** are those of the rules: the aggregate is refused
exactly when a decision's cap, rate or cooldown is not kept by the actions it limits. -/
theorem judged_limits (hs : Reachable s) {actions : List SampleAction} {rs : List PerAction}
    (h : List.Forall₂ (Judged s lookup p) actions rs)
    (hdefined : ∀ a ∈ actions, Defined s lookup a p) :
    ruleAggregateCheck rs = none ↔ LimitsKept s.nodes s.wires lookup p actions := by
  have hnode : ∀ r ∈ rs, ∀ n, r.limitedBy = some n → n ∈ s.nodes := by
    intro r hr n hlimited
    obtain ⟨a, ha, hjudged⟩ := forall₂_right h hr
    obtain ⟨-, hallowed, -⟩ := (hjudged.limitedBy (hdefined a ha)).1 hlimited
    exact (mem_decisions.1 (List.mem_of_find?_eq_some hallowed)).1
  rw [ruleAggregateCheck_none fun r hr r' hr' n n' hn hn' hid =>
    List.inj_on_of_nodup_map (wellFormed_session hs).distinct (hnode r hr n hn)
      (hnode r' hr' n' hn') hid]
  refine forall_congr' fun d => ?_
  rw [judged_counted h hdefined d]
  refine imp_congr_left ⟨?_, ?_⟩
  · rintro ⟨r, hr, hlimited⟩
    obtain ⟨a, ha, hjudged⟩ := forall₂_right h hr
    exact ⟨a, ha, (hjudged.limitedBy (hdefined a ha)).1 hlimited⟩
  · rintro ⟨a, ha, hcounts⟩
    obtain ⟨r, hr, hjudged⟩ := forall₂_right h.flip ha
    exact ⟨r, hr, (hjudged.limitedBy (hdefined a ha)).2 hcounts⟩

/-- **What the simulator says.** On every graph of a session it answers, for every transaction that
has actions, without an error. Where no node depends on itself, what it says can be read off the
graph: it allows exactly the transactions with no more actions than the policy takes, each of which
the graph permits, within the limits of the rules that allow them and below every cap that is wired
to the policy; and it finds that a limit is exceeded exactly where one is. -/
theorem evaluateGraph_meaning (hs : Reachable s) {tx : Json} (htx : tx.Printable)
    {actions : List SampleAction} (hactions : txToSampleActions tx = .ok actions)
    (hlookup : ∀ a ∈ actions, ∀ f, (lookup f a).Printable) :
    ∃ p ∈ s.nodes, p.type = .policy ∧
      ∃ e, evaluateGraph s.nodes s.wires actions lookup = .ok e ∧ (Acyclic s.wires →
        (e.ruleAgg = none ↔ LimitsKept s.nodes s.wires lookup p actions) ∧
        (e.final = .allow ↔
          (parseCount (p.fields.text (js "maxActions"))).toDouble.lt (.finite actions.length) = false ∧
          (∀ a ∈ actions, Permits s.nodes s.wires lookup a p) ∧
          LimitsKept s.nodes s.wires lookup p actions ∧
          globalCapCheck s.nodes s.wires actions (some p) = none)) := by
  have hprintable := txToSampleActions_printable htx hactions
  obtain ⟨p, hp, htype, hfind⟩ :=
    (sound_of_reachable hs).find (show NodeType.policy.single = true from rfl)
  obtain ⟨e, he, hmax, hmany, hcap, rs, hrs, hagg, hverdict⟩ :=
    evaluateGraph_spec hs hprintable hlookup hfind
  refine ⟨p, hp, htype, e, he, fun hacyclic => ?_⟩
  -- without a cycle every decision has a value
  have hdefined : ∀ a ∈ actions, Defined s lookup a p := by
    intro a ha d hd
    obtain ⟨hmem, htype, -⟩ := mem_decisionsOf.1 hd
    have hsource : d ∈ sources s.nodes := by
      refine mem_sources.2 ⟨hmem, ?_⟩
      rw [htype]
      decide
    obtain ⟨v, hv, -⟩ := (domain_session (wellFormed_session hs) (hprintable a ha)
      (hlookup a ha)).yields_of_acyclic (fun n _ => hacyclic.reads n) hsource
    exact ⟨v, hv⟩
  have hlimits : e.ruleAgg = none ↔ LimitsKept s.nodes s.wires lookup p actions := by
    rw [hagg]
    exact judged_limits hs hrs hdefined
  have hfinal : e.final = (verdictOf rs e.tooMany e.ruleAgg e.globalCap).1 := congrArg Prod.fst hverdict
  refine ⟨hlimits, ?_⟩
  rw [hfinal, verdictOf_allow (judged_governed hrs), judged_allow hrs hdefined, hmany, hmax, hcap,
    hlimits]

/-! ## The demo -/

theorem mockLookup_printable (f : Fields) (a : SampleAction) : (mockLookup f a).Printable := by
  have htext : ∀ s : String, (Json.str (js s)).Printable := fun s => .str _
  unfold mockLookup
  simp only
  split_ifs
  · refine .obj (by decide) ?_
    simp only [List.mem_cons, List.not_mem_nil, or_false, forall_eq_or_imp, forall_eq]
    refine ⟨.arr ?_, htext "rockerone"⟩
    simp [htext]
  · exact .obj (by decide) (by simp [htext])
  · exact .obj (by decide) (by simpa using Json.Printable.bool true)

namespace DemoRun

/-- Half a token for Alice. -/
def tx : Json := .obj .ordinary [(js "actions", .arr [.obj .ordinary
  [(js "account", .str (js "eosio.token")), (js "name", .str (js "transfer")),
    (js "data", .obj .ordinary [(js "from", .str (js "agent")), (js "to", .str (js "alice")),
      (js "quantity", .str (js "0.5000 XPR"))])]])]

def action : SampleAction where
  contract := js "eosio.token"
  action := js "transfer"
  data := [(js "from", .str (js "agent")), (js "to", .str (js "alice")),
    (js "quantity", .obj .ordinary [(js "amount", .str (js "0.5000")), (js "symbol", .str (js "XPR"))])]

theorem tx_printable : tx.Printable := by
  have htext : ∀ s : String, (Json.str (js s)).Printable := fun s => .str _
  have hdata : Json.Printable (.obj .ordinary [(js "from", .str (js "agent")),
      (js "to", .str (js "alice")), (js "quantity", .str (js "0.5000 XPR"))]) :=
    .obj (by decide) (by simp [htext])
  refine .obj (by decide) ?_
  simp only [List.mem_singleton, forall_eq]
  refine .arr ?_
  simp only [List.mem_singleton, forall_eq]
  exact .obj (by decide) (by simp [htext, hdata])

theorem txToSampleActions_tx : txToSampleActions tx = .ok [action] := rfl

/-- In the demo every wire leads to a later node. -/
theorem demo_acyclic : Acyclic demoState.wires := by
  refine acyclic_of_lt ?_
  decide

/-- **What the simulator says of the transfer** under the demo's policy. No wire of the demo leads
back, so nothing has to be assumed of its evaluation. -/
theorem evaluateGraph_meaning_demo : ∃ p ∈ demoState.nodes, p.type = .policy ∧
    ∃ e, evaluateGraph demoState.nodes demoState.wires [action] mockLookup = .ok e ∧
      (e.ruleAgg = none ↔ LimitsKept demoState.nodes demoState.wires mockLookup p [action]) ∧
      (e.final = .allow ↔
        (parseCount (p.fields.text (js "maxActions"))).toDouble.lt
          (.finite ([action] : List SampleAction).length) = false ∧
        (∀ a ∈ [action], Permits demoState.nodes demoState.wires mockLookup a p) ∧
        LimitsKept demoState.nodes demoState.wires mockLookup p [action] ∧
        globalCapCheck demoState.nodes demoState.wires [action] (some p) = none) := by
  obtain ⟨p, hp, htype, e, he, hmeaning⟩ := evaluateGraph_meaning (.opened .demo) tx_printable
    txToSampleActions_tx fun a _ f => mockLookup_printable f a
  exact ⟨p, hp, htype, e, he, hmeaning demo_acyclic⟩

end DemoRun

end Eval

end Signbox
