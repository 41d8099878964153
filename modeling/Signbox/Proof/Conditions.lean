import Signbox.Proof.Agreement
import Signbox.Proof.Recompiled

/-!
# Decisions with a declarative form

A policy rule is a conjunction. The decisions with that form are on the transaction or on a
Route If, and their condition, if they have one, is built from ANDs over comparisons of fields and
of table rows.

* `Condition`, `PlainDecision`: the decisions with that form.
* `condition_iff`: such a condition is true when the comparisons it is built from are.
* `fires_iff`: when such a decision fires.
-/

namespace Signbox

open Guard Eval

section
variable (nodes : List GraphNode) (wires : List Wire)

/-- A field of the transaction that the decision is on, compared. It must be the same transaction
that the rule is about. -/
structure FieldLeaf (s n : GraphNode) : Prop where
  type : n.type = .compare ∨ n.type = .inlist
  field : ∃ gf t, fieldSource nodes wires n = some gf ∧ one nodes wires gf.id (js "in") = some t ∧
    (t = s ∨ t.type = .transaction)

/-- A field of a table row, searched. The lookup is on the transaction that the decision is on. -/
structure RowLeaf (s n : GraphNode) : Prop where
  type : n.type = .contains
  row : ∃ gf lk t, fieldSource nodes wires n = some gf ∧ lookupSource nodes wires gf = some lk ∧
    one nodes wires lk.id (js "tx") = some t ∧ (t = s ∨ t.type = .transaction)

/-- **A condition with a declarative form**, of a decision on `s`: a comparison of a field, a row
of a table, or a conjunction of such. Disjunction and negation have none. -/
inductive Condition (s : GraphNode) : GraphNode → Prop
  | field {n : GraphNode} (h : FieldLeaf nodes wires s n) : Condition s n
  | row {n : GraphNode} (h : RowLeaf nodes wires s n) : Condition s n
  | and {n : GraphNode} (htype : n.type = .booland)
      (hne : inboundNodes nodes wires n.id (js "in") ≠ [])
      (h : ∀ m ∈ inboundNodes nodes wires n.id (js "in"), Condition s m) : Condition s n

/-- The comparisons that a condition is built from, through any number of AND nodes. -/
inductive LeafOf : GraphNode → GraphNode → Prop
  | self {n : GraphNode} (htype : n.type ≠ .booland) : LeafOf n n
  | and {n m l : GraphNode} (htype : n.type = .booland)
      (hm : m ∈ inboundNodes nodes wires n.id (js "in")) (h : LeafOf m l) : LeafOf n l

/-- A Route If that names a contract, and an action or none. Neither is a variable. -/
structure PlainRoute (s : GraphNode) : Prop where
  type : s.type = .routeif
  source : ∃ t, one nodes wires s.id (js "tx") = some t ∧ t.type = .transaction
  contract : ∃ c, s.fields.lookup (js "contract") = some (.str c) ∧ c ≠ [] ∧
    (js "$").isPrefixOf c = false
  action : s.fields.truthy (js "action") = none ∨
    ∃ c, s.fields.lookup (js "action") = some (.str c) ∧ (js "$").isPrefixOf c = false

/-- What a decision is on. -/
def PlainSource (s : GraphNode) : Prop := s.type = .transaction ∨ PlainRoute nodes wires s

/-- **A decision with a declarative form.** No two comparisons are about one field, or about what
the Route If names. -/
structure PlainDecision (d : GraphNode) : Prop where
  source : ∃ s, one nodes wires d.id (js "tx") = some s ∧ PlainSource nodes wires s ∧
    ∀ c, one nodes wires d.id (js "cond") = some c → Condition nodes wires s c
  alone : ∀ m ∈ coneOf nodes wires d.id, ∀ m' ∈ coneOf nodes wires d.id, ∀ path,
    setPath nodes wires m = some path → setPath nodes wires m' = some path → m = m'
  unrouted : ∀ m ∈ coneOf nodes wires d.id, ∀ path, setPath nodes wires m = some path →
    path ∉ routeKeys (routeOf nodes wires d.id)
  operands : ∀ m ∈ coneOf nodes wires d.id, PlainOperand m

/-- A node reads another. -/
def Wires (n m : GraphNode) : Prop := some m ∈ inputs nodes wires n

end

variable {s : GraphState} {r n m l c d : GraphNode}

/-! ## What is wired into a node -/

theorem fieldSource_some {nodes : List GraphNode} {wires : List Wire} {gf : GraphNode} :
    fieldSource nodes wires n = some gf ↔
      one nodes wires n.id (js "a") = some gf ∧ gf.type = .getfield := by
  rw [fieldSource, Option.filter_eq_some_iff, decide_eq_true_eq]
  rfl

theorem lookupSource_some {nodes : List GraphNode} {wires : List Wire} {lk : GraphNode} :
    lookupSource nodes wires n = some lk ↔
      one nodes wires n.id (js "in") = some lk ∧ lk.type = .lookup := by
  rw [lookupSource, Option.filter_eq_some_iff, decide_eq_true_eq]
  rfl

/-- What is wired into a port of a wired graph is read. -/
theorem mem_inputs_of_wired (h : s.WellFormed) {key : JsString} (hn : n ∈ s.nodes)
    (hm : m ∈ inboundNodes s.nodes s.wires n.id key) : Wires s.nodes s.wires n m := by
  obtain ⟨-, w, hw, -, hto⟩ := mem_inboundNodes hm
  obtain ⟨x, -, b, hb, -, htarget, -, hfit⟩ := h.joins w hw
  have hbn : b = n := by
    refine List.inj_on_of_nodup_map h.distinct hb hn ?_
    rw [htarget, hto]
  rw [hbn, hto] at hfit
  obtain ⟨out, -, inp, hinp, -, -, hside, hkey, -⟩ := hfit
  -- an input that takes one wire has what is wired there first
  have hsingle : isMultiInput n.type key = false → one s.nodes s.wires n.id key = some m := by
    intro hmulti
    have hlen : (inboundNodes s.nodes s.wires n.id key).length ≤ 1 :=
      (List.length_filterMap_le _ _).trans (h.oneWire n hn key hmulti)
    cases hin : inboundNodes s.nodes s.wires n.id key with
    | nil => simp [hin] at hm
    | cons x xs =>
      rw [hin, List.length_cons] at hlen
      have hnil : xs = [] := List.length_eq_zero_iff.1 (by omega)
      rw [hin, hnil, List.mem_singleton] at hm
      rw [one, hin, hm, List.head?_cons]
  have hne : inboundNodes s.nodes s.wires n.id key ≠ [] := List.ne_nil_of_mem hm
  change inp.key = key at hkey
  subst hkey
  unfold Wires inputs
  cases htype : n.type <;> rw [htype] at hinp hsingle <;>
    simp only [NodeType.ports, List.mem_cons, List.not_mem_nil, or_false] at hinp
  case transaction | constant =>
    rw [hinp] at hside
    cases hside
  case booland | boolor =>
    rcases hinp with rfl | rfl
    · exact List.mem_map_of_mem hm
    · cases hside
  case policy =>
    rw [hinp] at hm
    exact List.mem_map_of_mem hm
  case decision =>
    rcases hinp with rfl | rfl | rfl
    · exact List.mem_cons.2 (Or.inl (hsingle rfl).symm)
    · refine List.mem_cons.2 (Or.inr ?_)
      rw [if_neg hne]
      exact List.mem_singleton.2 (hsingle rfl).symm
    · cases hside
  all_goals
    rcases hinp with rfl | rfl
    · exact List.mem_singleton.2 (hsingle rfl).symm
    · cases hside

/-- What feeds a node is read by it, directly or not. -/
theorem reads_of_feeds (h : s.WellFormed) (hn : n ∈ s.nodes) (hm : m ∈ s.nodes)
    (hfeeds : Feeds s.wires m.id n.id) : Relation.ReflTransGen (Wires s.nodes s.wires) n m := by
  generalize hb : n.id = b at hfeeds
  induction hfeeds generalizing n with
  | refl =>
    have heq : n = m := List.inj_on_of_nodup_map h.distinct hn hm hb
    rw [heq]
  | tail hpath hstep ih =>
    obtain ⟨w, hw, hfrom, hto⟩ := hstep
    obtain ⟨x, hx, -, -, hsource, -⟩ := h.joins w hw
    have hin : x ∈ inboundNodes s.nodes s.wires n.id w.toPort.key := by
      refine List.mem_filterMap.2 ⟨w, ?_, ?_⟩
      · rw [List.mem_filter, decide_eq_true_eq]
        refine ⟨hw, ?_⟩
        rw [hb, ← hto]
      · rw [← hsource]
        exact nodeById_of_nodup h.distinct hx
    exact .head (mem_inputs_of_wired h hn hin) (ih hx (hsource.trans hfrom))

/-- The nodes a decision depends on. -/
theorem mem_cone_iff (h : s.WellFormed) (hd : d ∈ s.nodes) : m ∈ coneOf s.nodes s.wires d.id ↔
    m ∈ s.nodes ∧ Relation.ReflTransGen (Wires s.nodes s.wires) d m := by
  rw [mem_coneOf]
  constructor
  · rintro ⟨hfind, hfeeds⟩
    exact ⟨nodeById_mem hfind, reads_of_feeds h hd (nodeById_mem hfind) hfeeds⟩
  · rintro ⟨hm, hreads⟩
    refine ⟨nodeById_of_nodup h.distinct hm, ?_⟩
    clear hm
    induction hreads with
    | refl => exact .refl
    | tail _ hstep ih =>
      obtain ⟨key, hkey⟩ := mem_inputs hstep
      obtain ⟨-, w, hw, hfrom, hto⟩ := mem_inboundNodes hkey
      exact .head ⟨w, hw, hfrom, by rw [hto]⟩ ih

/-! ## What a condition reads -/

section
variable {nodes : List GraphNode} {wires : List Wire}

/-- The nodes that compile to nothing, and route nothing. They pass on what the conditions read. -/
def Silent (n : GraphNode) : Prop :=
  n.type = .booland ∨ n.type = .getfield ∨ n.type = .lookup ∨ n.type = .transaction

theorem wires_one {key : JsString} (h : Wires nodes wires n m)
    (hinputs : inputs nodes wires n = [one nodes wires n.id key]) : one nodes wires n.id key = some m := by
  rw [Wires, hinputs, List.mem_singleton] at h
  exact h.symm

theorem PlainSource.reads (h : PlainSource nodes wires r)
    (hreads : Relation.ReflTransGen (Wires nodes wires) r m) : m = r ∨ m.type = .transaction := by
  have hstop : ∀ {t}, t.type = .transaction → Relation.ReflTransGen (Wires nodes wires) t m →
      m.type = .transaction := by
    intro t htype hreads
    rcases hreads.cases_head with rfl | ⟨x, hx, -⟩
    · exact htype
    · rw [Wires, inputs, htype] at hx
      cases hx
  rcases h with htype | hroute
  · exact Or.inr (hstop htype hreads)
  · obtain ⟨t, ht, htype⟩ := hroute.source
    rcases hreads.cases_head with rfl | ⟨x, hx, hpath⟩
    · exact Or.inl rfl
    · have hxt := wires_one hx (by rw [inputs, hroute.type])
      rw [ht, Option.some.injEq] at hxt
      rw [← hxt] at hpath
      exact Or.inr (hstop htype hpath)

/-- **What a condition reads**: its comparisons, and nodes that say nothing in a rule. So what the
compiler collects above a decision is what the simulator evaluates there. -/
theorem Condition.reads (hr : PlainSource nodes wires r) (hc : Condition nodes wires r c)
    (hreads : Relation.ReflTransGen (Wires nodes wires) c m) :
    LeafOf nodes wires c m ∨ m = r ∨ Silent m := by
  -- below the fields and rows stand only the source, or the transaction it routes
  have hroute : ∀ {t}, t = r ∨ t.type = .transaction →
      Relation.ReflTransGen (Wires nodes wires) t m → m = r ∨ Silent m := by
    rintro t (rfl | htype) hreads
    · rcases hr.reads hreads with heq | htype
      · exact Or.inl heq
      · exact Or.inr (Or.inr (Or.inr (Or.inr htype)))
    · have hsource : PlainSource nodes wires t := Or.inl htype
      rcases hsource.reads hreads with rfl | htype'
      · exact Or.inr (Or.inr (Or.inr (Or.inr htype)))
      · exact Or.inr (Or.inr (Or.inr (Or.inr htype')))
  -- by induction on the condition; in each case along the path of what is read
  induction hc with
  | @field n h =>
    obtain ⟨gf, t, hgf, ht, hon⟩ := h.field
    obtain ⟨hone, hgftype⟩ := fieldSource_some.1 hgf
    rcases hreads.cases_head with rfl | ⟨x, hx, hpath⟩
    · refine Or.inl (.self ?_)
      rcases h.type with htype | htype <;> rw [htype] <;> decide
    · have hxgf : one nodes wires n.id (js "a") = some x :=
        wires_one hx (by rcases h.type with htype | htype <;> rw [inputs, htype])
      rw [hone, Option.some.injEq] at hxgf
      rw [← hxgf] at hpath
      rcases hpath.cases_head with rfl | ⟨y, hy, hpath⟩
      · exact Or.inr (Or.inr (Or.inr (Or.inl hgftype)))
      · have hyt := wires_one hy (by rw [inputs, hgftype])
        rw [ht, Option.some.injEq] at hyt
        rw [← hyt] at hpath
        exact Or.inr (hroute hon hpath)
  -- a row is read through its field and its lookup
  | @row n h =>
    obtain ⟨gf, lk, t, hgf, hlk, ht, hon⟩ := h.row
    obtain ⟨hone, hgftype⟩ := fieldSource_some.1 hgf
    obtain ⟨hone', hlktype⟩ := lookupSource_some.1 hlk
    rcases hreads.cases_head with rfl | ⟨x, hx, hpath⟩
    · refine Or.inl (.self ?_)
      rw [h.type]
      decide
    · have hxgf := wires_one hx (by rw [inputs, h.type])
      rw [hone, Option.some.injEq] at hxgf
      rw [← hxgf] at hpath
      rcases hpath.cases_head with rfl | ⟨y, hy, hpath⟩
      · exact Or.inr (Or.inr (Or.inr (Or.inl hgftype)))
      · have hylk := wires_one hy (by rw [inputs, hgftype])
        rw [hone', Option.some.injEq] at hylk
        rw [← hylk] at hpath
        rcases hpath.cases_head with rfl | ⟨z, hz, hpath⟩
        · exact Or.inr (Or.inr (Or.inr (Or.inr (Or.inl hlktype))))
        · have hzt := wires_one hz (by rw [inputs, hlktype])
          rw [ht, Option.some.injEq] at hzt
          rw [← hzt] at hpath
          exact Or.inr (hroute hon hpath)
  -- a conjunction reads what its inputs read
  | @and n htype _ _ ih =>
    rcases hreads.cases_head with rfl | ⟨x, hx, hpath⟩
    · exact Or.inr (Or.inr (Or.inl htype))
    · rw [Wires, inputs, htype] at hx
      obtain ⟨x', hx', heq⟩ := List.mem_map.1 hx
      rw [Option.some.injEq] at heq
      rw [heq] at hx'
      rcases ih x hx' hpath with hleaf | hother
      · exact Or.inl (.and htype hx' hleaf)
      · exact Or.inr hother

/-- A comparison of a condition is one. -/
theorem LeafOf.condition (h : LeafOf nodes wires c l) (hc : Condition nodes wires r c) :
    FieldLeaf nodes wires r l ∨ RowLeaf nodes wires r l := by
  induction h with
  | self htype =>
    cases hc with
    | field h => exact Or.inl h
    | row h => exact Or.inr h
    | and htype' => exact absurd htype' htype
  | and htype hm _ ih =>
    cases hc with
    | field h => rcases h.type with htype' | htype' <;> rw [htype] at htype' <;> cases htype'
    | row h =>
      have htype' := h.type
      rw [htype] at htype'
      cases htype'
    | and _ _ hall => exact ih (hall _ hm)

end

/-! ## Values -/

section
variable {nodes : List GraphNode} {wires : List Wire} {lookup : LookupResolver} {a : SampleAction}
  {v w : Value}

theorem means_one {key : JsString} (hinputs : inputs nodes wires n = [one nodes wires n.id key])
    (hone : one nodes wires n.id key = some m) (hm : Means nodes wires lookup a m v)
    (happly : apply lookup a n [v] = .ok w) : Means nodes wires lookup a n w := by
  have hall : Memo.YieldsAll (graph nodes wires lookup a) (inputs nodes wires n) [v] := by
    rw [hinputs, hone]
    exact .connected hm .nil
  exact .node hall happly

theorem means_transaction (htype : n.type = .transaction) :
    Means nodes wires lookup a n (.of a.value) := by
  have hall : Memo.YieldsAll (graph nodes wires lookup a) (inputs nodes wires n) [] := by
    rw [inputs, htype]
    exact .nil
  refine .node hall ?_
  simp only [graph, apply, htype]

/-- What a decision is on takes an action. -/
def Takes (r : GraphNode) (a : SampleAction) : Prop :=
  r.type = .transaction ∨ routes r.fields (.of a.value) = true

theorem PlainSource.means (h : PlainSource nodes wires r) (htakes : Takes r a) :
    Means nodes wires lookup a r (.of a.value) := by
  rcases h with htype | hroute
  · exact means_transaction htype
  · obtain ⟨t, ht, htype⟩ := hroute.source
    have hroutes : routes r.fields (.of a.value) = true := by
      refine htakes.resolve_left ?_
      rw [hroute.type]
      decide
    refine means_one (by rw [inputs, hroute.type]) ht (means_transaction htype) ?_
    simp only [apply, hroute.type, List.head?_cons, Option.getD_some, hroutes, if_true]

theorem PlainSource.means_skip (h : PlainSource nodes wires r) (htakes : ¬ Takes r a) :
    Means nodes wires lookup a r .skip := by
  rcases h with htype | hroute
  · exact absurd (Or.inl htype) htakes
  · obtain ⟨t, ht, htype⟩ := hroute.source
    have hroutes : routes r.fields (.of a.value) = false :=
      Bool.eq_false_iff.2 fun htrue => htakes (Or.inr htrue)
    refine means_one (by rw [inputs, hroute.type]) ht (means_transaction htype) ?_
    simp only [apply, hroute.type, List.head?_cons, Option.getD_some, hroutes, Bool.false_eq_true,
      if_false]

theorem means_on {t : GraphNode} (h : PlainSource nodes wires r) (htakes : Takes r a)
    (hon : t = r ∨ t.type = .transaction) : Means nodes wires lookup a t (.of a.value) := by
  rcases hon with rfl | htype
  · exact h.means htakes
  · exact means_transaction htype

/-- A compared field. -/
theorem FieldLeaf.means {gf : GraphNode} (h : FieldLeaf nodes wires r l)
    (hr : PlainSource nodes wires r) (htakes : Takes r a)
    (hgf : fieldSource nodes wires l = some gf)
    (happly : apply lookup a l [.of (getPath a.value (gf.fields.text (js "path")))] = .ok w) :
    Means nodes wires lookup a l w := by
  obtain ⟨gf', t, hgf', ht, hon⟩ := h.field
  rw [hgf, Option.some.injEq] at hgf'
  rw [← hgf'] at ht
  obtain ⟨hone, htype⟩ := fieldSource_some.1 hgf
  have hfield : Means nodes wires lookup a gf
      (.of (getPath a.value (gf.fields.text (js "path")))) := by
    refine means_one (by rw [inputs, htype]) ht (means_on hr htakes hon) ?_
    simp [apply, htype, SampleAction.value, JsValue.isNullish]
  exact means_one (by rcases h.type with htype | htype <;> rw [inputs, htype]) hone hfield happly

/-- A searched row. -/
theorem RowLeaf.means {gf lk : GraphNode} (h : RowLeaf nodes wires r l)
    (hr : PlainSource nodes wires r) (htakes : Takes r a)
    (hgf : fieldSource nodes wires l = some gf) (hlk : lookupSource nodes wires gf = some lk)
    (happly : apply lookup a l [.of (fieldOf gf (lookup lk.fields a))] = .ok w) :
    Means nodes wires lookup a l w := by
  obtain ⟨gf', lk', t, hgf', hlk', ht, hon⟩ := h.row
  rw [hgf, Option.some.injEq] at hgf'
  rw [← hgf', hlk, Option.some.injEq] at hlk'
  rw [← hlk'] at ht
  obtain ⟨hone, htype⟩ := fieldSource_some.1 hgf
  obtain ⟨hone', htype'⟩ := lookupSource_some.1 hlk
  have hrow : Means nodes wires lookup a lk (.of (lookup lk.fields a)) := by
    refine means_one (by rw [inputs, htype']) ht (means_on hr htakes hon) ?_
    simp only [apply, htype', List.head?_cons, Option.getD_some, SampleAction.value]
  have hfield : Means nodes wires lookup a gf (.of (fieldOf gf (lookup lk.fields a))) := by
    refine means_one (by rw [inputs, htype]) hone' hrow ?_
    simp only [apply, htype, List.head?_cons, Option.getD_some, fieldOf]
  exact means_one (by rw [inputs, h.type]) hone hfield happly

theorem eq_of_isTrue (h : v.isTrue = true) : v = .bool true := by
  unfold Value.isTrue at h
  split at h
  · rfl
  · cases h

/-- **A condition is true when its comparisons are.** The induction is on the condition; a
conjunction is true exactly when each of its inputs is. -/
theorem condition_iff (hc : Condition nodes wires r c) :
    Means nodes wires lookup a c (.bool true) ↔
      ∀ l, LeafOf nodes wires c l → Means nodes wires lookup a l (.bool true) := by
  induction hc with
  | @field n h =>
    have htype : n.type ≠ .booland := by rcases h.type with htype | htype <;> rw [htype] <;> decide
    refine ⟨fun hn l hl => ?_, fun hall => hall n (.self htype)⟩
    cases hl with
    | self => exact hn
    | and htype' => exact absurd htype' htype
  | @row n h =>
    have htype : n.type ≠ .booland := by rw [h.type]; decide
    refine ⟨fun hn l hl => ?_, fun hall => hall n (.self htype)⟩
    cases hl with
    | self => exact hn
    | and htype' => exact absurd htype' htype
  | @and n htype hne _ ih =>
    have hinputs : inputs nodes wires n = (inboundNodes nodes wires n.id (js "in")).map some := by
      rw [inputs, htype]
    constructor
    · intro hn l hl
      obtain ⟨m, hm, hml⟩ : ∃ m ∈ inboundNodes nodes wires n.id (js "in"), LeafOf nodes wires m l := by
        cases hl with
        | self htype' => exact absurd htype htype'
        | and _ hm hml => exact ⟨_, hm, hml⟩
      refine (ih m hm).1 ?_ l hml
      cases hn with
      | @node _ vs _ hall happly =>
        change Memo.YieldsAll _ (inputs nodes wires n) vs at hall
        simp only [graph, apply, htype, Except.ok.injEq] at happly
        have htrue : (!vs.isEmpty && vs.all Value.isTrue) = true := by
          injection happly with hof
          injection hof with hjson
          injection hjson
        rw [Bool.and_eq_true, List.all_eq_true] at htrue
        rw [hinputs] at hall
        obtain ⟨v, hv, hmv⟩ := hall.mem (List.mem_map_of_mem hm)
        rwa [eq_of_isTrue (htrue.2 v hv)] at hmv
    · intro hall
      have htrue : ∀ m ∈ inboundNodes nodes wires n.id (js "in"),
          Means nodes wires lookup a m (.bool true) := by
        intro m hm
        exact (ih m hm).2 fun l hl => hall l (.and htype hm hl)
      have hyields := Memo.yieldsAll_replicate htrue
      rw [← hinputs] at hyields
      refine .node hyields ?_
      obtain ⟨m, ms, hcons⟩ := List.exists_cons_of_ne_nil hne
      simp [graph, apply, htype, hcons, Value.isTrue, Value.bool]

/-- **When a decision fires**: the action takes its source, and every comparison of its condition,
if it has one, is true of it. -/
theorem fires_iff (htype : d.type = .decision) (hone : one nodes wires d.id (js "tx") = some r)
    (hr : PlainSource nodes wires r)
    (hcond : ∀ c, one nodes wires d.id (js "cond") = some c → Condition nodes wires r c) :
    Fires nodes wires lookup a d ↔ Takes r a ∧ ∀ c, one nodes wires d.id (js "cond") = some c →
      ∀ l, LeafOf nodes wires c l → Means nodes wires lookup a l (.bool true) := by
  -- a decision reads its source and, if one is wired, its condition
  have hinputs : inputs nodes wires d = some r ::
      (one nodes wires d.id (js "cond")).toList.map some := by
    rw [inputs, htype]
    cases hin : inboundNodes nodes wires d.id (js "cond") with
    | nil =>
      have hnone : one nodes wires d.id (js "cond") = none := by rw [one, hin, List.head?_nil]
      simp [hone, hnone]
    | cons c cs =>
      have hcond : one nodes wires d.id (js "cond") = some c := by rw [one, hin, List.head?_cons]
      simp [hone, hcond]
  have hrouted : (Value.of a.value).isRouted = true := rfl
  constructor
  · intro hfires
    cases hfires with
    | @node _ vs _ hall happly =>
      change Memo.YieldsAll _ (inputs nodes wires d) vs at hall
      rw [hinputs] at hall
      cases hall with
      | @connected _ v _ ws hv hrest =>
        simp only [graph, apply, htype, List.head?_cons, Option.getD_some] at happly
        -- a source that does not take the action skips it, and then the decision says nothing
        have htakes : Takes r a := by
          by_contra hnot
          rw [hv.unique (hr.means_skip hnot)] at happly
          cases happly
        refine ⟨htakes, fun c hc => (condition_iff (hcond c hc)).1 ?_⟩
        rw [hv.unique (hr.means htakes)] at happly
        rw [hc] at hrest
        cases hrest with
        | @connected _ w _ _ hw hnil =>
          cases hnil
          -- the decision speaks only when its condition is true
          simp only [hrouted, Bool.true_and, Except.ok.injEq] at happly
          cases htrue : w.isTrue with
          | true => rwa [eq_of_isTrue htrue] at hw
          | false =>
            rw [htrue] at happly
            simp [verdict] at happly
  · rintro ⟨htakes, hleaves⟩
    cases hc : one nodes wires d.id (js "cond") with
    -- without a condition the source alone decides
    | none =>
      have hall : Memo.YieldsAll (graph nodes wires lookup a) (inputs nodes wires d)
          [.of a.value] := by
        rw [hinputs, hc]
        exact .connected (hr.means htakes) .nil
      refine .node hall ?_
      simp [graph, apply, htype, hrouted]
    | some c =>
      have htrue : Means nodes wires lookup a c (.bool true) :=
        (condition_iff (hcond c hc)).2 (hleaves c hc)
      have hall : Memo.YieldsAll (graph nodes wires lookup a) (inputs nodes wires d)
          [.of a.value, .bool true] := by
        rw [hinputs, hc]
        exact .connected (hr.means htakes) (.connected htrue .nil)
      refine .node hall ?_
      simp [graph, apply, htype, hrouted, Value.isTrue, Value.bool]

end

/-! ## Every decision with a declarative form has a value -/

section
variable {lookup : LookupResolver} {a : SampleAction}

/-- A value that can be printed. -/
abbrev HasValue (s : GraphState) (lookup : LookupResolver) (a : SampleAction) (n : GraphNode) :
    Prop := ∃ v, Means s.nodes s.wires lookup a n v ∧ v.Printable

theorem source_hasValue {t : GraphNode} (ha : a.value.Printable)
    (hr : PlainSource s.nodes s.wires r) (hon : t = r ∨ t.type = .transaction) :
    HasValue s lookup a t := by
  rcases hon with rfl | htype
  · by_cases htakes : Takes t a
    · exact ⟨_, hr.means htakes, ha⟩
    · exact ⟨_, hr.means_skip htakes, trivial⟩
  · exact ⟨_, means_transaction htype, ha⟩

theorem condition_hasValue (h : s.WellFormed) (ha : a.value.Printable)
    (hlookup : ∀ f, (lookup f a).Printable) (hr : PlainSource s.nodes s.wires r)
    (hc : Condition s.nodes s.wires r c) (hmem : c ∈ s.nodes) : HasValue s lookup a c := by
  have hdom := domain_session h ha hlookup
  -- what a node reads through one port has a value once everything below it has
  have hstep : ∀ {n m key}, one s.nodes s.wires n key = some m → m.type ≠ .policy →
      (∀ x, Wires s.nodes s.wires m x → HasValue s lookup a x) → HasValue s lookup a m := by
    intro n m key hone htype hreads
    exact hdom.yields (mem_sources.2 ⟨(mem_inboundNodes (one_mem hone)).1, htype⟩) hreads
  -- by induction on the condition, from the source upwards
  induction hc with
  | @field n hleaf =>
    obtain ⟨gf, t, hgf, ht, hon⟩ := hleaf.field
    obtain ⟨hone, htype⟩ := fieldSource_some.1 hgf
    have hfield : HasValue s lookup a gf := by
      refine hstep hone (by rw [htype]; decide) fun x hx => ?_
      have hxt := wires_one hx (by rw [inputs, htype])
      rw [ht, Option.some.injEq] at hxt
      exact hxt ▸ source_hasValue ha hr hon
    have hplural : n.type ≠ .policy := by rcases hleaf.type with h | h <;> rw [h] <;> decide
    refine hdom.yields (mem_sources.2 ⟨hmem, hplural⟩) fun x hx => ?_
    have hxgf : one s.nodes s.wires n.id (js "a") = some x :=
      wires_one hx (by rcases hleaf.type with h | h <;> rw [inputs, h])
    rw [hone, Option.some.injEq] at hxgf
    exact hxgf ▸ hfield
  | @row n hleaf =>
    obtain ⟨gf, lk, t, hgf, hlk, ht, hon⟩ := hleaf.row
    obtain ⟨hone, htype⟩ := fieldSource_some.1 hgf
    obtain ⟨hone', htype'⟩ := lookupSource_some.1 hlk
    have hrow : HasValue s lookup a lk := by
      refine hstep hone' (by rw [htype']; decide) fun x hx => ?_
      have hxt := wires_one hx (by rw [inputs, htype'])
      rw [ht, Option.some.injEq] at hxt
      exact hxt ▸ source_hasValue ha hr hon
    -- the row first, then the field that is read from it
    have hfield : HasValue s lookup a gf := by
      refine hstep hone (by rw [htype]; decide) fun x hx => ?_
      have hxlk := wires_one hx (by rw [inputs, htype])
      rw [hone', Option.some.injEq] at hxlk
      exact hxlk ▸ hrow
    refine hdom.yields (mem_sources.2 ⟨hmem, by rw [hleaf.type]; decide⟩) fun x hx => ?_
    have hxgf := wires_one hx (by rw [inputs, hleaf.type])
    rw [hone, Option.some.injEq] at hxgf
    exact hxgf ▸ hfield
  | @and n htype _ _ ih =>
    refine hdom.yields (mem_sources.2 ⟨hmem, by rw [htype]; decide⟩) fun x hx => ?_
    change some x ∈ inputs s.nodes s.wires n at hx
    rw [inputs, htype] at hx
    obtain ⟨x', hx', heq⟩ := List.mem_map.1 hx
    rw [Option.some.injEq] at heq
    rw [heq] at hx'
    exact ih x hx' (mem_inboundNodes hx').1

theorem decision_hasValue (h : s.WellFormed) (ha : a.value.Printable)
    (hlookup : ∀ f, (lookup f a).Printable) (hmem : d ∈ s.nodes) (htype : d.type = .decision)
    (hplain : PlainDecision s.nodes s.wires d) : HasValue s lookup a d := by
  obtain ⟨r, hone, hr, hcond⟩ := hplain.source
  refine (domain_session h ha hlookup).yields (mem_sources.2 ⟨hmem, by rw [htype]; decide⟩)
    fun x hx => ?_
  change some x ∈ inputs s.nodes s.wires d at hx
  rw [inputs, htype, hone] at hx
  rcases List.mem_cons.1 hx with hxr | hxc
  · rw [Option.some.inj hxr]
    exact source_hasValue ha hr (Or.inl rfl)
  · split at hxc
    · cases hxc
    · have hc := (List.mem_singleton.1 hxc).symm
      exact condition_hasValue h ha hlookup hr (hcond x hc) (mem_inboundNodes (one_mem hc)).1

end

end Signbox
