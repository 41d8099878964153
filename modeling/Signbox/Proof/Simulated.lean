import Signbox.Proof.Magnitude
import Signbox.Proof.Loadable
import Signbox.Proof.WellFormed

/-!
# Nodes of the simulator

Where the data of a transaction and the rows of the tables can be printed, as all that a JSON
document holds can, no node of an editor graph fails to evaluate.

* `Json.Printable`, `Printable.toText`: the values that `String` does not fail on.
* `txToSampleActions_printable`: the actions of such a transaction.
* `apply_ok`, `domain_session`: every node evaluates, whatever it is wired to.
-/

namespace Signbox

open Guard

/-! ## Values with a text -/

/-- A value that has a text, and so has everything in it. A member called `toString` would take it
away. -/
inductive Json.Printable : Json → Prop
  | null : Printable .null
  | bool (b : Bool) : Printable (.bool b)
  | num (n : JsNumber) : Printable (.num n)
  | str (s : JsString) : Printable (.str s)
  | arr {items : List Json} (h : ∀ v ∈ items, Printable v) : Printable (.arr items)
  | obj {members : List (JsString × Json)} (htext : members.lookup (js "toString") = none)
      (h : ∀ m ∈ members, Printable m.2) : Printable (.obj .ordinary members)

/-- A list is joined when each entry has a text. -/
theorem joinItems_ok {items : List Json} (h : ∀ v ∈ items, ∃ t, v.toText = .ok t) :
    ∃ ts, joinItems items = .ok ts := by
  induction items with
  | nil => exact ⟨[], rfl⟩
  | cons v items ih =>
    rw [List.forall_mem_cons] at h
    obtain ⟨t, ht⟩ := h.1
    obtain ⟨ts, hts⟩ := ih h.2
    cases v <;> simp [joinItems, hts, ht]

/-- A printable value has a text. -/
theorem Json.Printable.toText {v : Json} (h : v.Printable) : ∃ t, v.toText = .ok t := by
  induction h with
  | null => exact ⟨_, rfl⟩
  | bool b => exact ⟨_, rfl⟩
  | num n => exact ⟨_, rfl⟩
  | str s => exact ⟨_, rfl⟩
  | arr h ih =>
    obtain ⟨ts, hts⟩ := joinItems_ok ih
    exact ⟨JsString.join (js ",") ts, by simp [Json.toText, hts]⟩
  | obj htext h ih => exact ⟨js "[object Object]", by simp [Json.toText, htext]⟩

/-- The simulator's values: printable when they are printable JSON, or no JSON at all. -/
def JsValue.Printable : JsValue → Prop
  | .json v => v.Printable
  | _ => True

/-- A printable value of the simulator has a text. -/
theorem JsValue.Printable.toText {v : JsValue} (h : v.Printable) : ∃ t, v.toText = .ok t := by
  cases v with
  | json v => exact Json.Printable.toText h
  | undefined => exact ⟨_, rfl⟩
  | function name => exact ⟨_, rfl⟩
  | objectPrototype => exact ⟨_, rfl⟩

/-- What is found on a prototype is a function or nothing, so it is printable. -/
theorem prototypeMember_printable (key : JsString) : (prototypeMember key).Printable := by
  unfold prototypeMember
  split
  · exact Json.Printable.null
  · split <;> trivial

/-- Properties of printable values are printable, -/
theorem JsValue.Printable.property {v : JsValue} (h : v.Printable) (key : JsString) :
    (v.property key).Printable := by
  cases v with
  | undefined => trivial
  | function name => trivial
  | objectPrototype => exact prototypeMember_printable key
  | json v =>
    cases h with
    | null => trivial
    | bool b => trivial
    | num n => trivial
    | str s => trivial
    | arr hitems =>
      simp only [JsValue.property, readArray]
      split
      · next w hw =>
        have hmem := mem_of_lookup hw
        rw [Json.entries, List.mem_map] at hmem
        obtain ⟨e, he, heq⟩ := hmem
        rw [← (Prod.mk.inj heq).2]
        exact hitems _ (List.fst_mem_of_mem_zipIdx he)
      · split_ifs
        · exact Json.Printable.num _
        · exact Json.Printable.arr (by simp)
        · trivial
        · trivial
        · exact prototypeMember_printable key
    | obj htext hms =>
      simp only [JsValue.property, JsValue.readObject, readMember]
      split
      · next w hw => exact hms _ (mem_of_lookup hw)
      · split_ifs
        · trivial
        · exact prototypeMember_printable key

/-- so is all that a path leads to. -/
theorem getPath_printable {v : JsValue} (h : v.Printable) (path : JsString) :
    (Eval.getPath v path).Printable := by
  unfold Eval.getPath
  induction JsString.split (unit '.') path generalizing v with
  | nil => exact h
  | cons seg segs ih => exact ih (h.property seg)

/-! ## Test transactions -/

/-- The members of an object that can be printed. -/
def PrintableMembers (ms : List (JsString × Json)) : Prop :=
  ms.lookup (js "toString") = none ∧ ∀ m ∈ ms, m.2.Printable

/-- A printable member may be set, except under `toString`. -/
theorem PrintableMembers.mapSet {ms : List (JsString × Json)} {key : JsString} {v : Json}
    (h : PrintableMembers ms) (hkey : js "toString" ≠ key) (hv : v.Printable) :
    PrintableMembers (mapSet key v ms) := by
  refine ⟨by rw [lookup_mapSet, if_neg hkey]; exact h.1, ?_⟩
  have hmembers := h.2
  clear h
  induction ms with
  | nil =>
    intro m hm
    rw [Signbox.mapSet, List.mem_singleton] at hm
    rw [hm]
    exact hv
  | cons e ms ih =>
    rw [List.forall_mem_cons] at hmembers
    intro m hm
    unfold Signbox.mapSet at hm
    split at hm
    · rcases List.mem_cons.1 hm with rfl | hm
      · exact hv
      · exact hmembers.2 m hm
    · rcases List.mem_cons.1 hm with rfl | hm
      · exact hmembers.1
      · exact ih hmembers.2 m hm

/-- A member given in a printable object is printable. -/
theorem Json.Printable.given {v w : Json} {key : JsString} (h : v.Printable)
    (hw : v.given key = some w) : w.Printable := by
  have hget : v.get key = some w := by
    unfold Json.given at hw
    split at hw
    · cases hw
    · exact hw
  cases h with
  | obj htext hms => exact hms _ (mem_of_lookup hget)
  | _ => cases hget

/-- No index is named `toString`. -/
theorem lookup_toString_index {β : Type} {f : β → Json} {l : List (β × ℕ)} :
    (l.map fun e => (digitsOf e.2, f e.1)).lookup (js "toString") = none := by
  induction l with
  | nil => rfl
  | cons e l ih =>
    have hne : (js "toString" == digitsOf e.2) = false := by
      rw [beq_eq_false_iff_ne]
      intro heq
      have hdigit := (JsonText.digitsOf_spec e.2).digits (unit 't')
      rw [← heq] at hdigit
      exact absurd (hdigit (by decide)) (by decide)
    rw [List.map_cons, List.lookup_cons, hne]
    exact ih

/-- The entries of a printable value are printable. -/
theorem Json.Printable.entries {v : Json} (h : v.Printable) : PrintableMembers v.entries := by
  cases h with
  | obj htext hms => exact ⟨htext, hms⟩
  | arr hitems =>
    refine ⟨lookup_toString_index (f := id), ?_⟩
    intro m hm
    obtain ⟨e, he, rfl⟩ := List.mem_map.1 hm
    exact hitems _ (List.fst_mem_of_mem_zipIdx he)
  | str s =>
    refine ⟨lookup_toString_index (f := fun u => .str [u]), ?_⟩
    intro m hm
    obtain ⟨e, -, rfl⟩ := List.mem_map.1 hm
    exact .str _
  | null => exact ⟨rfl, by simp [Json.entries]⟩
  | bool b => exact ⟨rfl, by simp [Json.entries]⟩
  | num n => exact ⟨rfl, by simp [Json.entries]⟩

namespace Eval

/-- Normalizing keeps printable data printable. -/
theorem normalizeData_printable {d : Json} {ms : List (JsString × Json)} (h : d.Printable)
    (hms : normalizeData d = .ok ms) : PrintableMembers ms := by
  simp only [normalizeData, bind_ok] at hms
  obtain ⟨quantity, -, sender, -, recipient, -, hret⟩ := hms
  rw [← Except.ok.inj hret]
  have hquantity : Json.Printable (.obj .ordinary
      [(js "amount", .str quantity.1), (js "symbol", .str quantity.2)]) := by
    have hamount : (js "toString" == js "amount") = false := by decide
    have hsymbol : (js "toString" == js "symbol") = false := by decide
    refine .obj (by simp [List.lookup_cons, hamount, hsymbol]) ?_
    intro m hm
    simp only [List.mem_cons, List.not_mem_nil, or_false] at hm
    rcases hm with rfl | rfl <;> exact .str _
  exact ((h.entries.mapSet (by decide) (.str _)).mapSet (by decide) (.str _)).mapSet (by decide)
    hquantity

/-- A test transaction that can be printed has actions that can. -/
theorem txToSampleActions_printable {tx : Json} {actions : List SampleAction} (h : tx.Printable)
    (hactions : txToSampleActions tx = .ok actions) : ∀ a ∈ actions, a.value.Printable := by
  have hraw : ∀ x ∈ (extractActions tx).getD [], x.Printable := by
    unfold extractActions
    cases h with
    | arr hitems => exact hitems
    | obj htext hms =>
      simp only
      split
      · next items hitems =>
        have hactions := hms _ (mem_of_lookup hitems)
        cases hactions with
        | arr hitems => exact hitems
      · split
        · intro x hx
          rw [Option.getD_some, List.mem_singleton] at hx
          rw [hx]
          exact .obj htext hms
        · simp
    | _ => simp
  intro a ha
  obtain ⟨x, hx, hxa⟩ := mapM_ok_mem hactions ha
  have hdata : PrintableMembers a.data := by
    have hx' := hraw x hx
    unfold sampleAction at hxa
    split at hxa
    · cases hxa
    · simp only [bind_ok] at hxa
      obtain ⟨contract, -, action, -, ms, hms, hret⟩ := hxa
      rw [← Except.ok.inj hret]
      refine normalizeData_printable ?_ hms
      cases hgiven : x.given (js "data") with
      | none => exact .obj rfl (by simp)
      | some d => exact hx'.given hgiven
  have hcontract : (js "toString" == js "contract") = false := by decide
  have haction : (js "toString" == js "action") = false := by decide
  have hname : (js "toString" == js "data") = false := by decide
  refine .obj (by simp [List.lookup_cons, hcontract, haction, hname]) ?_
  intro m hm
  simp only [List.mem_cons, List.not_mem_nil, or_false] at hm
  rcases hm with rfl | rfl | rfl
  · exact .str _
  · exact .str _
  · exact .obj hdata.1 hdata.2

end Eval

namespace Eval

variable {a : SampleAction} {lookup : LookupResolver} {n : GraphNode} {v : Value} {vs : List Value}

/-! ## One node -/

/-- What a node other than the policy may evaluate to: nothing, or a value that can be printed. -/
def Value.Printable : Value → Prop
  | .skip => True
  | .of v => v.Printable
  | .verdicts _ => False

/-- Printable values of the evaluation have texts. -/
theorem Value.Printable.toText (h : v.Printable) : ∃ t, v.toText = .ok t := by
  cases v with
  | skip => exact ⟨_, rfl⟩
  | of v => exact JsValue.Printable.toText h
  | verdicts vs => exact h.elim

/-- A boolean is printable. -/
theorem Value.printable_bool (b : Bool) : (Value.bool b).Printable := Json.Printable.bool b

/-- One of two printable values is printable. -/
theorem Value.printable_ite {v w : Value} (b : Bool) (hv : v.Printable) (hw : w.Printable) :
    (if b = true then v else w).Printable := by
  cases b with
  | true => exact hv
  | false => exact hw

/-- Comparing a printable value does not throw, -/
theorem compare_ok (h : v.Printable) (op expected : JsString) :
    ∃ b, compare v op expected = .ok b := by
  obtain ⟨t, ht⟩ := h.toText
  unfold compare
  simp only [ht, bind, Except.bind, pure, Except.pure]
  repeat' split
  all_goals exact ⟨_, rfl⟩

/-- nor does looking it up in a list, -/
theorem includedIn_ok (h : v.Printable) (list : List JsString) :
    ∃ b, includedIn list v = .ok b := by
  obtain ⟨t, ht⟩ := h.toText
  unfold includedIn
  split
  · exact ⟨_, rfl⟩
  · exact ⟨_, by rw [ht]; rfl⟩

/-- nor does turning a list of them into texts. -/
theorem texts_ok {items : List Json} (h : ∀ v ∈ items, v.Printable) :
    ∃ ts, items.mapM Json.toText = .ok ts := by
  induction items with
  | nil => exact ⟨[], rfl⟩
  | cons v items ih =>
    rw [List.forall_mem_cons] at h
    obtain ⟨t, ht⟩ := h.1.toText
    obtain ⟨ts, hts⟩ := ih h.2
    exact ⟨t :: ts, by simp [ht, hts, bind, Except.bind, pure, Except.pure]⟩

/-- A verdict is printable. -/
theorem verdict_printable (n : GraphNode) : (verdict n).Printable := by
  refine .obj ?_ ?_
  · have heffect : (js "toString" == js "effect") = false := by decide
    have hrule : (js "toString" == js "rule") = false := by decide
    cases n.fields.lookup (js "effect") <;> simp [List.lookup_cons, heffect, hrule]
  · intro m hm
    simp only [List.mem_append, List.mem_singleton, Option.mem_toList, Option.map_eq_some_iff] at hm
    rcases hm with ⟨w, -, rfl⟩ | rfl
    · cases w with
      | str s => exact .str s
      | bool b => exact .bool b
    · exact .num _

/-- **Every node evaluates**, on values that do, to a value that does. No node throws, because
everything it is given has a text. -/
theorem apply_ok (hn : n.type ≠ .policy) (ha : a.value.Printable)
    (hlookup : ∀ f, (lookup f a).Printable) (hvs : ∀ v ∈ vs, v.Printable) :
    ∃ v, apply lookup a n vs = .ok v ∧ v.Printable := by
  -- every kind of node reads at most a first value, or skips
  have hfirst : (vs.head?.getD (.of .undefined)).Printable := by
    cases vs with
    | nil => trivial
    | cons v vs => exact hvs v List.mem_cons_self
  unfold apply
  generalize vs.head?.getD (.of .undefined) = first at hfirst
  cases htype : n.type
  case policy => exact absurd htype hn
  case transaction => exact ⟨_, rfl, ha⟩
  case routeif => exact ⟨_, rfl, Value.printable_ite _ hfirst trivial⟩
  case getfield =>
    cases first with
    | of v =>
      refine ⟨_, rfl, ?_⟩
      change JsValue.Printable (ite _ _ _)
      split
      · trivial
      · exact getPath_printable hfirst _
    | skip => exact ⟨_, rfl, trivial⟩
    | verdicts vs => exact ⟨_, rfl, trivial⟩
  case constant => exact ⟨_, rfl, Json.Printable.str _⟩
  -- the comparisons and the lists turn their value into a text, which is where one could throw
  case compare =>
    obtain ⟨b, hb⟩ := compare_ok hfirst (n.fields.text (js "op"))
      (substitute (n.fields.text (js "value")) a)
    exact ⟨.bool b, by simp only [hb, bind, Except.bind, pure, Except.pure],
      Value.printable_bool b⟩
  case inlist =>
    obtain ⟨b, hb⟩ := includedIn_ok hfirst (listItems n.fields a)
    simp only [hb, bind, Except.bind, pure, Except.pure]
    exact ⟨_, rfl, Value.printable_bool _⟩
  case contains =>
    simp only
    split
    · next items =>
      obtain ⟨ts, hts⟩ : ∃ ts, items.mapM Json.toText = .ok ts := by
        cases hfirst with
        | arr h => exact texts_ok h
      simp only [hts, bind, Except.bind, pure, Except.pure]
      exact ⟨_, rfl, Value.printable_bool _⟩
    · exact ⟨_, rfl, Value.printable_bool _⟩
  case booland => exact ⟨_, rfl, Value.printable_bool _⟩
  case boolor => exact ⟨_, rfl, Value.printable_bool _⟩
  case boolnot => exact ⟨_, rfl, Value.printable_bool _⟩
  -- a lookup yields the row of the table, which is printable by assumption
  case lookup =>
    simp only
    split
    · exact ⟨_, rfl, trivial⟩
    · exact ⟨_, rfl, trivial⟩
    · exact ⟨_, rfl, hlookup _⟩
  case decision =>
    simp only
    split
    · exact ⟨_, rfl, trivial⟩
    · exact ⟨_, rfl, Value.printable_ite _ (verdict_printable n) Json.Printable.null⟩
  case aggregate => exact ⟨_, rfl, hfirst⟩

/-! ## The graph -/

section
variable {s : GraphState}

/-- An inbound node is one of the graph, and a wire leads from it into the port. -/
theorem mem_inboundNodes {nodes : List GraphNode} {wires : List Wire} {id : ℕ} {key : JsString}
    {m : GraphNode} (h : m ∈ inboundNodes nodes wires id key) :
    m ∈ nodes ∧ ∃ w ∈ wires, w.fromPort.node = m.id ∧ w.toPort = ⟨id, key⟩ := by
  rw [inboundNodes, List.mem_filterMap] at h
  obtain ⟨w, hw, hm⟩ := h
  rw [List.mem_filter, decide_eq_true_eq] at hw
  exact ⟨nodeById_mem hm, w, hw.1, (nodeById_id hm).symm, hw.2⟩

/-- A single inbound node is an inbound node. -/
theorem one_mem {nodes : List GraphNode} {wires : List Wire} {id : ℕ} {key : JsString}
    {m : GraphNode} (h : one nodes wires id key = some m) : m ∈ inboundNodes nodes wires id key :=
  List.mem_of_head? h

/-- What a node reads is wired into it. -/
theorem mem_inputs {nodes : List GraphNode} {wires : List Wire} {m : GraphNode}
    (h : some m ∈ inputs nodes wires n) : ∃ key, m ∈ inboundNodes nodes wires n.id key := by
  have hone : ∀ key, some m ∈ [one nodes wires n.id key] →
      ∃ key, m ∈ inboundNodes nodes wires n.id key := by
    intro key hm
    rw [List.mem_singleton] at hm
    exact ⟨key, one_mem hm.symm⟩
  unfold inputs at h
  cases htype : n.type <;> simp only [htype] at h
  case transaction => cases h
  case constant => cases h
  case booland | boolor | policy =>
    obtain ⟨m', hm', heq⟩ := List.mem_map.1 h
    rw [Option.some.injEq] at heq
    exact ⟨_, heq ▸ hm'⟩
  case decision =>
    rcases List.mem_cons.1 h with h | h
    · exact hone _ (List.mem_singleton.2 h)
    · split at h
      · cases h
      · exact hone _ h
  all_goals exact hone _ h

/-- The policy has no output. -/
theorem source_type (h : s.WellFormed) {id : ℕ} {key : JsString}
    {m : GraphNode} (hm : m ∈ inboundNodes s.nodes s.wires id key) : m.type ≠ .policy := by
  obtain ⟨hmem, w, hw, hid, -⟩ := mem_inboundNodes hm
  obtain ⟨b, hb, c, -, hfrom, -, -, hfit⟩ := h.joins w hw
  have hsame : b = m := List.inj_on_of_nodup_map h.distinct hb hmem (hfrom.trans hid)
  rw [hsame] at hfit
  obtain ⟨out, hout, -, -, hside, -⟩ := hfit
  intro htype
  rw [htype] at hout
  simp only [NodeType.ports, List.mem_singleton] at hout
  rw [hout] at hside
  cases hside

/-- The nodes that others may read. -/
def sources (nodes : List GraphNode) : List GraphNode := nodes.filter fun n => n.type ≠ .policy

/-- Every node but the policy is a source of values. -/
theorem mem_sources {nodes : List GraphNode} : n ∈ sources nodes ↔ n ∈ nodes ∧ n.type ≠ .policy := by
  rw [sources, List.mem_filter, decide_eq_true_eq]

/-- **The graph of a session evaluates**, on an action and with rows that can be printed. The nodes
that are read lie in the graph again, which is what well-formedness gives. -/
theorem domain_session (h : s.WellFormed) (ha : a.value.Printable)
    (hlookup : ∀ f, (lookup f a).Printable) :
    Memo.Domain (graph s.nodes s.wires lookup a) Value.Printable (sources s.nodes) where
  inputs := by
    intro n _ m hm
    obtain ⟨key, hkey⟩ := mem_inputs hm
    exact mem_sources.2 ⟨(mem_inboundNodes hkey).1, source_type h hkey⟩
  inj := by
    intro n hn m hm hid
    exact List.inj_on_of_nodup_map h.distinct (mem_sources.1 hn).1 (mem_sources.1 hm).1 hid
  missing := trivial
  total := by
    intro n hn vs hvs
    exact apply_ok (mem_sources.1 hn).2 ha hlookup hvs

end

end Eval

end Signbox
