import Signbox.Proof.Authoring
import Signbox.Proof.LimitFields
import Signbox.Proof.Sketched
import Signbox.Proof.StoredText

/-!
# Decompiled graphs, compiled

Every rule of a policy becomes a band of nodes with one decision, and from that decision the
compiler collects a rule again: contract and action first, then the other fields and the
providers, last one first.

* `upstream_band`: the walk of the compiler through a band.
* `compileDecision_band`: the rule it compiles there.
* `compilePolicy_decompiled`: the whole graph.
-/

namespace Signbox

open Guard Schema

variable {nodes : List GraphNode} {wires : List Wire} {lo : ℕ}

/-! ## A band -/

/-- The nodes and wires of one rule. -/
def band (txn policyNode routeif decision : GraphNode) (conditions : Sketch) (y : ℚ)
    (warnings : List JsString) : Sketch :=
  let join := joinConditions conditions.bools decision y
  ⟨[routeif] ++ conditions.nodes ++ [decision] ++ join.nodes,
    [mkWire txn (js "tx") routeif (js "tx")] ++ conditions.wires ++ join.wires ++
      [mkWire routeif (js "out") decision (js "tx"),
        mkWire decision (js "out") policyNode (js "in")], [], warnings⟩

/-- The parts of a band, in their places. -/
structure BandParts (txn policyNode routeif decision : GraphNode) (conditions : Sketch) (lo : ℕ)
    (clauses : List Clause) : Prop where
  low : policyId < lo
  txnId : txn.id = 1
  toPolicy : policyNode.id = policyId
  routeId : routeif.id = lo
  routeType : routeif.type = .routeif
  decisionId : decision.id = lo + 1 + conditions.nodes.length
  decisionType : decision.type = .decision
  compiles : conditions.Compiles (lo + 1) [1, lo] clauses

namespace BandParts

variable {txn policyNode routeif decision : GraphNode} {conditions : Sketch}
  {clauses : List Clause} {y : ℚ} {ws : List JsString}

/-- Two conditions or more are joined by a node of their own. -/
theorem join_cases (bools : List GraphNode) (decision : GraphNode) (y : ℚ) :
    ((joinConditions bools decision y).nodes = [] ∧
      (joinConditions bools decision y).wires =
        bools.map fun b => mkWire b (js "out") decision (js "cond")) ∨
    ∃ conj : GraphNode, conj.id = decision.id + 1 ∧ conj.type = .booland ∧
      (joinConditions bools decision y).nodes = [conj] ∧
      (joinConditions bools decision y).wires =
        bools.map (fun b => mkWire b (js "out") conj (js "in")) ++
          [mkWire conj (js "out") decision (js "cond")] := by
  match bools with
  | [] => exact Or.inl ⟨rfl, rfl⟩
  | [b] => exact Or.inl ⟨rfl, rfl⟩
  | b :: b' :: bs => exact Or.inr ⟨_, rfl, rfl, rfl, rfl⟩

theorem range_ends (lo len : ℕ) :
    lo :: (List.range' (lo + 1) len ++ [lo + 1 + len]) = List.range' lo (len + 2) := by
  have hlast : [lo + 1 + len] = List.range' (lo + 1 + len) 1 := rfl
  rw [hlast, List.range'_append_1, ← List.range'_succ]

theorem at_band (h : BandParts txn policyNode routeif decision conditions lo clauses) :
    (band txn policyNode routeif decision conditions y ws).At lo := by
  have hcond := h.compiles.at'
  have hpolicy := h.toPolicy
  have hroute := h.routeId
  have hdecision := h.decisionId
  set len := conditions.nodes.length with hlen
  have hids := range_ends lo len
  -- one condition is wired to the decision, several are joined by a node after it
  rcases join_cases conditions.bools decision y with
    ⟨hnodes, hwires⟩ | ⟨conj, hconj, -, hnodes, hwires⟩
  · have hsize : (band txn policyNode routeif decision conditions y ws).nodes.length = len + 2 := by
      simp [band, hnodes, hlen]
    refine ⟨h.low, ?_, ?_⟩
    · rw [hsize, ← hids]
      simp [band, hnodes, hcond.ids, hroute, hdecision, hlen]
    -- every wire ends inside the band
    · intro w hw
      rw [hsize]
      simp only [band, hwires, List.mem_append, List.mem_cons, List.not_mem_nil, or_false,
        List.mem_map] at hw
      rcases hw with ((rfl | hw) | ⟨b, -, rfl⟩) | rfl | rfl
      · simp only [mkWire]
        omega
      · have hin := hcond.inside w hw
        omega
      · simp only [mkWire]
        omega
      · simp only [mkWire]
        omega
      · simp only [mkWire]
        omega
  · have hsize : (band txn policyNode routeif decision conditions y ws).nodes.length = len + 3 := by
      simp [band, hnodes, hlen]
    refine ⟨h.low, ?_, ?_⟩
    · have hlast : List.range' lo (len + 3) = List.range' lo (len + 2) ++ [lo + (len + 2)] := by
        rw [List.range'_1_concat]
      rw [hsize, hlast, ← hids]
      simp [band, hnodes, hcond.ids, hroute, hdecision, hlen, hconj]
      omega
    · intro w hw
      rw [hsize]
      simp only [band, hwires, List.mem_append, List.mem_cons, List.not_mem_nil, or_false,
        List.mem_map] at hw
      rcases hw with ((rfl | hw) | ⟨b, -, rfl⟩ | rfl) | rfl | rfl
      · simp only [mkWire]
        omega
      · have hin := hcond.inside w hw
        omega
      · simp only [mkWire]
        omega
      · simp only [mkWire]
        omega
      · simp only [mkWire]
        omega
      · simp only [mkWire]
        omega

/-- The wires into the nodes of a band. -/
theorem wiresInto_band (h : BandParts txn policyNode routeif decision conditions lo clauses)
    (i : ℕ) (hlo : lo ≤ i) : wiresInto (band txn policyNode routeif decision conditions y ws).wires i =
      (if i = lo then [mkWire txn (js "tx") routeif (js "tx")] else []) ++
        wiresInto conditions.wires i ++
        wiresInto (joinConditions conditions.bools decision y).wires i ++
        (if i = decision.id then [mkWire routeif (js "out") decision (js "tx")] else []) := by
  have hlow := h.low
  have hroute := h.routeId
  have hpolicy := h.toPolicy
  have hone : ∀ (w : Wire), wiresInto [w] i = if i = w.toPort.node then [w] else [] := by
    intro w
    rw [wiresInto, List.filter_singleton]
    simp only [Bool.cond_decide, eq_comm (a := i)]
  have hpol : i ≠ policyId := by omega
  have hlast : ∀ (w v : Wire), wiresInto [w, v] i = wiresInto [w] i ++ wiresInto [v] i :=
    fun w v => wiresInto_append [w] [v] i
  simp only [band, wiresInto_append, hlast, hone, mkWire, hroute, hpolicy, if_neg hpol,
    List.append_nil]

/-- The wires that join the conditions lead to the decision or the joining node. -/
theorem wiresInto_join {bools : List GraphNode} {i : ℕ} (hi : i ≠ decision.id)
    (hconj : i ≠ decision.id + 1) : wiresInto (joinConditions bools decision y).wires i = [] := by
  rw [wiresInto, List.filter_eq_nil_iff]
  intro w hw
  rw [decide_eq_true_eq]
  rcases join_cases bools decision y with ⟨-, hwires⟩ | ⟨conj, hid, -, -, hwires⟩
  · rw [hwires] at hw
    obtain ⟨b, -, rfl⟩ := List.mem_map.1 hw
    exact fun hto => hi hto.symm
  · rw [hwires, List.mem_append, List.mem_singleton] at hw
    rcases hw with hw | rfl
    · obtain ⟨b, -, rfl⟩ := List.mem_map.1 hw
      rw [← hid] at hconj
      exact fun hto => hconj hto.symm
    · exact fun hto => hi hto.symm

theorem held_conditions (h : BandParts txn policyNode routeif decision conditions lo clauses)
    (hheld : Held nodes wires (band txn policyNode routeif decision conditions y ws) lo) :
    Held nodes wires conditions (lo + 1) := by
  have hlow := h.low
  have hdecision := h.decisionId
  refine ⟨fun n hn => hheld.nodes n (by simp [band, hn]), fun i hlo hhi => ?_⟩
  have hrange : i < lo + (band txn policyNode routeif decision conditions y ws).nodes.length := by
    simp only [band, List.length_append, List.length_cons, List.length_nil]
    omega
  rw [hheld.wires i (by omega) hrange, wiresInto_band h i (by omega),
    wiresInto_join (by omega) (by omega), if_neg (by omega), if_neg (by omega), List.nil_append,
    List.append_nil, List.append_nil]

/-- **The walk through a band**: the decision, its Route If, the transaction, the node that joins
the conditions, and the conditions. -/
theorem upstream_band (h : BandParts txn policyNode routeif decision conditions lo clauses)
    (hheld : Held nodes wires (band txn policyNode routeif decision conditions y ws) lo)
    (htxn : wiresInto wires 1 = []) : ∃ joinIds ids,
      upstream wires decision.id = decision.id :: routeif.id :: 1 :: (joinIds ++ ids) ∧
      (∀ d, collect nodes wires joinIds d = d) ∧
      ∀ d, collect nodes wires ids d = clauses.reverse.foldl Draft.add d := by
  have hlow : 2 < lo := h.low
  have hroute := h.routeId
  have hdecision := h.decisionId
  have hcond := held_conditions h hheld
  have hat := h.compiles.at'
  have hsize : lo + conditions.nodes.length + 2 ≤
      lo + (band txn policyNode routeif decision conditions y ws).nodes.length := by
    simp only [band, List.length_append, List.length_cons, List.length_nil]
    omega
  have hrouteWires : wiresInto wires routeif.id = [mkWire txn (js "tx") routeif (js "tx")] := by
    rw [hheld.wires _ (by omega) (by omega), wiresInto_band h _ (by omega),
      wiresInto_join (by omega) (by omega), hat.wiresInto_nil (by omega) (by unfold policyId; omega),
      if_pos hroute, if_neg (by omega)]
    rfl
  have hdecisionWires : wiresInto wires decision.id =
      wiresInto (joinConditions conditions.bools decision y).wires decision.id ++
        [mkWire routeif (js "out") decision (js "tx")] := by
    rw [hheld.wires _ (by omega) (by omega), wiresInto_band h _ (by omega),
      hat.wiresInto_nil (by omega) (by unfold policyId; omega), if_neg (by omega), if_pos rfl]
    rfl
  -- the Route If and the transaction come first, whatever joins the conditions
  have hstart : ∀ stack, Walk.walk (upEdges wires) [decision.id] (routeif.id :: stack) =
      Walk.walk (upEdges wires) [decision.id, routeif.id, 1] stack := by
    intro stack
    have hnew : routeif.id ∉ [decision.id] := by
      rw [List.mem_singleton]
      omega
    have hnewTxn : 1 ∉ [decision.id] ++ [routeif.id] := by
      simp only [List.cons_append, List.nil_append, List.mem_cons, List.not_mem_nil, or_false]
      omega
    have hfirst := walk_single stack hnew hrouteWires
    rw [show (mkWire txn (js "tx") routeif (js "tx")).fromPort.node = 1 from h.txnId,
      Walk.walk_new hnewTxn, targets_upEdges, htxn] at hfirst
    exact hfirst
  have hdown : upstream wires decision.id = Walk.walk (upEdges wires) [decision.id]
      (routeif.id :: ((wiresInto (joinConditions conditions.bools decision y).wires
        decision.id).map fun w => w.fromPort.node).reverse) := by
    change Walk.walk (upEdges wires) [] [decision.id] = _
    rw [Walk.walk_new (List.not_mem_nil), targets_upEdges, hdecisionWires, List.map_append,
      List.reverse_append, List.append_nil]
    rfl
  have hfrom : ∀ (dst : GraphNode) (key : JsString), (conditions.bools.map fun b =>
      mkWire b (js "out") dst key).map (fun w => w.fromPort.node) =
        conditions.bools.map (·.id) := by
    intro dst key
    rw [List.map_map]
    rfl
  rcases join_cases conditions.bools decision y with
    ⟨-, hwires⟩ | ⟨conj, hconj, htype, hnodes, hwires⟩
  · have hjoin : wiresInto (joinConditions conditions.bools decision y).wires decision.id =
        conditions.bools.map fun b => mkWire b (js "out") decision (js "cond") := by
      rw [hwires, wiresInto, List.filter_eq_self]
      intro w hw
      obtain ⟨b, -, rfl⟩ := List.mem_map.1 hw
      exact decide_eq_true rfl
    obtain ⟨ids, hwalk, -, hcollect⟩ := @Sketch.Compiles.walk _ _ _ _ h.compiles _ _
      [decision.id, routeif.id, 1] [] hcond (by simp [hroute]) fun i hi => by
        simp only [List.mem_cons, List.not_mem_nil, or_false] at hi
        omega
    refine ⟨[], ids, ?_, fun d => rfl, hcollect⟩
    rw [List.append_nil] at hwalk
    rw [hdown, hstart, hjoin, hfrom, hwalk, Walk.walk_nil]
    rfl
  · have hjoin : wiresInto (joinConditions conditions.bools decision y).wires decision.id =
        [mkWire conj (js "out") decision (js "cond")] := by
      have hnone : wiresInto (conditions.bools.map fun b => mkWire b (js "out") conj (js "in"))
          decision.id = [] := by
        rw [wiresInto, List.filter_eq_nil_iff]
        intro w hw
        obtain ⟨b, -, rfl⟩ := List.mem_map.1 hw
        rw [decide_eq_true_eq]
        simp only [mkWire]
        omega
      rw [hwires, wiresInto_append, hnone]
      simp [wiresInto, mkWire]
    have hconjSize : lo + conditions.nodes.length + 3 ≤
        lo + (band txn policyNode routeif decision conditions y ws).nodes.length := by
      simp only [band, hnodes, List.length_append, List.length_cons, List.length_nil]
      omega
    have hconjWires : wiresInto wires conj.id =
        conditions.bools.map fun b => mkWire b (js "out") conj (js "in") := by
      have hall : wiresInto (conditions.bools.map fun b => mkWire b (js "out") conj (js "in"))
          conj.id = conditions.bools.map fun b => mkWire b (js "out") conj (js "in") := by
        rw [wiresInto, List.filter_eq_self]
        intro w hw
        obtain ⟨b, -, rfl⟩ := List.mem_map.1 hw
        exact decide_eq_true rfl
      have hother : wiresInto [mkWire conj (js "out") decision (js "cond")] conj.id = [] := by
        simp only [wiresInto, mkWire, List.filter_singleton, Bool.cond_decide]
        rw [if_neg (by omega)]
      rw [hheld.wires _ (by omega) (by omega), wiresInto_band h _ (by omega),
        hat.wiresInto_nil (by omega) (by unfold policyId; omega), if_neg (by omega),
        if_neg (by omega), hwires, wiresInto_append, hall, hother]
      simp
    have hnew : conj.id ∉ [decision.id, routeif.id, 1] := by
      simp only [List.mem_cons, List.not_mem_nil, or_false]
      omega
    obtain ⟨ids, hwalk, -, hcollect⟩ := @Sketch.Compiles.walk _ _ _ _ h.compiles _ _
      ([decision.id, routeif.id, 1] ++ [conj.id]) [] hcond (by simp [hroute]) fun i hi => by
        simp only [List.cons_append, List.nil_append, List.mem_cons, List.not_mem_nil,
          or_false] at hi
        omega
    refine ⟨[conj.id], ids, ?_, fun d => ?_, hcollect⟩
    · rw [hdown, hstart, hjoin]
      change Walk.walk (upEdges wires) _ [conj.id] = _
      rw [Walk.walk_new hnew, targets_upEdges, hconjWires, hfrom, hwalk, Walk.walk_nil]
      simp
    · have hmem : conj ∈ (band txn policyNode routeif decision conditions y ws).nodes := by
        simp [band, hnodes]
      rw [collect_cons (hheld.nodes conj hmem), compileNode, htype]
      rfl

theorem decision_band (h : BandParts txn policyNode routeif decision conditions lo clauses) :
    (band txn policyNode routeif decision conditions y ws).nodes.filter
      (fun n => n.type = .decision) = [decision] := by
  have hconditions : conditions.nodes.filter (fun n => n.type = .decision) = [] := by
    rw [List.filter_eq_nil_iff]
    intro n hn
    simpa using h.compiles.types n hn
  have hjoin : (joinConditions conditions.bools decision y).nodes.filter
      (fun n => n.type = .decision) = [] := by
    rcases join_cases conditions.bools decision y with ⟨hnodes, -⟩ | ⟨conj, -, htype, hnodes, -⟩
    · rw [hnodes]
      rfl
    · rw [hnodes, List.filter_singleton, htype]
      rfl
  simp only [band, List.filter_append, hconditions, hjoin, List.filter_singleton, h.routeType,
    h.decisionType]
  rfl

/-- The Route If comes first among the nodes that route. -/
theorem routeOf_band (h : BandParts txn policyNode routeif decision conditions lo clauses)
    (hheld : Held nodes wires (band txn policyNode routeif decision conditions y ws) lo)
    (htxn : wiresInto wires 1 = []) : routeOf nodes wires decision.id = some routeif := by
  obtain ⟨joinIds, ids, hup, -, -⟩ := upstream_band h hheld htxn
  have hdecision : nodeById nodes decision.id = some decision :=
    hheld.nodes decision (by simp [band])
  have hroute : nodeById nodes routeif.id = some routeif := hheld.nodes routeif (by simp [band])
  rw [routeOf, coneOf, hup, List.filterMap_cons_some hdecision, List.filterMap_cons_some hroute,
    List.find?_cons_of_neg (by simp [h.decisionType]), List.find?_cons_of_pos (by simp [h.routeType])]

/-- What the compiler collects for the decision of a band. -/
theorem draftOf_band (h : BandParts txn policyNode routeif decision conditions lo clauses)
    (hheld : Held nodes wires (band txn policyNode routeif decision conditions y ws) lo)
    (htxn : wiresInto wires 1 = []) (hnode : nodeById nodes 1 = some txn)
    (htype : txn.type = .transaction) : draftOf nodes wires decision =
      clauses.reverse.foldl Draft.add ⟨routeMatch (some routeif), [], [], false⟩ := by
  obtain ⟨joinIds, ids, hup, hjoin, hcollect⟩ := upstream_band h hheld htxn
  have hdecision : nodeById nodes decision.id = some decision :=
    hheld.nodes decision (by simp [band])
  have hroute : nodeById nodes routeif.id = some routeif := hheld.nodes routeif (by simp [band])
  have hsilent : ∀ d, collect nodes wires (decision.id :: routeif.id :: [1]) d = d := by
    intro d
    rw [collect_cons hdecision, collect_cons hroute, collect_cons hnode]
    simp only [compileNode, h.decisionType, h.routeType, htype]
    rfl
  have hdraft : draftOf nodes wires decision =
      collect nodes wires (upstream wires decision.id)
        ⟨routeMatch (routeOf nodes wires decision.id), [], [], false⟩ := rfl
  have hsplit : decision.id :: routeif.id :: 1 :: (joinIds ++ ids) =
      (decision.id :: routeif.id :: [1]) ++ (joinIds ++ ids) := rfl
  rw [hdraft, routeOf_band h hheld htxn, hup, hsplit, collect_append, collect_append, hsilent,
    hjoin, hcollect]

end BandParts

/-! ## The rule that comes back -/

/-- The text of a Route If: a literal of `match`, or the default. -/
def routeValue (key default : JsString) (fields : List (JsString × MatchValue)) : JsString :=
  match fields.lookup key with
  | some (.lit t) => t
  | _ => default

def routeContract (r : PolicyRule) : JsString :=
  routeValue (js "contract") (js "eosio.token") r.matchOn

def routeAction (r : PolicyRule) : JsString := routeValue (js "action") (js "transfer") r.matchOn

def fieldEntry (f : JsString × MatchValue) : JsString × Json := (f.1, matchDoc .ordinary f.2.plain)

/-- The rule the compiler makes of a decompiled rule. -/
def compiledOf (r : PolicyRule) : CompiledRule where
  id := slug [effectText r.effect, routeContract r, routeAction r]
  effect := effectText r.effect
  matchOn := [(js "contract", .str (routeContract r)), (js "action", .str (routeAction r))] ++
    (r.matchOn.filter onData).reverse.map fieldEntry
  limits := r.limits.map limitsDoc
  providers := r.providers.map fun qs => qs.reverse.map rowDoc

/-- The clauses of a rule's conditions. -/
def ruleClauses (r : PolicyRule) : List Clause :=
  (r.matchOn.filter onData).map fieldClause ++
    (r.providers.getD []).map fun q => .provider (rowDoc q)

theorem foldl_providers (qs : List TableRowProvider) : ∀ d : Draft,
    (qs.map fun q => Clause.provider (rowDoc q)).foldl Draft.add d =
      { d with providers := d.providers ++ qs.map rowDoc } := by
  induction qs with
  | nil => simp
  | cons q qs ih =>
    intro d
    rw [List.map_cons, List.foldl_cons, ih]
    simp [Draft.add]

theorem foldl_fields (fs : List (JsString × MatchValue)) : ∀ d : Draft,
    (fs.map fieldClause).foldl Draft.add d =
      { d with matchOn := (fs.map fieldEntry).foldl (fun acc m => mapSet m.1 m.2 acc) d.matchOn } := by
  induction fs with
  | nil => exact fun d => rfl
  | cons f fs ih =>
    intro d
    rw [List.map_cons, List.foldl_cons, ih]
    rfl

/-- The draft of a rule whose fields have different paths. -/
theorem foldl_ruleClauses {r : PolicyRule} (hkeys : (r.matchOn.map Prod.fst).Nodup)
    (c a : JsString) : (ruleClauses r).reverse.foldl Draft.add
        ⟨[(js "contract", .str c), (js "action", .str a)], [], [], false⟩ =
      ⟨[(js "contract", .str c), (js "action", .str a)] ++
          (r.matchOn.filter onData).reverse.map fieldEntry,
        (r.providers.getD []).reverse.map rowDoc, [], false⟩ := by
  have hkeep : (((r.matchOn.filter onData).reverse.map fieldEntry).map Prod.fst).Nodup := by
    have hmap : ((r.matchOn.filter onData).reverse.map fieldEntry).map Prod.fst =
        ((r.matchOn.filter onData).map Prod.fst).reverse := by
      rw [List.map_map, List.map_reverse]
      rfl
    rw [hmap, List.nodup_reverse]
    exact hkeys.sublist (List.filter_sublist.map Prod.fst)
  have hnew : ∀ key, key = js "contract" ∨ key = js "action" →
      key ∉ ((r.matchOn.filter onData).reverse.map fieldEntry).map Prod.fst := by
    intro key hkey hmem
    simp only [List.map_map, List.mem_map, List.mem_reverse, List.mem_filter, onData,
      Bool.and_eq_true, decide_eq_true_eq] at hmem
    obtain ⟨f, ⟨-, hc, ha⟩, rfl⟩ := hmem
    rcases hkey with hkey | hkey
    · exact hc hkey
    · exact ha hkey
  have hall : (([(js "contract", Json.str c), (js "action", Json.str a)] ++
      (r.matchOn.filter onData).reverse.map fieldEntry).map Prod.fst).Nodup := by
    have hne : js "contract" ≠ js "action" := by decide
    rw [List.map_append, List.map_cons, List.map_cons, List.map_nil, List.cons_append,
      List.cons_append, List.nil_append, List.nodup_cons, List.nodup_cons, List.mem_cons, not_or]
    exact ⟨⟨hne, hnew _ (Or.inl rfl)⟩, hnew _ (Or.inr rfl), hkeep⟩
  rw [ruleClauses, List.reverse_append, List.foldl_append, ← List.map_reverse, ← List.map_reverse,
    foldl_providers, foldl_fields]
  simp only [List.nil_append, foldl_mapSet hall]

theorem routeMatch_texts {c a : JsString} (hc : c ≠ []) (ha : a ≠ []) (id : ℕ) (x y : ℚ) :
    routeMatch (some (mkNode id .routeif x y
        [(js "contract", .str c), (js "action", .str a)])) =
      [(js "contract", .str c), (js "action", .str a)] := by
  obtain ⟨u, us, rfl⟩ := List.exists_cons_of_ne_nil hc
  obtain ⟨v, vs, rfl⟩ := List.exists_cons_of_ne_nil ha
  rfl

/-! ## The band of a rule -/

/-- A decompiled rule whose conditions and limits come back from their nodes. -/
structure PolicyRule.Readable (r : PolicyRule) : Prop where
  keys : (r.matchOn.map Prod.fst).Nodup
  lists : ∀ f ∈ r.matchOn, onData f = true → f.2.ListKept
  texts : routeContract r ≠ [] ∧ routeAction r ≠ []
  deny : r.effect = .deny → r.limits = none
  limits : ∀ l, r.limits = some l → l.Fits ∧ l.Bounded

variable {d : Json} {r : PolicyRule} {txn policyNode : GraphNode}

/-- **The rule of a decision** with these fields, this Route If and these conditions is the rule
that the fields, the route and the conditions came from. -/
theorem compileDecision_ruleClauses {decision routeif : GraphNode} (hread : r.Readable)
    (hroute : routeOf nodes wires decision.id = some routeif)
    (hmatch : routeMatch (some routeif) =
      [(js "contract", .str (routeContract r)), (js "action", .str (routeAction r))])
    (hcontract : routeif.fields.text (js "contract") = routeContract r)
    (haction : routeif.fields.text (js "action") = routeAction r)
    (hfields : decision.fields = decisionText r.effect (ruleFields r))
    (hproviders : r.providers ≠ some [])
    (hdraft : draftOf nodes wires decision =
      (ruleClauses r).reverse.foldl Draft.add ⟨routeMatch (some routeif), [], [], false⟩) :
    compileDecision nodes wires decision = (some (compiledOf r), []) := by
  rw [hmatch, foldl_ruleClauses hread.keys] at hdraft
  have heffect : decision.fields.text (js "effect") = effectText r.effect := by
    rw [Fields.text, hfields, decisionText_effect]
    rfl
  have hlimits := compile_ruleFields hfields hread.deny hread.limits
  have hrule : compileRule nodes wires decision = (compiledOf r, [], false) := by
    simp only [compileRule, hdraft, hroute, heffect, hcontract, haction, hlimits, compiledOf]
    congr 2
    · cases hl : r.limits with
      | none => rfl
      | some l =>
        have hpos := List.length_pos_of_ne_nil (limitsDoc_ne_nil (hread.limits l hl).1)
        simp only [Option.map_some, Option.getD_some, gt_iff_lt, if_pos hpos]
    · cases hp : r.providers with
      | none => rfl
      | some qs =>
        have hne : qs ≠ [] := fun hnil => hproviders (by rw [hp, hnil])
        have hpos : 0 < (qs.reverse.map rowDoc).length := by
          rw [List.length_map, List.length_reverse]
          exact List.length_pos_of_ne_nil hne
        simp only [Option.map_some, Option.getD_some, gt_iff_lt, if_pos hpos]
  have hnonempty : (compiledOf r).matchOn.length ≠ 0 := by simp [compiledOf]
  simp only [compileDecision, hrule, Bool.false_eq_true, if_false, if_neg hnonempty]

theorem lookup_entries {entries : List (JsString × Json)}
    {fields : List (JsString × MatchValue)} (h : Entries entries fields) (key : JsString) :
    Option.Rel (fun v x => ∃ p, v = matchDoc p x) (entries.lookup key) (fields.lookup key) := by
  induction h with
  | nil => exact .none
  | cons hef _ ih =>
    rw [List.lookup_cons, List.lookup_cons, hef.1]
    split
    · exact .some hef.2
    · exact ih

theorem routeText_entries {entries : List (JsString × Json)}
    {fields : List (JsString × MatchValue)} (h : Entries entries fields)
    (key default : JsString) : routeText entries key default = routeValue key default fields := by
  have hlook := lookup_entries h key
  rw [routeText, routeValue]
  cases hf : fields.lookup key with
  | none =>
    rw [hf] at hlook
    cases he : entries.lookup key with
    | none => rfl
    | some v =>
      rw [he] at hlook
      cases hlook
  | some x =>
    rw [hf] at hlook
    cases he : entries.lookup key with
    | none =>
      rw [he] at hlook
      cases hlook
    | some v =>
      rw [he] at hlook
      cases hlook with
      | some hdoc =>
        obtain ⟨p, rfl⟩ := hdoc
        cases x <;> rfl

theorem entries_keys {entries : List (JsString × Json)} {fields : List (JsString × MatchValue)}
    (h : Entries entries fields) : entries.map Prod.fst = fields.map Prod.fst := by
  induction h with
  | nil => rfl
  | cons hef _ ih => rw [List.map_cons, List.map_cons, hef.1, ih]

/-- The match of a rule's document. -/
theorem match_entries (h : rule xprDialect d = some r) : ∃ p entries,
    d.get (js "match") = some (.obj p entries) ∧ (1 ≤ entries.length ∧ entries.length ≤ 32) ∧
      List.Forall₂ (FieldRead xprDialect) entries r.matchOn := by
  obtain ⟨p, ms, rfl, -, -, -, hmatch, -, -⟩ := rule_iff.1 h
  obtain ⟨u, hu, hfields⟩ := required_some hmatch
  obtain ⟨q, entries, rfl, hlen, hread⟩ := matchFields_iff.1 hfields
  exact ⟨q, entries, hu, hlen, hread⟩

/-- The providers of a rule's document. -/
theorem provider_docs (h : rule xprDialect d = some r) :
    (∀ qs, r.providers = some qs → 1 ≤ qs.length ∧ qs.length ≤ 8) ∧ ∃ docs,
    d.getList (js "providers") = docs ∧
      List.Forall₂ (fun d q => provider xprDialect d = some q) docs (r.providers.getD []) := by
  obtain ⟨p, ms, rfl, -, -, -, -, -, hproviders⟩ := rule_iff.1 h
  have hget : (Json.obj p ms).get (js "providers") = ms.lookup (js "providers") := rfl
  rw [Json.getList, hget]
  cases hlook : ms.lookup (js "providers") with
  | none =>
    rw [Schema.optional, hlook] at hproviders
    rw [← Option.some.inj hproviders]
    refine ⟨fun qs hqs => ?_, [], rfl, .nil⟩
    cases hqs
  | some u =>
    simp only [Schema.optional, hlook, Option.map_eq_some_iff] at hproviders
    obtain ⟨qs, hqs, heq⟩ := hproviders
    obtain ⟨us, rfl, hlen, hus⟩ := array_iff.1 hqs
    rw [← heq]
    refine ⟨fun qs' hqs' => ?_, us, rfl, hus⟩
    rw [← Option.some.inj hqs', ← hus.length_eq]
    exact hlen

/-- A rule the editor has nodes for. -/
structure PolicyRule.Shown (r : PolicyRule) : Prop where
  paths : ∀ f ∈ r.matchOn, f.1 ∈ FIELD_PATHS
  ops : ∀ q ∈ r.providers.getD [], q.op = .contains

/-- A rule without a warning is shown. -/
theorem ruleBand_shown (h : rule xprDialect d = some r) {lo ri : ℕ}
    (hwarn : (ruleBand txn policyNode lo ri d).warnings = []) : r.Shown := by
  obtain ⟨p, entries, hget, hlen, hread⟩ := match_entries h
  obtain ⟨-, docs, hdocs, hproviders⟩ := provider_docs h
  have hentries : ((d.get (js "match")).bind Json.members?).getD [] = entries := by
    rw [hget]
    rfl
  have hne : entries ≠ [] := by
    rintro rfl
    simp at hlen
  obtain ⟨routeif, label, y, y', id, hparts⟩ : ∃ routeif label y y' id,
      (ruleBand txn policyNode lo ri d).warnings =
        (matchFields routeif label (lo + 1) y entries).1.warnings ++
          (providersNodes txn label id y' docs).1.warnings ++ (decisionFields d label).2 := by
    rw [ruleBand]
    simp only [hentries, hdocs, if_neg hne]
    exact ⟨_, _, _, _, _, rfl⟩
  rw [hparts, List.append_eq_nil_iff, List.append_eq_nil_iff] at hwarn
  refine ⟨fun f hf => ?_, providersNodes_contains hproviders hwarn.1.2⟩
  obtain ⟨m, hm, hmf⟩ := forall₂_right hread hf
  rw [← hmf.1]
  exact matchFields_paths hwarn.1.1 m hm

/-- **The band of a rule.** It has one decision, from which the compiler makes the rule again. The
band keeps to its own ids, so the bands of other rules do not reach into it. -/
theorem ruleBand_compiles (h : rule xprDialect d = some r) (hread : r.Readable) (hshown : r.Shown)
    (lo ri : ℕ) (hlow : policyId < lo) (htxnId : txn.id = 1) (htxnType : txn.type = .transaction)
    (hpolicy : policyNode.id = policyId) :
    (ruleBand txn policyNode lo ri d).At lo ∧ ∃ decision : GraphNode,
      (ruleBand txn policyNode lo ri d).nodes.filter (fun n => n.type = .decision) = [decision] ∧
      decision.y = 40 + ri * 300 ∧
      (∃ w ∈ (ruleBand txn policyNode lo ri d).wires,
        w.fromPort.node = decision.id ∧ w.toPort.node = policyId) ∧
      ∀ {nodes : List GraphNode} {wires : List Wire},
        Held nodes wires (ruleBand txn policyNode lo ri d) lo → nodeById nodes 1 = some txn →
        wiresInto wires 1 = [] →
        compileDecision nodes wires decision = (some (compiledOf r), []) := by
  -- what the document of the rule has, read off the rule
  obtain ⟨p, entries, hget, hlen, hfieldsRead⟩ := match_entries h
  obtain ⟨hcount, docs, hdocs, hproviders⟩ := provider_docs h
  have hentries : ((d.get (js "match")).bind Json.members?).getD [] = entries := by
    rw [hget]
    rfl
  have hne : entries ≠ [] := by
    rintro rfl
    simp at hlen
  have hread' : Entries entries r.matchOn :=
    hfieldsRead.imp fun m f hmf => ⟨hmf.1, matchValue_doc hmf.2.2⟩
  have hsome : r.providers ≠ some [] := by
    intro hnil
    have hone := (hcount [] hnil).1
    simp at hone
  -- the nodes of the band, in the order in which their ids are given out
  set label := d.getText (js "id") (js "rule " ++ digitsOf (ri + 1)) with hlabel
  set routeif := mkNode lo .routeif 240 (40 + ri * 300)
    [(js "contract", .str (routeText entries (js "contract") (js "eosio.token"))),
      (js "action", .str (routeText entries (js "action") (js "transfer")))] with hrouteif
  set fields := matchFields routeif label (lo + 1) (40 + ri * 300 + 40) entries with hfields
  set lookups := providersNodes txn label (lo + 1 + fields.1.nodes.length) fields.2 docs
    with hlookups
  set decision := mkNode (lo + 1 + fields.1.nodes.length + lookups.1.nodes.length) .decision 1130
    (40 + ri * 300) (decisionFields d label).1 with hdecision
  have hband : ruleBand txn policyNode lo ri d = band txn policyNode routeif decision
      (fields.1.append lookups.1) (40 + ri * 300 + (lookups.2 - (40 + ri * 300)) / 2)
      ((fields.1.append lookups.1).warnings ++ (decisionFields d label).2) := by
    rw [ruleBand]
    simp only [hentries, hdocs, if_neg hne]
    rfl
  rw [hband]
  -- the clauses of the conditions are those of the match and then those of the providers
  have hcompiles : (fields.1.append lookups.1).Compiles (lo + 1) [1, lo] (ruleClauses r) := by
    have hfirst : fields.1.Compiles (lo + 1) [1, lo] _ :=
      matchFields_compiles hread' hshown.paths hread.lists (by omega)
    exact hfirst.append (providersNodes_compiles hproviders hshown.ops htxnId (by omega))
  have hparts : BandParts txn policyNode routeif decision (fields.1.append lookups.1) lo
      (ruleClauses r) := by
    refine ⟨hlow, htxnId, hpolicy, rfl, rfl, ?_, rfl, hcompiles⟩
    rw [hdecision, Sketch.append_nodes, List.length_append, ← Nat.add_assoc]
    rfl
  refine ⟨hparts.at_band, decision, hparts.decision_band, rfl, ?_, ?_⟩
  · refine ⟨mkWire decision (js "out") policyNode (js "in"), ?_, rfl, hpolicy⟩
    simp [band]
  -- in any graph that holds the band, the decision has this draft and this route
  · intro nodes wires hheld hnode htxn
    have hdraft := hparts.draftOf_band hheld htxn hnode htxnType
    have hroute := hparts.routeOf_band hheld htxn
    have hcontract := routeText_entries hread' (js "contract") (js "eosio.token")
    have haction := routeText_entries hread' (js "action") (js "transfer")
    rw [hcontract, haction] at hrouteif
    refine compileDecision_ruleClauses hread hroute ?_ ?_ ?_ (decisionFields_doc label h).1 hsome
      hdraft
    · rw [hrouteif]
      exact routeMatch_texts hread.texts.1 hread.texts.2 lo 240 (40 + ri * 300)
    · rw [hrouteif]
      rfl
    · rw [hrouteif]
      rfl

/-! ## All rules -/

/-- The decisions of the bands, from top to bottom, and the rules made from them. -/
theorem ruleBands_compiles (htxnId : txn.id = 1) (htxnType : txn.type = .transaction)
    (hpolicy : policyNode.id = policyId) {docs : List Json} {rules : List PolicyRule}
    (h : List.Forall₂ (fun d r => rule xprDialect d = some r) docs rules)
    (hread : ∀ r ∈ rules, r.Readable) (hshown : ∀ r ∈ rules, r.Shown) :
    ∀ (lo ri : ℕ), policyId < lo →
      (ruleBands txn policyNode lo ri docs).At lo ∧ ∃ decisions : List GraphNode,
        (ruleBands txn policyNode lo ri docs).nodes.filter (fun n => n.type = .decision) =
          decisions ∧
        decisions.Pairwise (fun m n => m.y ≤ n.y) ∧ (∀ n ∈ decisions, 40 + ri * 300 ≤ n.y) ∧
        (∀ n ∈ decisions, ∃ w ∈ (ruleBands txn policyNode lo ri docs).wires,
          w.fromPort.node = n.id ∧ w.toPort.node = policyId) ∧
        ∀ {nodes : List GraphNode} {wires : List Wire},
          Held nodes wires (ruleBands txn policyNode lo ri docs) lo →
          nodeById nodes 1 = some txn → wiresInto wires 1 = [] →
          decisions.map (compileDecision nodes wires) =
            rules.map fun r => (some (compiledOf r), []) := by
  induction h with
  | nil =>
    intro lo ri hlow
    refine ⟨.empty hlow, [], rfl, .nil, by simp, by simp, fun _ _ _ => rfl⟩
  | @cons d r docs rules hdr _ ih =>
    intro lo ri hlow
    rw [ruleBands]
    obtain ⟨hat, decision, hfilter, hy, hwire, hcompile⟩ := ruleBand_compiles hdr
      (hread r (List.mem_cons_self ..)) (hshown r (List.mem_cons_self ..)) lo ri hlow htxnId
      htxnType hpolicy
    obtain ⟨hatRest, decisions, hfilterRest, hsorted, hbelow, hwires, hcompileRest⟩ :=
      ih (fun s hs => hread s (List.mem_cons_of_mem r hs))
        (fun s hs => hshown s (List.mem_cons_of_mem r hs))
        (lo + (ruleBand txn policyNode lo ri d).nodes.length) (ri + 1) (by omega)
    have hnext : ∀ n ∈ decisions, (40 + ri * 300 : ℚ) ≤ n.y := by
      intro n hn
      have h := hbelow n hn
      push_cast at h
      linarith
    refine ⟨hat.append hatRest, decision :: decisions, ?_, ?_, ?_, ?_, ?_⟩
    · rw [Sketch.append_nodes, List.filter_append, hfilter, hfilterRest]
      rfl
    · exact List.pairwise_cons.2 ⟨fun n hn => hy ▸ hnext n hn, hsorted⟩
    · intro n hn
      rcases List.mem_cons.1 hn with rfl | hn
      · exact hy.ge
      · exact hnext n hn
    · intro n hn
      rcases List.mem_cons.1 hn with rfl | hn
      · obtain ⟨w, hw, hto⟩ := hwire
        exact ⟨w, List.mem_append_left _ hw, hto⟩
      · obtain ⟨w, hw, hto⟩ := hwires n hn
        exact ⟨w, List.mem_append_right _ hw, hto⟩
    · intro nodes wires hheld hnode htxn
      rw [List.map_cons, List.map_cons, hcompile (hheld.left hat hatRest) hnode htxn,
        hcompileRest (hheld.right hat) hnode htxn]

theorem ruleBands_shown {docs : List Json} {rules : List PolicyRule}
    (h : List.Forall₂ (fun d r => rule xprDialect d = some r) docs rules) :
    ∀ {lo ri : ℕ}, (ruleBands txn policyNode lo ri docs).warnings = [] →
      ∀ r ∈ rules, r.Shown := by
  induction h with
  | nil => simp
  | cons hdr _ ih =>
    intro lo ri hwarn s hs
    rw [ruleBands] at hwarn
    simp only [Sketch.append_warnings, List.append_eq_nil_iff] at hwarn
    rcases List.mem_cons.1 hs with rfl | hs
    · exact ruleBand_shown hdr hwarn.1
    · exact ih hwarn.2 s hs

/-! ## The graph -/

theorem nodeById_of_nodup (h : (nodes.map (·.id)).Nodup) {n : GraphNode} (hn : n ∈ nodes) :
    nodeById nodes n.id = some n := by
  induction nodes with
  | nil => simp at hn
  | cons m nodes ih =>
    rw [List.map_cons, List.nodup_cons] at h
    rw [nodeById]
    rcases List.mem_cons.1 hn with rfl | hn
    · exact List.find?_cons_of_pos (by simp)
    · have hne : m.id ≠ n.id := by
        intro heq
        rw [heq] at h
        exact h.1 (List.mem_map_of_mem hn)
      rw [List.find?_cons_of_neg (by simpa using hne)]
      exact ih h.2 hn

/-- The rules and warnings of a list of decisions, read off what each of them compiles to. -/
theorem compiled_list {decisions : List GraphNode} {rules : List PolicyRule}
    (h : decisions.map (compileDecision nodes wires) =
      rules.map fun r => (some (compiledOf r), [])) :
    (decisions.filterMap fun dn => (compileDecision nodes wires dn).1.map fun rule =>
        (dn, rule)).map Prod.snd = rules.map compiledOf ∧
      decisions.flatMap (fun dn => (compileDecision nodes wires dn).2) = [] := by
  induction decisions generalizing rules with
  | nil =>
    rw [List.map_nil, eq_comm, List.map_eq_nil_iff] at h
    rw [h]
    exact ⟨rfl, rfl⟩
  | cons dn decisions ih =>
    cases rules with
    | nil => simp at h
    | cons r rules =>
      rw [List.map_cons, List.map_cons, List.cons.injEq] at h
      obtain ⟨hrules, hwarnings⟩ := ih h.2
      rw [List.filterMap_cons_some (by rw [h.1]; rfl), List.map_cons, hrules, List.flatMap_cons,
        hwarnings, h.1]
      exact ⟨rfl, rfl⟩

/-- The decisions of a decompiled graph are all wired to its policy node. -/
theorem decisionsOf_bands {s : Sketch} {decisions : List GraphNode} {policyNode : GraphNode}
    (hpolicy : policyNode.id = policyId) (htype : policyNode.type = .policy)
    (hfilter : s.nodes.filter (fun n => n.type = .decision) = decisions)
    (hsorted : decisions.Pairwise fun m n => m.y ≤ n.y)
    (hwires : ∀ n ∈ decisions, ∃ w ∈ s.wires, w.fromPort.node = n.id ∧ w.toPort.node = policyId) :
    decisionsOf ([transactionNode, policyNode] ++ s.nodes) s.wires policyNode = decisions := by
  have hall : ([transactionNode, policyNode] ++ s.nodes).filter (fun n => n.type = .decision) =
      decisions := by
    rw [List.filter_append, hfilter, List.filter_cons_of_neg (by decide),
      List.filter_cons_of_neg (by simp [htype])]
    rfl
  have hreach : ∀ n ∈ decisions, reaches s.wires n.id policyNode.id = true := by
    intro n hn
    obtain ⟨w, hw, hfrom, hto⟩ := hwires n hn
    rw [hpolicy]
    exact reaches_iff.2 (.single ⟨w, hw, hfrom, hto⟩)
  have hcomm : ([transactionNode, policyNode] ++ s.nodes).filter
      (fun n => n.type = .decision && reaches s.wires n.id policyNode.id) =
        (([transactionNode, policyNode] ++ s.nodes).filter fun n => n.type = .decision).filter
          fun n => reaches s.wires n.id policyNode.id := by
    rw [List.filter_filter]
    congr 1
    funext n
    exact Bool.and_comm _ _
  rw [decisionsOf, hcomm, hall, List.filter_eq_self.2 hreach]
  exact hsorted.insertionSort_eq

/-- The graph of a document, with its bands. -/
theorem decompileDocument_rules {doc : Json} {p : Policy} (h : policy xprDialect doc = some p) :
    ∃ docs, List.Forall₂ (fun d r => rule xprDialect d = some r) docs p.rules ∧
      doc.get (js "rules") = some (.arr docs) ∧ decompileDocument doc =
        ⟨[transactionNode, policyNodeOf doc] ++
            (ruleBands transactionNode (policyNodeOf doc) 3 0 docs).nodes,
          (ruleBands transactionNode (policyNodeOf doc) 3 0 docs).wires,
          (ruleBands transactionNode (policyNodeOf doc) 3 0 docs).warnings⟩ := by
  obtain ⟨q, ms, rfl, -, -, -, -, hrules, -⟩ := policy_iff.1 h
  obtain ⟨u, hu, hrulesRead⟩ := required_some hrules
  obtain ⟨docs, rfl, -, hdocs⟩ := array_iff.1 hrulesRead
  have hget : (Json.obj q ms).get (js "rules") = some (.arr docs) := hu
  refine ⟨docs, hdocs, hget, ?_⟩
  rw [decompileDocument, Json.getList, hget]

/-- The rules of a policy without a warning are shown. -/
theorem rules_shown {doc : Json} {p : Policy} (h : policy xprDialect doc = some p)
    (hwarn : (decompileDocument doc).warnings = []) : ∀ r ∈ p.rules, r.Shown := by
  obtain ⟨docs, hdocs, -, hgraph⟩ := decompileDocument_rules h
  rw [hgraph] at hwarn
  exact ruleBands_shown hdocs hwarn

/-- **The graph of a policy, compiled**: the rules come back one for one and in their order, and
the default and the chain are written out. -/
theorem compilePolicy_decompiled {doc : Json} {p : Policy} {chainId : JsString}
    (h : policy xprDialect doc = some p) (hread : ∀ r ∈ p.rules, r.Readable)
    (hshown : ∀ r ∈ p.rules, r.Shown) :
    compilePolicy (decompileDocument doc).nodes (decompileDocument doc).wires chainId =
      some ⟨⟨js "deny", chainId, natNumber (p.maxActionsPerTransaction.getD 1),
        p.rules.map compiledOf⟩, []⟩ := by
  -- the graph consists of the transaction, the policy and one band for each rule
  obtain ⟨docs, hdocs, -, hgraph⟩ := decompileDocument_rules h
  obtain ⟨q, ms, rfl, -, -, hdefault, -, -, hmax⟩ := policy_iff.1 h
  obtain ⟨v, hv, hconst⟩ := required_some hdefault
  have hdeny : (Json.obj q ms).getText (js "default") [] = js "deny" := by
    have hget : (Json.obj q ms).get (js "default") = some v := hv
    rw [Json.getText, hget, const_eq hconst]
    rfl
  set policyNode := policyNodeOf (Json.obj q ms) with hpolicyNode
  rw [hgraph]
  obtain ⟨hat, decisions, hfilter, hsorted, -, hwires, hcompile⟩ :=
    @ruleBands_compiles transactionNode policyNode rfl rfl rfl _ _ hdocs hread hshown 3 0
      (by decide)
  set bands := ruleBands transactionNode policyNode 3 0 docs with hbands
  -- the ids are the numbers from one on, so every node is found under its own
  have hids : ([transactionNode, policyNode] ++ bands.nodes).map (·.id) =
      List.range' 1 (2 + bands.nodes.length) := by
    rw [List.map_append, hat.ids, ← List.range'_append_1]
    rfl
  have hnodup : (([transactionNode, policyNode] ++ bands.nodes).map (·.id)).Nodup := by
    rw [hids]
    exact List.nodup_range'
  have hheld : Held ([transactionNode, policyNode] ++ bands.nodes) bands.wires bands 3 :=
    ⟨fun n hn => nodeById_of_nodup hnodup (List.mem_append_right _ hn), fun i _ _ => rfl⟩
  have htxn : wiresInto bands.wires 1 = [] := hat.wiresInto_nil (Or.inl (by decide)) (by decide)
  obtain ⟨hrulesEq, hwarnings⟩ := compiled_list (hcompile hheld rfl htxn)
  -- the decisions stand one under the other, in the order of their rules
  have hdecisions : decisionsOf ([transactionNode, policyNode] ++ bands.nodes) bands.wires
      policyNode = decisions := decisionsOf_bands rfl rfl hfilter hsorted hwires
  have hfind : ([transactionNode, policyNode] ++ bands.nodes).find? (fun n => n.type = .policy) =
      some policyNode := rfl
  have hdefaultText : policyNode.fields.text (js "default") = js "deny" := by
    have htext : policyNode.fields.text (js "default") =
        if (Json.obj q ms).getText (js "default") [] = js "allow" then js "allow"
        else js "deny" := rfl
    rw [htext, hdeny]
    rfl
  -- the count of actions goes through the text of its field
  have hmaxText : parseCount (policyNode.fields.text (js "maxActions")) =
      natNumber (p.maxActionsPerTransaction.getD 1) := by
    have hget : (Json.obj q ms).get (js "maxActionsPerTransaction") =
        ms.lookup (js "maxActionsPerTransaction") := rfl
    have htext : policyNode.fields.text (js "maxActions") =
        (((Json.obj q ms).get (js "maxActionsPerTransaction")).map Json.string).getD (js "1") := rfl
    obtain ⟨hlook, hbounds⟩ := optional_integer hmax
    rw [htext, hget, hlook]
    cases hcount : p.maxActionsPerTransaction with
    | none => exact parseCount_toText (ofParts_toInt 1) one_ne_zero (by norm_num)
    | some n =>
      have hn := hbounds n hcount
      exact parseCount_toText (ofParts_toInt n) (by omega) (by omega)
  rw [compilePolicy, hfind, Option.map_some, hdefaultText, hmaxText, compiledRules, hdecisions,
    hrulesEq, hwarnings]

end Signbox
