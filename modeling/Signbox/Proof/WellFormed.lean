import Signbox.Proof.Authoring
import Signbox.Proof.Wired

/-!
# The graph of an editor session

Every state of a session is a wired graph with one transaction and one policy, whichever actions
are dispatched, and in whatever order.

* `GraphState.WellFormed`: what the compiler and the interpreter take for granted of a graph.
* `Sound.step`: what every action keeps.
* `wellFormed_session`: every state that a session reaches is well formed.
-/

namespace Signbox

open Wiring

/-- What the compiler and the interpreter take for granted of a graph: they read one node for an
id, and one wire for an input. -/
structure GraphState.WellFormed (s : GraphState) : Prop where
  distinct : (s.nodes.map GraphNode.id).Nodup
  below : ∀ n ∈ s.nodes, n.id < s.nextId
  oneTransaction : s.nodes.countP (fun n => n.type = .transaction) = 1
  onePolicy : s.nodes.countP (fun n => n.type = .policy) = 1
  joins : ∀ w ∈ s.wires, ∃ a ∈ s.nodes, ∃ b ∈ s.nodes, a.id = w.fromPort.node ∧
    b.id = w.toPort.node ∧ a.id ≠ b.id ∧ PortsFit a.type b.type w.fromPort.key w.toPort.key
  nodup : s.wires.Nodup
  oneWire : ∀ n ∈ s.nodes, ∀ key, isMultiInput n.type key = false →
    (s.wires.filter fun w => w.toPort = ⟨n.id, key⟩).length ≤ 1

/-- A wired graph, with one node of each type that has a single one. It is the form in which the
invariant is carried. -/
structure Sound (s : GraphState) : Prop where
  wired : Wired editorWiring (kinds s.nodes) s.wires s.nextId
  single : ∀ type : NodeType, type.single = true → s.nodes.countP (fun n => n.type = type) = 1

variable {s : GraphState}

theorem length_le_one_of_nodup {α : Type*} {l : List α} (h : l.Nodup)
    (heq : ∀ a ∈ l, ∀ b ∈ l, a = b) : l.length ≤ 1 := by
  cases l with
  | nil => exact Nat.zero_le 1
  | cons a l =>
    cases l with
    | nil => exact le_rfl
    | cons b l =>
      have hsame : a = b := heq a (by simp) b (by simp)
      exact absurd (hsame ▸ List.mem_cons_self) (List.nodup_cons.1 h).1

theorem Sound.ids_nodup (h : Sound s) : (s.nodes.map GraphNode.id).Nodup := by
  have hids : ((kinds s.nodes).map Prod.fst).Nodup := h.wired.distinct
  rw [kinds, List.map_map] at hids
  exact hids

/-- A wired graph is well formed. -/
theorem Sound.wellFormed (h : Sound s) : s.WellFormed := by
  have hdistinct : (s.nodes.map GraphNode.id).Nodup := h.ids_nodup
  refine ⟨hdistinct, ?_, h.single _ rfl, h.single _ rfl, ?_, h.wired.nodup, ?_⟩
  · intro n hn
    exact lt_of_mem h.wired (mem_kinds hn)
  · intro w hw
    obtain ⟨hne, p, hp, q, hq, hsource, htarget, hfit⟩ := h.wired.joins w hw
    obtain ⟨a, ha, rfl⟩ := List.mem_map.1 hp
    obtain ⟨b, hb, rfl⟩ := List.mem_map.1 hq
    refine ⟨a, ha, b, hb, hsource, htarget, ?_, hfit⟩
    intro heq
    exact hne (hsource.symm.trans (heq.trans htarget))
  · intro n hn key hsingle
    -- two wires into the input would be the same, and no wire is there twice
    have halone : ∀ w ∈ s.wires, ∀ w' ∈ s.wires, w.toPort = ⟨n.id, key⟩ →
        w'.toPort = ⟨n.id, key⟩ → w = w' := by
      intro w hw w' hw' hport hport'
      have hsame : w.toPort = w'.toPort := hport.trans hport'.symm
      have hmeets : Meets editorWiring w w' :=
        ⟨congrArg PortRef.node hsame, congrArg PortRef.key hsame⟩
      rcases h.wired.alone w hw w' hw' hmeets with heq | ⟨b, hb, hid, hmulti⟩
      · exact heq
      · obtain ⟨m, hm, rfl⟩ := List.mem_map.1 hb
        have hid' : m.id = n.id := hid.trans (congrArg PortRef.node hport)
        have heq : m = n := List.inj_on_of_nodup_map hdistinct hm hn hid'
        have hmulti' : isMultiInput m.type w.toPort.key = true := hmulti
        rw [heq, hport, hsingle] at hmulti'
        exact absurd hmulti' Bool.false_ne_true
    have hnodup : (s.wires.filter fun w => w.toPort = ⟨n.id, key⟩).Nodup := h.wired.nodup.filter _
    refine length_le_one_of_nodup hnodup fun w hw w' hw' => ?_
    obtain ⟨hmem, hport⟩ := List.mem_filter.1 hw
    obtain ⟨hmem', hport'⟩ := List.mem_filter.1 hw'
    exact halone w hmem w' hmem' (of_decide_eq_true hport) (of_decide_eq_true hport')

/-! ## Opening -/

/-- A graph that is added to. -/
theorem Sound.add (h : Sound s) {nodes : List GraphNode} {wires : List Wire} {next : ℕ}
    (hpart : Part (kinds s.nodes) nodes wires s.nextId) (hnext : next = s.nextId + nodes.length)
    (selected : Option ℕ) (fitNonce : ℕ) :
    Sound { s with nodes := s.nodes ++ nodes, wires := s.wires ++ wires, nextId := next,
                   selected := selected, fitNonce := fitNonce } where
  wired := by
    rw [kinds_append, hnext]
    exact h.wired.append hpart.piece
  single := by
    intro type hsingle
    have hnone : nodes.countP (fun n => n.type = type) = 0 := by
      rw [List.countP_eq_zero]
      intro n hn heq
      have hplural := hpart.plural n hn
      rw [of_decide_eq_true heq, hsingle] at hplural
      cases hplural
    rw [List.countP_append, hnone]
    exact h.single type hsingle

/-- **The graph of a policy** is sound whatever the document is: what it cannot show it leaves
out. -/
theorem sound_document (policy : Json) : Sound (decompileDocument policy).state := by
  have hbase : Sound ⟨[transactionNode, policyNodeOf policy], [], some 1, ⟨0, 0, 1⟩, 3, 0⟩ := by
    refine ⟨Wired.unwired ?_ ?_, ?_⟩
    · exact show [1, 2].Nodup by decide
    · exact show ∀ n ∈ [(1, NodeType.transaction), (2, NodeType.policy)], n.1 < 3 by decide
    · intro type hsingle
      cases type <;> first | rfl | cases hsingle
  have hbands : Part (kinds [transactionNode, policyNodeOf policy])
      (ruleBands transactionNode (policyNodeOf policy) 3 0 (policy.getList (js "rules"))).nodes
      (ruleBands transactionNode (policyNodeOf policy) 3 0 (policy.getList (js "rules"))).wires 3 :=
    ruleBands_part _ 0 (mem_kinds (by simp)) rfl (mem_kinds (by simp)) rfl
      (show 1 < 3 by decide) (show 2 < 3 by decide)
  refine hbase.add hbands ?_ (some 1) 0
  simp only [decompileDocument, List.length_append, List.length_cons, List.length_nil]
  omega

instance (a b : NodeType) (w : Wire) : Decidable (editorWiring.fits a b w) :=
  inferInstanceAs (Decidable (PortsFit a b w.fromPort.key w.toPort.key))

instance (type : NodeType) (key : JsString) : Decidable (editorWiring.multi type key) :=
  inferInstanceAs (Decidable (isMultiInput type key = true))

theorem sound_demo : Sound demoState where
  wired := by
    refine ⟨Nat.zero_le _, ?_, ?_, ?_, ?_, fun _ _ => Or.inl (Nat.zero_le _), ?_, ?_⟩
    all_goals decide +kernel
  single := by
    intro type hsingle
    cases type <;> first | rfl | cases hsingle

/-! ## Actions -/

theorem nodeById_mem {nodes : List GraphNode} {n : GraphNode} {id : ℕ}
    (h : nodeById nodes id = some n) : n ∈ nodes := List.mem_of_find?_eq_some h

/-- The one node of a type. -/
theorem Sound.find (h : Sound s) {type : NodeType} (hsingle : type.single = true) :
    ∃ n ∈ s.nodes, n.type = type ∧ s.nodes.find? (fun n => n.type = type) = some n := by
  have hcount : 0 < s.nodes.countP fun n => n.type = type := by
    rw [h.single type hsingle]
    exact Nat.one_pos
  obtain ⟨n, hn, htype⟩ := List.countP_pos_iff.1 hcount
  have hsome : (s.nodes.find? fun n => n.type = type).isSome = true :=
    List.find?_isSome.2 ⟨n, hn, htype⟩
  obtain ⟨m, hm⟩ := Option.isSome_iff_exists.1 hsome
  have hmtype := List.find?_some hm
  exact ⟨m, List.mem_of_find?_eq_some hm, of_decide_eq_true hmtype, hm⟩

/-- What an action does to fields and places. -/
theorem Sound.mapNode (h : Sound s) (id : ℕ) {f : GraphNode → GraphNode}
    (hf : ∀ n, (f n).id = n.id ∧ (f n).type = n.type) :
    Sound { s with nodes := mapNode s.nodes id f } := by
  have hkept : ∀ n, ((if n.id = id then f n else n).id = n.id) ∧
      ((if n.id = id then f n else n).type = n.type) := by
    intro n
    split
    · exact hf n
    · exact ⟨rfl, rfl⟩
  have hkinds : kinds (Signbox.mapNode s.nodes id f) = kinds s.nodes := by
    rw [kinds, Signbox.mapNode, List.map_map]
    refine List.map_congr_left fun n _ => ?_
    exact Prod.ext (hkept n).1 (hkept n).2
  refine ⟨hkinds ▸ h.wired, fun type hsingle => ?_⟩
  rw [Signbox.mapNode, List.countP_map, ← h.single type hsingle]
  refine List.countP_congr fun n _ => ?_
  rw [Function.comp_apply, (hkept n).2]

theorem Sound.addNode (h : Sound s) (type : NodeType) (x y : ℚ) : Sound (addNode s type x y) := by
  unfold Signbox.addNode
  cases hsingle : type.single with
  | true =>
    obtain ⟨n, -, -, hfind⟩ := h.find hsingle
    rw [hfind]
    exact ⟨h.wired, h.single⟩
  | false =>
    have hpart : Part (kinds s.nodes) [⟨s.nextId, type, x, y, type.defaults⟩] [] s.nextId :=
      Part.node hsingle
    simpa using h.add hpart rfl (some s.nextId) s.fitNonce

theorem Sound.deleteNode (h : Sound s) {id : ℕ} {n : GraphNode}
    (hn : nodeById s.nodes id = some n) (hplural : n.type.single = false) (selected : Option ℕ) :
    Sound { s with
      nodes := s.nodes.filter fun n => n.id ≠ id
      wires := s.wires.filter fun w => w.fromPort.node ≠ id ∧ w.toPort.node ≠ id
      selected := selected } := by
  have hkinds : kinds (s.nodes.filter fun n => n.id ≠ id) =
      (kinds s.nodes).filter fun n => n.1 ≠ id := by
    rw [kinds, kinds, List.filter_map]
    rfl
  refine ⟨?_, fun type hsingle => ?_⟩
  · rw [hkinds]
    exact h.wired.remove id
  · rw [List.countP_filter, ← h.single type hsingle]
    refine List.countP_congr fun m hm => ?_
    -- the node that goes has another type
    have hdiff : m.type = type → m.id ≠ id := by
      intro htype hid
      have heq : m = n := List.inj_on_of_nodup_map h.ids_nodup hm (nodeById_mem hn)
        (hid.trans (nodeById_id hn).symm)
      rw [← heq, htype, hsingle] at hplural
      cases hplural
    simp only [Bool.and_eq_true, decide_eq_true_eq]
    exact ⟨fun hboth => hboth.1, fun htype => ⟨htype, hdiff htype⟩⟩

/-- The ports of a wire, where the nodes have them. -/
theorem portsOf_spec {nodes : List GraphNode} {fromPort toPort : PortRef} {out inp : PortSpec}
    {toNode : GraphNode} (h : portsOf nodes fromPort toPort = some (out, toNode, inp)) :
    toNode ∈ nodes ∧ toNode.id = toPort.node ∧ inp.key = toPort.key ∧
      (portsCompatible out.type toNode.type inp.key inp.type = true →
        Joins editorWiring (kinds nodes) ⟨fromPort, toPort⟩) := by
  simp only [portsOf, Option.bind_eq_bind, Option.bind_eq_some_iff, Option.pure_def,
    Option.some.injEq, Prod.mk.injEq] at h
  obtain ⟨a, ha, b, hb, _, hguard, o, ho, p, hp, rfl, rfl, rfl⟩ := h
  have hne : fromPort.node ≠ toPort.node := by
    simpa [guard] using hguard
  have hport := List.find?_some ho
  have hport' := List.find?_some hp
  obtain ⟨hside, hkey⟩ := of_decide_eq_true hport
  obtain ⟨hside', hkey'⟩ := of_decide_eq_true hport'
  refine ⟨nodeById_mem hb, nodeById_id hb, hkey', fun hcompat => ?_⟩
  refine ⟨hne, _, mem_kinds (nodeById_mem ha), _, mem_kinds (nodeById_mem hb), nodeById_id ha,
    nodeById_id hb, ?_⟩
  exact ⟨o, List.mem_of_find?_eq_some ho, p, List.mem_of_find?_eq_some hp, hside, hkey, hside',
    hkey', hcompat⟩

theorem Sound.addWire (h : Sound s) (fromPort toPort : PortRef) :
    Sound (addWire s fromPort toPort) := by
  unfold Signbox.addWire
  split
  · exact h
  · next out toNode inp hports =>
    obtain ⟨hmem, hid, hkey, hjoins⟩ := portsOf_spec hports
    split
    · exact h
    · next hcompat =>
      rw [not_not] at hcompat
      -- the wires that stay: an input with one wire loses the wire it has
      obtain ⟨kept, hkept⟩ : ∃ kept, kept = if isMultiInput toNode.type toPort.key = true
          then s.wires else s.wires.filter fun w => w.toPort ≠ toPort := ⟨_, rfl⟩
      have hsub : kept.Sublist s.wires := by
        rw [hkept]
        split
        · exact List.Sublist.refl _
        · exact List.filter_sublist
      have hwired : Wired editorWiring (kinds s.nodes) kept s.nextId := h.wired.disconnect hsub
      have halone : ∀ w ∈ kept, Meets editorWiring w ⟨fromPort, toPort⟩ →
          Multi editorWiring (kinds s.nodes) ⟨fromPort, toPort⟩ := by
        intro w hw hmeets
        have hport : w.toPort = toPort := congrArg₂ PortRef.mk hmeets.1 hmeets.2
        rw [hkept] at hw
        split at hw
        · next hmulti => exact ⟨_, mem_kinds hmem, hid, hmulti⟩
        · simp [hport] at hw
      simp only [← hkept]
      split
      · exact ⟨hwired, h.single⟩
      · next hnew => exact ⟨hwired.connect (hjoins hcompat) hnew halone, h.single⟩

theorem buildScaffold_branches {tx : Json} {scaffold : Scaffold}
    (h : buildScaffold s tx = .ok scaffold) :
    ∃ y rs, scaffold = routeBranches (s.nodes.find? fun n => n.type = .transaction)
      (s.nodes.find? fun n => n.type = .policy) s.nextId y rs := by
  unfold buildScaffold at h
  cases hroutes : txToRoutes tx with
  | error e =>
    rw [hroutes] at h
    cases h
  | ok rs =>
    rw [hroutes] at h
    exact ⟨_, _, (Except.ok.inj h).symm⟩

theorem Sound.addScaffold (h : Sound s) {tx : Json} {nodes : List GraphNode} {wires : List Wire}
    {next : ℕ} (htx : buildScaffold s tx = .ok ⟨nodes, wires, next⟩) (selected : Option ℕ) :
    Sound { s with nodes := s.nodes ++ nodes, wires := s.wires ++ wires, nextId := next,
                   selected := selected, fitNonce := s.fitNonce + 1 } := by
  obtain ⟨txn, htxn, htxntype, hfind⟩ := h.find (show NodeType.transaction.single = true from rfl)
  obtain ⟨pol, hpol, hpoltype, hfind'⟩ := h.find (show NodeType.policy.single = true from rfl)
  obtain ⟨y, rs, hbranches⟩ := buildScaffold_branches htx
  rw [hfind, hfind'] at hbranches
  have hpart := routeBranches_part (y := y) rs (mem_kinds htxn) htxntype (mem_kinds hpol) hpoltype
    (lt_of_mem h.wired (mem_kinds htxn)) (lt_of_mem h.wired (mem_kinds hpol))
  rw [← hbranches] at hpart
  refine h.add hpart ?_ selected (s.fitNonce + 1)
  have hnext : (routeBranches (some txn) (some pol) s.nextId y rs).nextId =
      s.nextId + (routeBranches (some txn) (some pol) s.nextId y rs).nodes.length :=
    routeBranches_nextId _ _ rs
  rw [← hbranches] at hnext
  exact hnext

/-- **What every action keeps.** By cases on the action; those that connect two ports check what
they connect. -/
theorem Sound.step (h : Sound s) {action : GraphAction} (hact : Dispatched s action) :
    Sound (reducer s action) := by
  cases action with
  | addNode type x y => exact h.addNode type x y
  | moveNode id x y => exact h.mapNode id fun _ => ⟨rfl, rfl⟩
  | deleteNode id =>
    simp only [reducer]
    split
    · exact h
    · next n hn =>
      split
      · exact h
      · next hplural => exact h.deleteNode hn (Bool.not_eq_true _ ▸ hplural) _
  | setField id key value => exact h.mapNode id fun _ => ⟨rfl, rfl⟩
  | addWire fromPort toPort => exact h.addWire fromPort toPort
  | deleteWire wire => exact ⟨h.wired.disconnect List.filter_sublist, h.single⟩
  | addScaffold nodes wires next =>
    cases nodes with
    | nil => exact h
    | cons n ns =>
      obtain ⟨tx, htx⟩ := hact
      exact h.addScaffold htx (some n.id)
  | select id => exact ⟨h.wired, h.single⟩
  | setView view => exact ⟨h.wired, h.single⟩
  | resetDemo => exact sound_demo

theorem sound_of_reachable (h : Reachable s) : Sound s := by
  induction h with
  | opened hopen =>
    cases hopen with
    | policy hdoc =>
      obtain ⟨policy, -, rfl⟩ := Option.map_eq_some_iff.1 hdoc
      exact sound_document policy
    | demo => exact sound_demo
  | step _ hact ih => exact ih.step hact

/-- **Every graph that a session reaches is well formed**, whether it opens the demo or a policy,
and by any actions of the user in any order. -/
theorem wellFormed_session (h : Reachable s) : s.WellFormed := (sound_of_reachable h).wellFormed

/-! ## A session -/

namespace Minted

/-- A transaction of a route that the demo has not. -/
def tx : Json :=
  .obj .ordinary [(js "account", .str (js "xtokens")), (js "name", .str (js "mint")),
    (js "data", .obj .ordinary [(js "to", .str (js "bob"))])]

/-- The demo gets a branch of three nodes for a mint, and its node 8 is deleted: the graph is still
well formed. -/
theorem wellFormed_session_minted : ∃ nodes wires next,
    buildScaffold demoState tx = .ok ⟨nodes, wires, next⟩ ∧ nodes.length = 3 ∧
      (reducer (reducer demoState (.addScaffold nodes wires next)) (.deleteNode 8)).WellFormed :=
  ⟨_, _, _, rfl, rfl,
    wellFormed_session (.step (.step (.opened .demo) ⟨tx, rfl⟩) trivial)⟩

end Minted

end Signbox
