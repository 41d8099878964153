import Signbox.Proof.Indistinct
import Signbox.Proof.SignedSource
import Signbox.Proof.StoredText

/-!
# A transaction that is read back

Equal JSON values decode alike: what the policy reads of the one it reads of the other. The members
of an object may stand in another order, and the texts are of one length.

* `Json.Alike`: equal values with the same prototypes.
* `normalizeValue_alike`: equal values are normalized to such values.
* `decode_same`: a value equal to one that decodes decodes alike, and `decode_indistinct`: the
  policy cannot tell the two apart.
-/

namespace Signbox

open Guard

/-! ## Values that read alike -/

/-- Equal values with the same prototypes. The order of members may differ, which no path can
tell. -/
inductive Json.Alike : Json → Json → Prop
  | refl (v : Json) : Alike v v
  | arr {us vs : List Json} : List.Forall₂ Alike us vs → Alike (.arr us) (.arr vs)
  | obj {p : Proto} {ms ns : List (JsString × Json)} :
      (∀ k, Option.Rel Alike (ms.lookup k) (ns.lookup k)) → Alike (.obj p ms) (.obj p ns)

/-- What a path may resolve to in two such values. -/
inductive JsValue.Alike : JsValue → JsValue → Prop
  | refl (v : JsValue) : Alike v v
  | json {u v : Json} (h : u.Alike v) : Alike (.json u) (.json v)

/-- Alike values are the same string, or none of them is a string. -/
theorem Json.Alike.str? {u v : Json} (h : u.Alike v) : u.str? = v.str? := by
  cases h <;> rfl

/-- Alike values are read alike by the engine: as a string, as null, and against any bound. -/
theorem JsValue.Alike.readAlike {v w : JsValue} (h : v.Alike w) : ReadAlike v w := by
  cases h with
  | refl v => exact .refl v
  | json h =>
    cases h with
    | refl v => exact .refl _
    | arr _ => exact ⟨rfl, rfl, fun _ => rfl⟩
    | obj _ => exact ⟨rfl, rfl, fun _ => rfl⟩

/-- Members alike under a key are read alike. -/
theorem readMember_alike {p : Proto} {ms ns : List (JsString × Json)} {key : JsString}
    (h : Option.Rel Json.Alike (ms.lookup key) (ns.lookup key)) :
    (readMember p ms key).Alike (readMember p ns key) := by
  unfold readMember
  generalize ms.lookup key = o, ns.lookup key = o' at h
  cases h with
  | none => exact .refl _
  | some halike => exact .json halike

/-- So are the properties of alike values. -/
theorem JsValue.Alike.readObject {v w : JsValue} (h : v.Alike w) (key : JsString) :
    (v.readObject key).Alike (w.readObject key) := by
  cases h with
  | refl v => exact .refl _
  | json h =>
    cases h with
    | refl v => exact .refl _
    | arr _ => exact .refl _
    | obj hmembers => exact readMember_alike (hmembers key)

/-- And what a whole path leads to. -/
theorem walk_alike (segs : List JsString) : ∀ {v w : JsValue}, v.Alike w →
    (xprDialect.walk v segs).Alike (xprDialect.walk w segs) := by
  induction segs with
  | nil =>
    intro v w h
    exact h
  | cons seg segs ih =>
    intro v w h
    exact ih (h.readObject seg)

/-! ## Actions that read alike -/

/-- Decoded actions of equal data. -/
structure DecodedAction.Alike (a b : DecodedAction) : Prop where
  contract : a.contract = b.contract
  action : a.action = b.action
  authorization : a.authorization = b.authorization
  data : ∀ k, Option.Rel Json.Alike (a.data.lookup k) (b.data.lookup k)

variable {a b : DecodedAction}

/-- A path resolves alike in alike actions, or fails in both. -/
theorem DecodedAction.Alike.resolvePath (h : a.Alike b) (path : JsString) :
    ResolvedAlike (xprDialect.resolvePath a path) (xprDialect.resolvePath b path) := by
  have hdata : (JsValue.json (.obj .bare a.data)).Alike (.json (.obj .bare b.data)) :=
    .json (.obj h.data)
  unfold xprDialect.resolvePath
  rw [h.contract, h.action, h.authorization]
  split_ifs <;> first
    | exact .error _
    | exact .ok (.refl _)
    | exact .ok (walk_alike _ hdata).readAlike

/-- A value that is like no other one is found in both or in neither. -/
theorem leaf_alike {o o' : Option Json} {v : Json} (h : Option.Rel Json.Alike o o')
    (hleft : ∀ w, v.Alike w → w = v) (hright : ∀ w, w.Alike v → w = v) :
    o = some v ↔ o' = some v := by
  cases h with
  | none => exact Iff.rfl
  | @some u w halike =>
    constructor
    · intro heq
      rw [Option.some.inj heq] at halike
      rw [hleft w halike]
    · intro heq
      rw [Option.some.inj heq] at halike
      rw [hright u halike]

/-- A string is found in one exactly when it is found in the other. -/
theorem str_alike {o o' : Option Json} (s : JsString) (h : Option.Rel Json.Alike o o') :
    o = some (.str s) ↔ o' = some (.str s) :=
  leaf_alike h (fun w hw => by cases hw; rfl) fun w hw => by cases hw; rfl

/-- The same of a number. -/
theorem num_alike {o o' : Option Json} (x : JsNumber) (h : Option.Rel Json.Alike o o') :
    o = some (.num x) ↔ o' = some (.num x) :=
  leaf_alike h (fun w hw => by cases hw; rfl) fun w hw => by cases hw; rfl

/-- What makes the asset of an action whose quantity is an object. -/
theorem assetOf_obj {p : Proto} {q q' : List (JsString × Json)}
    (ha : a.field? (js "quantity") = some (.obj p q))
    (hb : b.field? (js "quantity") = some (.obj p q'))
    (h : ∀ k, Option.Rel Json.Alike (q.lookup k) (q'.lookup k)) :
    xprDialect.assetOf a = xprDialect.assetOf b := by
  have hamount := fun s => str_alike s (h (js "amount"))
  have hsymbol := fun s => str_alike s (h (js "symbol"))
  have hprecision := fun x => num_alike x (h (js "precision"))
  unfold xprDialect.assetOf
  rw [ha, hb]
  dsimp only
  split
  next amount symbol precision h1 h2 h3 =>
    rw [(hamount _).1 h1, (hsymbol _).1 h2, (hprecision _).1 h3]
  next hnone =>
    split
    next amount symbol precision h1 h2 h3 =>
      exact absurd ((hprecision _).2 h3) (hnone _ _ _ ((hamount _).2 h1) ((hsymbol _).2 h2))
    next => rfl

/-- Alike actions move the same asset -/
theorem DecodedAction.Alike.assetOf (h : a.Alike b) :
    xprDialect.assetOf a = xprDialect.assetOf b := by
  have hquantity : Option.Rel Json.Alike (a.field? (js "quantity")) (b.field? (js "quantity")) :=
    h.data (js "quantity")
  generalize hfa : a.field? (js "quantity") = o at hquantity
  generalize hfb : b.field? (js "quantity") = o' at hquantity
  cases hquantity with
  | none => rw [xprDialect.assetOf, xprDialect.assetOf, hfa, hfb]
  | some halike =>
    cases halike with
    | refl => rw [xprDialect.assetOf, xprDialect.assetOf, hfa, hfb]
    | arr _ => rw [xprDialect.assetOf, xprDialect.assetOf, hfa, hfb]
    | obj hmembers => exact assetOf_obj hfa hfb hmembers

/-- to the same recipient. -/
theorem DecodedAction.Alike.recipientOf (h : a.Alike b) :
    xprDialect.recipientOf a = xprDialect.recipientOf b := by
  have hto : Option.Rel Json.Alike (a.field? (js "to")) (b.field? (js "to")) := h.data (js "to")
  unfold xprDialect.recipientOf
  generalize a.field? (js "to") = o, b.field? (js "to") = o' at hto
  cases hto with
  | none => rfl
  | some halike => exact halike.str?

/-- So the engine cannot tell them apart. -/
theorem DecodedAction.Alike.indistinct {ctx : EvaluationContext} (hctx : ctx.dialect = xprDialect)
    (h : a.Alike b) : Indistinct ctx a b where
  authorization := by rw [h.authorization]
  paths path := by
    rw [hctx]
    exact h.resolvePath path
  asset := by
    rw [hctx]
    exact h.assetOf
  recipient := by
    rw [hctx]
    exact h.recipientOf

/-! ## Sizes -/

/-- The length of a joined text is told by the lengths of its parts. -/
theorem length_join_eq (sep : JsString) (l : List JsString) :
    (JsString.join sep l).length = (l.map List.length).sum + sep.length * (l.length - 1) := by
  cases l with
  | nil => rfl
  | cons s l =>
    have hsum : (l.map fun t => sep.length + t.length).sum =
        sep.length * l.length + (l.map List.length).sum := by
      induction l with
      | nil => rfl
      | cons t l ih =>
        rw [List.map_cons, List.sum_cons, ih, List.map_cons, List.sum_cons, List.length_cons,
          Nat.mul_succ]
        omega
    rw [length_join, hsum, List.map_cons, List.sum_cons, List.length_cons]
    have hpred : l.length + 1 - 1 = l.length := by omega
    rw [hpred]
    omega

/-- Two maps that agree on every key have as many entries, of the same sizes. -/
theorem sizes_perm {ms ns : List (JsString × Json)} {f : Json → ℕ} (hms : (ms.map Prod.fst).Nodup)
    (hns : (ns.map Prod.fst).Nodup)
    (h : ∀ k, (ms.lookup k).map f = (ns.lookup k).map f) :
    (ms.map fun m => (m.1, f m.2)).Perm (ns.map fun m => (m.1, f m.2)) := by
  have hkeys : ∀ l : List (JsString × Json),
      (l.map fun m => (m.1, f m.2)).map Prod.fst = l.map Prod.fst := by
    intro l
    rw [List.map_map]
    rfl
  refine perm_of_lookup ((hkeys ms).symm ▸ hms) ((hkeys ns).symm ▸ hns) fun k => ?_
  rw [lookup_map_snd, lookup_map_snd, h]

/-- The text of an object has the same length in any order of its members. -/
theorem length_stringifyMembers {ms ns : List (JsString × Json)} (hms : (ms.map Prod.fst).Nodup)
    (hns : (ns.map Prod.fst).Nodup)
    (h : ∀ k, (ms.lookup k).map (fun v => v.stringify.length) =
      (ns.lookup k).map fun v => v.stringify.length) :
    (JsString.join (js ",") (stringifyMembers ms)).length =
      (JsString.join (js ",") (stringifyMembers ns)).length := by
  have hperm := sizes_perm hms hns h
  have hsum := (hperm.map fun m => (quote m.1).length + (js ":").length + m.2).sum_eq
  have hlength : ms.length = ns.length := by simpa only [List.length_map] using hperm.length_eq
  simp only [List.map_map, Function.comp_def] at hsum
  rw [length_join_eq, length_join_eq, stringifyMembers_eq, stringifyMembers_eq]
  simp only [List.map_map, Function.comp_def, List.length_append, List.length_map]
  rw [hsum, hlength]

mutual
/-- **The texts of equal values are of one length**, whatever the order of their members, since the
members are the same and so are the separators. -/
theorem same_length : ∀ u v : Json, u.Same v → u.Distinct → v.Distinct →
    u.stringify.length = v.stringify.length
  | .null, _, h, _, _ => by
    cases h
    rfl
  | .bool _, _, h, _, _ => by
    cases h
    rfl
  | .num _, _, h, _, _ => by
    cases h
    rfl
  | .str _, _, h, _, _ => by
    cases h
    rfl
  | .arr us, _, h, hu, hv => by
    cases h with
    | arr hitems =>
      have hlengths := same_lengths us _ hitems hu hv
      have hcount := congrArg List.length hlengths
      simp only [List.length_map] at hcount
      simp only [Json.stringify, List.length_append, length_join_eq, hlengths, hcount]
  | .obj p ms, _, h, hu, hv => by
    cases h with
    | @obj _ _ _ ns hmembers =>
      have hlookups : ∀ k, (ms.lookup k).map (fun v => v.stringify.length) =
          (ns.lookup k).map fun v => v.stringify.length := by
        intro k
        have hrel := hmembers k
        cases hm : ms.lookup k with
        | none =>
          rw [hm] at hrel
          generalize ns.lookup k = o at hrel
          cases hrel
          rfl
        | some u =>
          rw [hm] at hrel
          cases hn : ns.lookup k with
          | none =>
            rw [hn] at hrel
            cases hrel
          | some v =>
            rw [hn] at hrel
            cases hrel with
            | some hsame =>
              have hdv : v.Distinct := distinct_member hv.2 hn
              exact congrArg some (same_length_of ms hu.2 k u (mem_of_lookup hm) v hsame hdv)
      simp only [Json.stringify, List.length_append, length_stringifyMembers hu.1 hv.1 hlookups]

/-- The same entries have texts of the same lengths. -/
theorem same_lengths : ∀ us vs : List Json, List.Forall₂ Json.Same us vs → DistinctItems us →
    DistinctItems vs → (stringifyItems us).map List.length = (stringifyItems vs).map List.length
  | [], _, h, _, _ => by
    cases h
    rfl
  | u :: us, _, h, hu, hv => by
    cases h with
    | cons hsame hs =>
      rw [stringifyItems, stringifyItems, List.map_cons, List.map_cons,
        same_length u _ hsame hu.1 hv.1, same_lengths us _ hs hu.2 hv.2]

/-- And so does one member's value and a value the same as it, by recursion into the object. -/
theorem same_length_of : ∀ ms : List (JsString × Json), DistinctMembers ms → ∀ k u, (k, u) ∈ ms →
    ∀ v : Json, u.Same v → v.Distinct → u.stringify.length = v.stringify.length
  | [], _, _, _, hmem, _, _, _ => by simp at hmem
  | (k, u) :: ms, hd, k', u', hmem, v, hsame, hv => by
    rcases List.mem_cons.1 hmem with heq | hmem
    · rw [Prod.mk.injEq] at heq
      rw [heq.2] at hsame ⊢
      exact same_length u v hsame hd.1 hv
    · exact same_length_of ms hd.2 k' u' hmem v hsame hv
end

/-! ## Normalized values -/

/-- What is normalized, member by member. -/
theorem normalizeMembers_of_forall {depth : ℕ} {ms : List (JsString × Json)}
    (h : ∀ k v, (k, v) ∈ ms → DATA_KEY_RE k = true ∧ FORBIDDEN_DATA_KEYS.contains k = false ∧
      ∃ w, normalizeValue (depth + 1) v = .ok w) :
    ∃ ns, normalizeMembers depth ms = .ok ns := by
  induction ms with
  | nil => exact ⟨[], rfl⟩
  | cons m ms ih =>
    obtain ⟨key, v⟩ := m
    obtain ⟨hre, hallowed, w, hw⟩ := h key v List.mem_cons_self
    obtain ⟨ns, hns⟩ := ih fun k v hmem => h k v (List.mem_cons_of_mem _ hmem)
    refine ⟨(key, w) :: ns, ?_⟩
    rw [normalizeMembers, hre, hallowed, hw, hns]
    rfl

/-- The keys of what is normalized. -/
theorem normalizeMembers_keys {depth : ℕ} : ∀ {ms ns : List (JsString × Json)},
    normalizeMembers depth ms = .ok ns → ∀ k v, (k, v) ∈ ms →
      DATA_KEY_RE k = true ∧ FORBIDDEN_DATA_KEYS.contains k = false
  | [], _, _, _, _, hmem => by simp at hmem
  | (key, u) :: ms, ns, h, k, v, hmem => by
    rw [normalizeMembers] at h
    split at h
    next => cases h
    next hkey =>
      simp only [bind_ok, pure_eq, Except.ok.injEq] at h
      obtain ⟨-, -, ws, hws, -⟩ := h
      rcases List.mem_cons.1 hmem with heq | hmem
      · rw [Prod.mk.injEq] at heq
        rw [heq.1]
        simpa using hkey
      · exact normalizeMembers_keys hws k v hmem

/-- What looks like this value is normalized to what looks like its normal form. It is shown by
induction on values. -/
def NormalizedAlike (u : Json) : Prop :=
  ∀ (depth : ℕ) (v u' : Json), normalizeValue depth u = .ok u' → u.Same v → v.Distinct →
    ∃ v', normalizeValue depth v = .ok v' ∧ u'.Alike v'

/-- Normalized members come out alike in any order. -/
theorem normalizeMembers_alike {depth : ℕ} {ms ns ms' : List (JsString × Json)}
    (hms : ∀ m ∈ ms, NormalizedAlike m.2) (h : normalizeMembers depth ms = .ok ms')
    (hrel : ∀ k, Option.Rel Json.Same (ms.lookup k) (ns.lookup k))
    (hns : (ns.map Prod.fst).Nodup) (hd : DistinctMembers ns) :
    ∃ ns', normalizeMembers depth ns = .ok ns' ∧
      ∀ k, Option.Rel Json.Alike (ms'.lookup k) (ns'.lookup k) := by
  -- each member on the right has its counterpart on the left, which normalizes alike
  have hfrom : ∀ k v, ns.lookup k = some v → ∃ u u' v', ms.lookup k = some u ∧
      ms'.lookup k = some u' ∧ normalizeValue (depth + 1) v = .ok v' ∧ u'.Alike v' := by
    intro k v hv
    obtain ⟨u, hu, hsame⟩ := (Json.Same.obj (p := .bare) (q := .bare) hrel).exists_lookup hv
    have hnorm := normalizeMembers_lookup k h
    rw [hu] at hnorm
    cases hu' : ms'.lookup k with
    | none =>
      rw [hu'] at hnorm
      cases hnorm
    | some u' =>
      rw [hu'] at hnorm
      cases hnorm with
      | some hnorm =>
        obtain ⟨v', hv', halike⟩ :=
          hms (k, u) (mem_of_lookup hu) _ v u' hnorm hsame (distinct_member hd hv)
        exact ⟨u, u', v', hu, rfl, hv', halike⟩
  -- so the right side normalizes as well, its keys being among those on the left
  obtain ⟨ns', hns'⟩ : ∃ ns', normalizeMembers depth ns = .ok ns' := by
    refine normalizeMembers_of_forall fun k v hmem => ?_
    obtain ⟨u, -, v', hu, -, hv', -⟩ := hfrom k v ((lookup_iff_mem hns).2 hmem)
    obtain ⟨hre, hallowed⟩ := normalizeMembers_keys h k u (mem_of_lookup hu)
    exact ⟨hre, hallowed, v', hv'⟩
  refine ⟨ns', hns', fun k => ?_⟩
  have hnorm := normalizeMembers_lookup k hns'
  -- and the two agree under every key, the absent ones included
  cases hn : ns.lookup k with
  | none =>
    have hm := hrel k
    have hm' := normalizeMembers_lookup k h
    rw [hn] at hm hnorm
    cases hlook : ms.lookup k with
    | none =>
      rw [hlook] at hm'
      generalize ms'.lookup k = o, ns'.lookup k = o' at hm' hnorm
      cases hm'
      cases hnorm
      exact .none
    | some u =>
      rw [hlook] at hm
      cases hm
  | some v =>
    obtain ⟨u, u', v', -, hu', hv', halike⟩ := hfrom k v hn
    rw [hn] at hnorm
    rw [hu']
    generalize ns'.lookup k = o' at hnorm
    cases hnorm with
    | some hw =>
      rw [hv', Except.ok.injEq] at hw
      rw [← hw]
      exact .some halike

/-- Normalized entries come out alike. -/
theorem normalizeItems_alike {depth : ℕ} {us vs : List Json} (hsame : List.Forall₂ Json.Same us vs)
    (hus : ∀ u ∈ us, NormalizedAlike u) : ∀ {us' : List Json}, normalizeItems depth us = .ok us' →
      DistinctItems vs → ∃ vs', normalizeItems depth vs = .ok vs' ∧ List.Forall₂ Json.Alike us' vs' := by
  induction hsame with
  | nil =>
    intro us' h _
    obtain rfl : [] = us' := Except.ok.inj h
    exact ⟨[], rfl, .nil⟩
  | @cons u v us vs huv _ ih =>
    intro us' h hd
    simp only [normalizeItems, bind_ok, pure_eq, Except.ok.injEq] at h
    obtain ⟨u', hu', us', hus', rfl⟩ := h
    obtain ⟨v', hv', halike⟩ := hus u List.mem_cons_self _ v u' hu' huv hd.1
    obtain ⟨vs', hvs', halikes⟩ := ih (fun w hw => hus w (List.mem_cons_of_mem _ hw)) hus' hd.2
    refine ⟨v' :: vs', ?_, .cons halike halikes⟩
    rw [normalizeItems, hv', hvs']
    rfl

/-- What normalizes is not too deep. -/
theorem shallow {depth : ℕ} {u u' : Json} (h : normalizeValue depth u = .ok u') :
    ¬ depth > MAX_DATA_DEPTH := by
  intro hdeep
  cases u <;> simp [normalizeValue, hdeep] at h

mutual
/-- **Equal values are normalized to values that read alike.** Normalizing goes member by member,
and no member looks at the others. -/
theorem normalizeValue_alike : ∀ u : Json, NormalizedAlike u
  | .null => by
    intro depth v u' h hsame _
    cases hsame
    exact ⟨u', h, .refl _⟩
  | .bool _ => by
    intro depth v u' h hsame _
    cases hsame
    exact ⟨u', h, .refl _⟩
  | .num _ => by
    intro depth v u' h hsame _
    cases hsame
    exact ⟨u', h, .refl _⟩
  | .str _ => by
    intro depth v u' h hsame _
    cases hsame
    exact ⟨u', h, .refl _⟩
  | .arr us => by
    intro depth v u' h hsame hd
    have hdepth := shallow h
    cases hsame with
    | arr hitems =>
      simp only [normalizeValue, hdepth, if_false, bind_ok, pure_eq, Except.ok.injEq] at h
      obtain ⟨us', hus', rfl⟩ := h
      obtain ⟨vs', hvs', halike⟩ := normalizeItems_alike hitems (items_alike us) hus' hd
      refine ⟨.arr vs', ?_, .arr halike⟩
      simp only [normalizeValue, hdepth, if_false, hvs']
      rfl
  | .obj p ms => by
    intro depth v u' h hsame hd
    have hdepth := shallow h
    cases hsame with
    | obj hmembers =>
      simp only [normalizeValue, hdepth, if_false, bind_ok, pure_eq, Except.ok.injEq] at h
      obtain ⟨ms', hms', rfl⟩ := h
      obtain ⟨ns', hns', halike⟩ :=
        normalizeMembers_alike (members_alike ms) hms' hmembers hd.1 hd.2
      refine ⟨.obj .bare ns', ?_, .obj halike⟩
      simp only [normalizeValue, hdepth, if_false, hns']
      rfl

/-- The recursion into the entries of an array. -/
theorem items_alike : ∀ us : List Json, ∀ u ∈ us, NormalizedAlike u
  | [] => by simp
  | u :: us => by
    intro w hw
    rcases List.mem_cons.1 hw with heq | hw
    · rw [heq]
      exact normalizeValue_alike u
    · exact items_alike us w hw

/-- The recursion into the members of an object. -/
theorem members_alike : ∀ ms : List (JsString × Json), ∀ m ∈ ms, NormalizedAlike m.2
  | [] => by simp
  | (_, u) :: ms => by
    intro w hw
    rcases List.mem_cons.1 hw with heq | hw
    · rw [heq]
      exact normalizeValue_alike u
    · exact members_alike ms w hw
end

/-! ## Transactions -/

/-- An object has only the allowed members when the same one in another order has. -/
theorem closed_of_same {ms ns : List (JsString × Json)} {allowed : List JsString}
    (hclosed : XprSchema.closed ms allowed = true)
    (hrel : ∀ k, Option.Rel Json.Same (ms.lookup k) (ns.lookup k)) :
    XprSchema.closed ns allowed = true := by
  refine List.all_eq_true.2 fun n hn => ?_
  have hrel := hrel n.1
  cases hlook : ns.lookup n.1 with
  | none =>
    have hnot := List.lookup_eq_none_iff.1 hlook n hn
    simp at hnot
  | some v =>
    rw [hlook] at hrel
    cases hm : ms.lookup n.1 with
    | none =>
      rw [hm] at hrel
      cases hrel
    | some u => exact (List.all_eq_true.1 hclosed (n.1, u) (mem_of_lookup hm) :)

/-- A string member stays that string. -/
theorem lookup_str_same {ms ns : List (JsString × Json)} {k s : JsString}
    (hrel : ∀ k, Option.Rel Json.Same (ms.lookup k) (ns.lookup k))
    (h : ms.lookup k = some (.str s)) : ns.lookup k = some (.str s) := by
  have hrel := hrel k
  rw [h] at hrel
  generalize ns.lookup k = o at hrel
  cases hrel with
  | some hsame =>
    cases hsame
    rfl

/-- So does a name, with its pattern. -/
theorem name_same {ms ns : List (JsString × Json)} {k s : JsString} {pattern : JsString → Bool}
    (hrel : ∀ k, Option.Rel Json.Same (ms.lookup k) (ns.lookup k))
    (h : XprSchema.name ms k pattern = some s) : XprSchema.name ns k pattern = some s := by
  have hms := name_lookup h
  rw [XprSchema.name, hms] at h
  rw [XprSchema.name, lookup_str_same hrel hms]
  exact h

/-- An authorization reads as the same identity. -/
theorem authorization_of_same {u v : Json} {a : AccountIdentity} (hsame : u.Same v)
    (h : XprSchema.authorization u = some a) : XprSchema.authorization v = some a := by
  cases hsame with
  | obj hrel =>
    simp only [XprSchema.authorization, Option.bind_eq_bind, Option.bind_eq_some_iff,
      Option.guard_eq_some', Option.pure_def, Option.some.injEq] at h ⊢
    obtain ⟨-, hclosed, actor, hactor, permission, hpermission, ha⟩ := h
    exact ⟨(), closed_of_same hclosed hrel, actor, name_same hrel hactor, permission,
      name_same hrel hpermission, ha⟩
  | _ => cases h

/-- Equal action objects that pass the schema. -/
structure XprActionJson.Same (r s : XprActionJson) : Prop where
  account : r.account = s.account
  name : r.name = s.name
  authorization : r.authorization = s.authorization
  data : ∀ k, Option.Rel Json.Same (r.data.lookup k) (s.data.lookup k)
  keys : (s.data.map Prod.fst).Nodup
  distinct : DistinctMembers s.data

/-- An action that reads also reads when its members stand in another order, and to the same raw
action. -/
theorem action_of_same {u v : Json} {raw : XprActionJson} (hsame : u.Same v) (hd : v.Distinct)
    (h : XprSchema.action u = some raw) : ∃ raw', XprSchema.action v = some raw' ∧ raw.Same raw' := by
  cases hsame with
  | @obj p q ms ns hrel =>
    simp only [XprSchema.action, Option.bind_eq_bind, Option.bind_eq_some_iff,
      Option.guard_eq_some', Option.pure_def, Option.some.injEq] at h
    obtain ⟨-, hclosed, account, haccount, name, hname, auths, ⟨w, hw, hauths⟩, data,
      ⟨z, hz, hdata⟩, rfl⟩ := h
    have hauths' : (ns.lookup (js "authorization")).bind XprSchema.authorizations = some auths := by
      have hk := hrel (js "authorization")
      rw [hw] at hk
      generalize ns.lookup (js "authorization") = o at hk
      unfold XprSchema.authorizations at hauths
      split at hauths
      next auth =>
        obtain ⟨a, ha, rfl⟩ := Option.map_eq_some_iff.1 hauths
        cases hk with
        | some hk =>
          cases hk with
          | arr hitems =>
            cases hitems with
            | cons hitem hnil =>
              cases hnil
              simp only [Option.bind_some, XprSchema.authorizations,
                authorization_of_same hitem ha, Option.map_some]
      next => cases hauths
    have hdata' : ∃ q' data', ns.lookup (js "data") = some (.obj q' data') ∧
        ∀ k, Option.Rel Json.Same (data.lookup k) (data'.lookup k) := by
      have hk := hrel (js "data")
      rw [hz] at hk
      cases z with
      | obj r members =>
        obtain rfl : members = data := Option.some.inj hdata
        generalize ns.lookup (js "data") = o at hk
        cases hk with
        | some hk =>
          cases hk with
          | obj hdatas => exact ⟨_, _, rfl, hdatas⟩
      | _ => cases hdata
    obtain ⟨q', data', hlook, hdatas⟩ := hdata'
    have hdd : (Json.obj q' data').Distinct := distinct_member hd.2 hlook
    refine ⟨⟨account, name, auths, data'⟩, ?_, ⟨rfl, rfl, rfl, hdatas, hdd.1, hdd.2⟩⟩
    simp only [XprSchema.action, Option.bind_eq_bind, Option.bind_eq_some_iff,
      Option.guard_eq_some', Option.pure_def, Option.some.injEq]
    exact ⟨(), closed_of_same hclosed hrel, account, name_same hrel haccount, name,
      name_same hrel hname, auths, Option.bind_eq_some_iff.1 hauths', data',
      ⟨_, hlook, rfl⟩, rfl⟩
  | _ => cases h

/-- So does a list of actions -/
theorem actions_of_same {us vs : List Json} (hsame : List.Forall₂ Json.Same us vs) :
    ∀ {raws : List XprActionJson}, DistinctItems vs → us.mapM XprSchema.action = some raws →
      ∃ raws', vs.mapM XprSchema.action = some raws' ∧ List.Forall₂ XprActionJson.Same raws raws' := by
  induction hsame with
  | nil =>
    intro raws _ h
    obtain rfl : [] = raws := Option.some.inj h
    exact ⟨[], rfl, .nil⟩
  | cons huv _ ih =>
    intro raws hd h
    simp only [List.mapM_cons, Option.bind_eq_bind, Option.bind_eq_some_iff, Option.pure_def,
      Option.some.injEq] at h
    obtain ⟨raw, hraw, raws, hraws, rfl⟩ := h
    obtain ⟨raw', hraw', hs⟩ := action_of_same huv hd.1 hraw
    obtain ⟨raws', hraws', hss⟩ := ih hd.2 hraws
    refine ⟨raw' :: raws', ?_, .cons hs hss⟩
    rw [List.mapM_cons, hraw', hraws']
    rfl

/-- and a whole transaction. -/
theorem transaction_of_same {x y : Json} {raws : List XprActionJson} (hsame : x.Same y)
    (hd : y.Distinct) (h : XprSchema.transaction x = some raws) :
    ∃ raws', XprSchema.transaction y = some raws' ∧ List.Forall₂ XprActionJson.Same raws raws' := by
  cases hsame with
  | @obj p q ms ns hrel =>
    simp only [XprSchema.transaction, Option.bind_eq_bind, Option.bind_eq_some_iff,
      Option.guard_eq_some'] at h
    obtain ⟨-, hclosed, v, hv, h⟩ := h
    cases v with
    | arr items =>
      simp only [XprSchema.actions, Option.bind_eq_bind, Option.bind_eq_some_iff,
        Option.guard_eq_some'] at h
      obtain ⟨-, hlen, h⟩ := h
      obtain ⟨w, hw, hitems⟩ : ∃ w, ns.lookup (js "actions") = some w ∧ (Json.arr items).Same w := by
        have hk := hrel (js "actions")
        rw [hv] at hk
        generalize ns.lookup (js "actions") = o at hk
        cases hk with
        | some hk => exact ⟨_, rfl, hk⟩
      cases hitems with
      | @arr _ items' hitems =>
        have hdi : (Json.arr items').Distinct := distinct_member hd.2 hw
        obtain ⟨raws', hraws', hss⟩ := actions_of_same hitems hdi h
        refine ⟨raws', ?_, hss⟩
        rw [hitems.length_eq] at hlen
        simp only [XprSchema.transaction, hw, Option.bind_some, XprSchema.actions,
          Option.bind_eq_bind, Option.bind_eq_some_iff, Option.guard_eq_some']
        exact ⟨(), closed_of_same hclosed hrel, (), hlen, hraws'⟩
    | _ => cases h
  | _ => cases h

/-- The same raw action normalizes to an alike one. -/
theorem normalizeAction_of_same {r s : XprActionJson} (h : r.Same s)
    (hnorm : normalizeAction r = .ok a) : ∃ b, normalizeAction s = .ok b ∧ a.Alike b := by
  simp only [normalizeAction, bind_ok, pure_eq, Except.ok.injEq] at hnorm
  obtain ⟨data, hdata, rfl⟩ := hnorm
  obtain ⟨data', hdata', halike⟩ :=
    normalizeMembers_alike (members_alike r.data) hdata h.data h.keys h.distinct
  refine ⟨⟨s.account, s.name, s.authorization, data'⟩, ?_, ⟨h.account, h.name, h.authorization, halike⟩⟩
  simp only [normalizeAction, hdata']
  rfl

/-- And so does a list of them, one by one. -/
theorem normalizeActions_of_same {rs ss : List XprActionJson}
    (h : List.Forall₂ XprActionJson.Same rs ss) : ∀ {as : List DecodedAction},
      rs.mapM normalizeAction = .ok as →
      ∃ bs, ss.mapM normalizeAction = .ok bs ∧ List.Forall₂ DecodedAction.Alike as bs := by
  induction h with
  | nil =>
    intro as has
    obtain rfl : [] = as := Except.ok.inj has
    exact ⟨[], rfl, .nil⟩
  | cons hrs _ ih =>
    intro as has
    simp only [List.mapM_cons, bind_ok, pure_eq, Except.ok.injEq] at has
    obtain ⟨a, ha, as, has, rfl⟩ := has
    obtain ⟨b, hb, halike⟩ := normalizeAction_of_same hrs ha
    obtain ⟨bs, hbs, halikes⟩ := ih has
    refine ⟨b :: bs, ?_, .cons halike halikes⟩
    rw [List.mapM_cons, hb, hbs]
    rfl

/-- **A value equal to one that decodes decodes alike**: to the same context and to actions that
read alike, one by one. -/
theorem decode_same {x y : Json} {context : ChainContext} {tx : DecodedTransaction}
    (h : decodeXprTransaction x context = .ok tx) (hsame : x.Same y) (hx : x.Distinct)
    (hy : y.Distinct) : ∃ ty, decodeXprTransaction y context = .ok ty ∧ tx.context = ty.context ∧
      List.Forall₂ DecodedAction.Alike tx.actions ty.actions ∧ ty.source = some y := by
  obtain ⟨hlen, raws, hraws, hactions, hcontext⟩ := decode_ok h
  obtain ⟨raws', hraws', hss⟩ := transaction_of_same hsame hy hraws
  obtain ⟨bs, hbs, halike⟩ := normalizeActions_of_same hss hactions
  have hsize : ¬ y.stringify.length > MAX_INPUT_BYTES := by
    have heq := same_length x y hsame hx hy
    omega
  refine ⟨⟨context, bs, some y⟩, ?_, hcontext, halike, rfl⟩
  cases hsame with
  | obj _ =>
    simp only [decodeXprTransaction, hsize, if_false, hraws', hbs]
    rfl
  | _ => cases hraws

/-- **The policy cannot tell the two apart**, whichever policy it is and in whatever context it is
evaluated. -/
theorem decode_indistinct {x y : Json} {context : ChainContext} {tx : DecodedTransaction}
    (h : decodeXprTransaction x context = .ok tx) (hsame : x.Same y) (hx : x.Distinct)
    (hy : y.Distinct) : ∃ ty, decodeXprTransaction y context = .ok ty ∧ ∀ (policy : Policy)
      (ctx : EvaluationContext), ctx.dialect = xprDialect →
        evaluatePolicy tx policy ctx = evaluatePolicy ty policy ctx := by
  obtain ⟨ty, hty, hcontext, halike, -⟩ := decode_same h hsame hx hy
  refine ⟨ty, hty, fun policy ctx hctx => evaluatePolicy_indistinct hcontext ?_⟩
  exact halike.imp fun a b hab => hab.indistinct hctx

end Signbox
