import Signbox.Proof.Canonical
import Signbox.Spec.Policy

/-!
# A policy determines its document

A reader is faithful when two documents it reads as the same value are the same value of
JSON. The policy schema is faithful: its objects are closed, so that every member of a document
is kept in the policy or constant.

* `faithful_array`, `rel_required`, `rel_optional`, `same_closed`: the combinators.
* `faithful_policy`: the policy schema, record by record.
-/

namespace Signbox

open Guard

/-- Documents that `f` reads as the same value are the same JSON value. -/
def Faithful {α : Type} (f : Json → Option α) : Prop :=
  ∀ ⦃u v : Json⦄ ⦃x : α⦄, f u = some x → f v = some x → u.Same v

/-! ## Integers -/

/-- The decimal of an integral number. -/
theorem toInt?_ofParts {x : JsNumber} {i : ℤ} (h : x.toInt? = some i) :
    x = .finite (.ofParts (decide (i < 0)) i.natAbs 0) := by
  cases x with
  | infinite neg => simp [JsNumber.toInt?] at h
  | finite d =>
    simp only [JsNumber.toInt?, Option.ite_none_right_eq_some, Option.some.injEq] at h
    obtain ⟨hexp, hi⟩ := h
    have habs : i.natAbs = d.coeff * 10 ^ d.exp.toNat := by
      cases hneg : d.neg <;> rw [hneg] at hi <;> simp only [if_true, if_false,
        Bool.false_eq_true] at hi <;> omega
    have hsign : decide (i < 0) = d.neg := by
      rcases d.normal with hc | ⟨hzero, hneg, -⟩
      · have hpos : 0 < d.coeff * 10 ^ d.exp.toNat :=
          Nat.mul_pos (by omega) (Nat.pow_pos (by omega))
        cases hneg : d.neg <;> rw [hneg] at hi <;> simp only [if_true, if_false,
          Bool.false_eq_true] at hi <;> simp only [decide_eq_true_eq, decide_eq_false_iff_not] <;>
          omega
      · rw [hneg, decide_eq_false_iff_not]
        rw [hzero, Nat.zero_mul] at habs
        omega
    have hparts := JsonText.ofParts_eq d d.exp.toNat
    rw [show d.exp - (d.exp.toNat : ℤ) = 0 by omega] at hparts
    rw [hsign, habs, hparts]

namespace Schema

variable {α : Type} {f : Json → Option α} {ms ns : List (JsString × Json)} {key : JsString}

/-! ## Leaves -/

/-- A reader of strings that keeps which string it was. -/
theorem faithful_of_str (name : α → JsString) (h : ∀ u x, f u = some x → u = .str (name x)) :
    Faithful f := by
  intro u v x hu hv
  rw [h u x hu, h v x hv]
  exact .str _

/-- A text field is read from the string itself, so nothing of it is lost. -/
theorem text_eq {lo hi : ℕ} {u : Json} {s : JsString} (h : text lo hi u = some s) : u = .str s := by
  cases u <;> simp only [text, reduceCtorEq, Option.ite_none_right_eq_some,
    Option.some.injEq] at h
  rw [h.2]

/-- A field with a pattern is read from the string itself, which then has the form asked for. -/
theorem pattern_eq {p : JsString → Bool} {u : Json} {s : JsString} (h : pattern p u = some s) :
    u = .str s ∧ p s = true := by
  cases u <;> simp only [pattern, reduceCtorEq, Option.ite_none_right_eq_some,
    Option.some.injEq] at h
  obtain ⟨hp, rfl⟩ := h
  exact ⟨rfl, hp⟩

/-- A constant field is read from that constant only. -/
theorem const_eq {s : JsString} {u : Json} {x : Unit} (h : const s u = some x) : u = .str s := by
  cases u <;> simp only [const, reduceCtorEq, Option.ite_none_right_eq_some] at h
  rw [h.1]

/-- Two documents that read as one text have one string there. -/
theorem faithful_text (lo hi : ℕ) : Faithful (text lo hi) :=
  faithful_of_str id fun _ _ h => text_eq h

/-- The same for a text with a pattern, -/
theorem faithful_pattern (p : JsString → Bool) : Faithful (pattern p) :=
  faithful_of_str id fun _ _ h => (pattern_eq h).1

/-- and for a constant. -/
theorem faithful_const (s : JsString) : Faithful (const s) :=
  faithful_of_str (fun _ => s) fun _ _ h => const_eq h

/-- The text of an effect. -/
def effectText : Effect → JsString
  | .allow => js "allow"
  | .deny => js "deny"

/-- An effect is read from its own word. -/
theorem effect_eq {u : Json} {x : Effect} (h : effect u = some x) : u = .str (effectText x) := by
  cases u with
  | str s =>
    simp only [effect] at h
    by_cases hallow : s = js "allow"
    · rw [if_pos hallow, Option.some.injEq] at h
      rw [← h, hallow]
      rfl
    · rw [if_neg hallow, Option.ite_none_right_eq_some, Option.some.injEq] at h
      rw [← h.2, h.1]
      rfl
  | _ => simp [effect] at h

/-- The text of a provider operator. -/
def opText : ProviderOp → JsString
  | .contains => js "contains"
  | .eq => js "eq"

/-- An operator is read from its own word. -/
theorem providerOp_eq {u : Json} {x : ProviderOp} (h : providerOp u = some x) :
    u = .str (opText x) := by
  cases u with
  | str s =>
    simp only [providerOp] at h
    by_cases hcontains : s = js "contains"
    · rw [if_pos hcontains, Option.some.injEq] at h
      rw [← h, hcontains]
      rfl
    · rw [if_neg hcontains, Option.ite_none_right_eq_some, Option.some.injEq] at h
      rw [← h.2, h.1]
      rfl
  | _ => simp [providerOp] at h

/-- The document of a natural number. -/
def natDoc (n : ℕ) : Json := .num (.finite (.ofParts false n 0))

/-- An integer is read from the number it is, and lies in its range. A number such as `1.0` has one
value, so its spelling does not show. -/
theorem integer_eq {lo hi : ℕ} {u : Json} {n : ℕ} (h : integer lo hi u = some n) :
    u = natDoc n ∧ lo ≤ n ∧ n ≤ hi := by
  cases u with
  | num x =>
    cases hx : x.toInt? with
    | none => simp [integer, hx] at h
    | some i =>
      simp only [integer, hx, Option.ite_none_right_eq_some, Option.some.injEq] at h
      obtain ⟨hbounds, hi⟩ := h
      have hneg : decide (i < 0) = false := by
        rw [decide_eq_false_iff_not]
        omega
      have habs : i.natAbs = n := by omega
      rw [natDoc, toInt?_ofParts hx, hneg, habs]
      exact ⟨rfl, by omega, by omega⟩
  | _ => simp [integer] at h

/-- Effects determine what they were read from. -/
theorem faithful_effect : Faithful effect := faithful_of_str effectText fun _ _ h => effect_eq h

/-- So do operators -/
theorem faithful_providerOp : Faithful providerOp :=
  faithful_of_str opText fun _ _ h => providerOp_eq h

/-- and integers. -/
theorem faithful_integer (lo hi : ℕ) : Faithful (integer lo hi) := by
  intro u v n hu hv
  rw [(integer_eq hu).1, (integer_eq hv).1]
  exact .num _

/-! ## Arrays and objects -/

/-- Lists that are read as the same values have related elements. -/
theorem forall₂_meet {β γ : Type} {P : β → γ → Prop} {R : β → β → Prop}
    (h : ∀ ⦃a b c⦄, P a c → P b c → R a b) : ∀ {as bs : List β} {cs : List γ},
    List.Forall₂ P as cs → List.Forall₂ P bs cs → List.Forall₂ R as bs
  | _, _, _, .nil, .nil => .nil
  | _, _, _, .cons ha has, .cons hb hbs => .cons (h ha hb) (forall₂_meet h has hbs)

/-- An array reads when its length is in range and each entry reads. -/
theorem array_iff {lo hi : ℕ} {u : Json} {xs : List α} : array lo hi f u = some xs ↔
    ∃ us, u = .arr us ∧ (lo ≤ us.length ∧ us.length ≤ hi) ∧
      List.Forall₂ (fun v x => f v = some x) us xs := by
  constructor
  · intro h
    cases u with
    | arr us =>
      simp only [array, Option.ite_none_right_eq_some] at h
      exact ⟨us, rfl, h.1, mapM_some.1 h.2⟩
    | _ => simp [array] at h
  · rintro ⟨us, rfl, hlen, hus⟩
    rw [array, if_pos hlen, mapM_some.2 hus]

/-- If the entries determine their documents then so does the array, entry by entry. -/
theorem faithful_array (h : Faithful f) (lo hi : ℕ) : Faithful (array lo hi f) := by
  intro u v xs hu hv
  obtain ⟨us, rfl, -, hus⟩ := array_iff.1 hu
  obtain ⟨vs, rfl, -, hvs⟩ := array_iff.1 hv
  exact .arr (forall₂_meet h hus hvs)

/-- A required member that reads is there. -/
theorem required_some {x : α} (h : required ms key f = some x) :
    ∃ u, ms.lookup key = some u ∧ f u = some x := Option.bind_eq_some_iff.1 h

/-- A required text is the string that is read from it. -/
theorem required_text {lo hi : ℕ} {s : JsString} (h : required ms key (text lo hi) = some s) :
    ms.lookup key = some (.str s) := by
  obtain ⟨u, hu, hs⟩ := required_some h
  rw [hu, text_eq hs]

/-- An optional text that is absent stays absent, and one that is there is the string read from
it. -/
theorem optional_text {lo hi : ℕ} {o : Option JsString}
    (h : optional ms key (text lo hi) = some o) : ms.lookup key = o.map .str := by
  unfold optional at h
  cases hu : ms.lookup key with
  | none =>
    simp only [hu, Option.some.injEq] at h
    rw [← h]
    rfl
  | some u =>
    simp only [hu, Option.map_eq_some_iff] at h
    obtain ⟨s, hs, rfl⟩ := h
    rw [text_eq hs]
    rfl

/-- An optional integer likewise, and in its range. -/
theorem optional_integer {lo hi : ℕ} {o : Option ℕ}
    (h : optional ms key (integer lo hi) = some o) :
    ms.lookup key = o.map natDoc ∧ ∀ n, o = some n → lo ≤ n ∧ n ≤ hi := by
  unfold optional at h
  cases hu : ms.lookup key with
  | none =>
    simp only [hu, Option.some.injEq] at h
    rw [← h]
    exact ⟨rfl, by simp⟩
  | some u =>
    simp only [hu, Option.map_eq_some_iff] at h
    obtain ⟨n, hn, rfl⟩ := h
    rw [(integer_eq hn).1]
    refine ⟨rfl, fun m hm => ?_⟩
    rw [← Option.some.inj hm]
    exact (integer_eq hn).2

/-- Members read as the same value are alike, since the field determines its document. -/
theorem rel_required (h : Faithful f) {x : α} (hm : required ms key f = some x)
    (hn : required ns key f = some x) : Option.Rel Json.Same (ms.lookup key) (ns.lookup key) := by
  rw [required, Option.bind_eq_some_iff] at hm hn
  obtain ⟨u, hu, hux⟩ := hm
  obtain ⟨v, hv, hvx⟩ := hn
  rw [hu, hv]
  exact .some (h hux hvx)

/-- And two optional members that read alike are both there or both absent. -/
theorem rel_optional (h : Faithful f) {x : Option α} (hm : optional ms key f = some x)
    (hn : optional ns key f = some x) : Option.Rel Json.Same (ms.lookup key) (ns.lookup key) := by
  unfold optional at hm hn
  cases hu : ms.lookup key with
  | none =>
    cases hv : ns.lookup key with
    | none => exact .none
    | some v =>
      rw [hu] at hm
      rw [hv] at hn
      simp only [Option.some.injEq, Option.map_eq_some_iff] at hm hn
      obtain ⟨_, -, heq⟩ := hn
      rw [← hm] at heq
      simp at heq
  | some u =>
    rw [hu] at hm
    simp only [Option.map_eq_some_iff] at hm
    obtain ⟨a, hua, rfl⟩ := hm
    cases hv : ns.lookup key with
    | none =>
      rw [hv] at hn
      simp at hn
    | some v =>
      rw [hv] at hn
      simp only [Option.map_eq_some_iff] at hn
      obtain ⟨b, hvb, heq⟩ := hn
      rw [Option.some.inj heq] at hvb
      exact .some (h hua hvb)

/-- A closed object is determined by the members it may have. -/
theorem same_closed {p q : Proto} {allowed : List JsString} (hm : closed ms allowed = true)
    (hn : closed ns allowed = true)
    (h : ∀ k ∈ allowed, Option.Rel Json.Same (ms.lookup k) (ns.lookup k)) :
    (Json.obj p ms).Same (.obj q ns) := by
  have hnone : ∀ {l : List (JsString × Json)} {k}, closed l allowed = true → k ∉ allowed →
      l.lookup k = none := by
    intro l k hl hk
    cases hlook : l.lookup k with
    | none => rfl
    | some v =>
      have hmem := List.all_eq_true.1 hl (k, v) (mem_of_lookup hlook)
      exact absurd (by simpa using hmem) hk
  refine .obj fun k => ?_
  by_cases hk : k ∈ allowed
  · exact h k hk
  · rw [hnone hm hk, hnone hn hk]
    exact .none

/-! ## Match values -/

/-- An array of texts is read from exactly these strings. -/
theorem texts_eq {lo hi lo' hi' : ℕ} {u : Json} {ss : List JsString}
    (h : array lo hi (text lo' hi') u = some ss) : u = .arr (ss.map .str) := by
  cases u with
  | arr us =>
    simp only [array, Option.ite_none_right_eq_some] at h
    obtain ⟨-, h⟩ := h
    congr 1
    induction us generalizing ss with
    | nil =>
      simp only [List.mapM_nil, Option.pure_def, Option.some.injEq] at h
      rw [← h]
      rfl
    | cons u us ih =>
      simp only [List.mapM_cons, Option.bind_eq_bind, Option.bind_eq_some_iff, Option.pure_def,
        Option.some.injEq] at h
      obtain ⟨s, hs, rest, hrest, rfl⟩ := h
      rw [text_eq hs, ih hrest]
      rfl
  | _ => simp [array] at h

/-- The document of a match value. -/
def matchDoc (p : Proto) : MatchValue → Json
  | .lit s => .str s
  | .lte bound => .obj p [(js "lte", .str bound)]
  | .gte bound => .obj p [(js "gte", .str bound)]
  | .eq s => .obj p [(js "eq", .str s)]
  | .isIn vs => .obj p [(js "in", .arr (vs.map .str))]
  | .notIn vs => .obj p [(js "notIn", .arr (vs.map .str))]

/-- A match value comes from its own document, up to the prototype of an object. -/
theorem matchValue_doc {u : Json} {x : MatchValue} (h : matchValue u = some x) :
    ∃ p, u = matchDoc p x := by
  unfold matchValue at h
  split at h
  next p key v =>
    refine ⟨p, ?_⟩
    by_cases hlte : key = js "lte"
    · rw [if_pos hlte, Option.map_eq_some_iff] at h
      obtain ⟨s, hs, rfl⟩ := h
      rw [text_eq hs, hlte, matchDoc]
    rw [if_neg hlte] at h
    by_cases hgte : key = js "gte"
    · rw [if_pos hgte, Option.map_eq_some_iff] at h
      obtain ⟨s, hs, rfl⟩ := h
      rw [text_eq hs, hgte, matchDoc]
    rw [if_neg hgte] at h
    by_cases heq : key = js "eq"
    · rw [if_pos heq, Option.map_eq_some_iff] at h
      obtain ⟨s, hs, rfl⟩ := h
      rw [text_eq hs, heq, matchDoc]
    rw [if_neg heq] at h
    by_cases hin : key = js "in"
    · rw [if_pos hin, Option.map_eq_some_iff] at h
      obtain ⟨ss, hss, rfl⟩ := h
      rw [texts_eq hss, hin, matchDoc]
    rw [if_neg hin, Option.ite_none_right_eq_some, Option.map_eq_some_iff] at h
    obtain ⟨hnotIn, ss, hss, rfl⟩ := h
    rw [texts_eq hss, hnotIn, matchDoc]
  next v hv =>
    rw [Option.map_eq_some_iff] at h
    obtain ⟨s, hs, rfl⟩ := h
    exact ⟨.ordinary, text_eq hs⟩

/-- Objects of one member are alike when the member is. -/
theorem same_singleton (p q : Proto) (k : JsString) {u v : Json} (h : u.Same v) :
    (Json.obj p [(k, u)]).Same (.obj q [(k, v)]) := by
  refine .obj fun k' => ?_
  rw [List.lookup_cons, List.lookup_cons]
  cases k' == k with
  | true => exact .some h
  | false => exact .none

/-- An array of strings is like itself; no numbers are in it. -/
theorem same_strs (ss : List JsString) : (Json.arr (ss.map .str)).Same (.arr (ss.map .str)) := by
  refine .arr ?_
  rw [List.forall₂_same]
  intro u hu
  obtain ⟨s, -, rfl⟩ := List.mem_map.1 hu
  exact .str s

/-- So match values determine what they were read from. -/
theorem faithful_matchValue : Faithful matchValue := by
  intro u v x hu hv
  obtain ⟨p, rfl⟩ := matchValue_doc hu
  obtain ⟨q, rfl⟩ := matchValue_doc hv
  cases x with
  | lit s => exact .str s
  | lte s => exact same_singleton p q _ (.str s)
  | gte s => exact same_singleton p q _ (.str s)
  | eq s => exact same_singleton p q _ (.str s)
  | isIn ss => exact same_singleton p q _ (same_strs ss)
  | notIn ss => exact same_singleton p q _ (same_strs ss)

/-- Members alike in their order are alike under every key. -/
theorem rel_of_forall₂ (h : List.Forall₂ (fun m n => m.1 = n.1 ∧ m.2.Same n.2) ms ns)
    (k : JsString) : Option.Rel Json.Same (ms.lookup k) (ns.lookup k) := by
  induction h with
  | nil => exact .none
  | cons hmn _ ih =>
    rw [List.lookup_cons, List.lookup_cons, ← hmn.1]
    split
    · exact .some hmn.2
    · exact ih

variable {dialect : PolicyDialect}

/-- A member of `match` and the field it is read as. -/
def FieldRead (dialect : PolicyDialect) (m : JsString × Json) (f : JsString × MatchValue) : Prop :=
  m.1 = f.1 ∧ dialect.matchPathPattern f.1 = true ∧ matchValue m.2 = some f.2

/-- What the fields of a match are read from: an object of one to thirty-two members, each of which
reads. -/
theorem matchFields_iff {u : Json} {fs : List (JsString × MatchValue)} :
    matchFields dialect u = some fs ↔ ∃ p ms, u = .obj p ms ∧
      (1 ≤ ms.length ∧ ms.length ≤ 32) ∧ List.Forall₂ (FieldRead dialect) ms fs := by
  have hread : ∀ (m : JsString × Json) (f : JsString × MatchValue),
      (do guard (dialect.matchPathPattern m.1); return (m.1, ← matchValue m.2)) = some f ↔
        FieldRead dialect m f := by
    rintro ⟨key, v⟩ ⟨path, x⟩
    simp only [FieldRead, Option.bind_eq_bind, Option.bind_eq_some_iff, Option.pure_def,
      Option.some.injEq, Option.guard_eq_some', Prod.mk.injEq]
    constructor
    · rintro ⟨-, hpattern, x', hx', rfl, rfl⟩
      exact ⟨rfl, hpattern, hx'⟩
    · rintro ⟨rfl, hpattern, hx⟩
      exact ⟨⟨⟩, hpattern, x, hx, rfl, rfl⟩
  constructor
  · intro h
    cases u with
    | obj p ms =>
      simp only [matchFields, Option.ite_none_right_eq_some] at h
      refine ⟨p, ms, rfl, h.1, (mapM_some.1 h.2).imp fun m f => (hread m f).1⟩
    | _ => simp [matchFields] at h
  · rintro ⟨p, ms, rfl, hlen, hms⟩
    rw [matchFields, if_pos hlen]
    exact mapM_some.2 (hms.imp fun m f => (hread m f).2)

/-- The fields of a match determine their members, in their order. -/
theorem faithful_matchFields : Faithful (matchFields dialect) := by
  intro u v x hu hv
  obtain ⟨p, ms, rfl, -, hms⟩ := matchFields_iff.1 hu
  obtain ⟨q, ns, rfl, -, hns⟩ := matchFields_iff.1 hv
  refine .obj (rel_of_forall₂ (forall₂_meet (R := fun m n => m.1 = n.1 ∧ m.2.Same n.2) ?_ hms hns))
  rintro m n f ⟨hkey, -, hm⟩ ⟨hkey', -, hn⟩
  exact ⟨hkey.trans hkey'.symm, faithful_matchValue hm hn⟩

/-! ## Records -/

/-- What limits are read from: none but the seven members, and at least one of them. -/
theorem limits_iff {u : Json} {x : RuleLimits} : limits u = some x ↔ ∃ p ms, u = .obj p ms ∧
    (closed ms [js "maxPerTransaction", js "maxPerHour", js "maxPerDay",
      js "cooldownPerRecipientMs", js "maxCountPerHour", js "maxCountPerDay",
      js "maxCountPerRecipientPerHour"] = true ∧ 1 ≤ ms.length) ∧
    optional ms (js "maxPerTransaction") (text 1 64) = some x.maxPerTransaction ∧
    optional ms (js "maxPerHour") (text 1 64) = some x.maxPerHour ∧
    optional ms (js "maxPerDay") (text 1 64) = some x.maxPerDay ∧
    optional ms (js "cooldownPerRecipientMs") (integer 0 86400000) =
      some x.cooldownPerRecipientMs ∧
    optional ms (js "maxCountPerHour") (integer 1 1000000) = some x.maxCountPerHour ∧
    optional ms (js "maxCountPerDay") (integer 1 1000000) = some x.maxCountPerDay ∧
    optional ms (js "maxCountPerRecipientPerHour") (integer 1 1000000) =
      some x.maxCountPerRecipientPerHour := by
  constructor
  · intro h
    cases u with
    | obj p ms =>
      simp only [limits, Option.bind_eq_bind, Option.bind_eq_some_iff, Option.pure_def,
        Option.some.injEq, Option.guard_eq_some'] at h
      obtain ⟨-, hclosed, a, ha, b, hb, c, hc, d, hd, e, he, f, hf, g, hg, rfl⟩ := h
      exact ⟨p, ms, rfl, hclosed, ha, hb, hc, hd, he, hf, hg⟩
    | _ => simp [limits] at h
  · rintro ⟨p, ms, rfl, hclosed, ha, hb, hc, hd, he, hf, hg⟩
    simp [limits, guard, hclosed, ha, hb, hc, hd, he, hf, hg]

/-- What the arguments of a provider are read from; only the scope may be left out. -/
theorem providerArgs_iff {u : Json} {x : TableRowArgs} : providerArgs u = some x ↔
    ∃ p ms, u = .obj p ms ∧ closed ms [js "contract", js "scope", js "table", js "key"] = true ∧
      required ms (js "contract") (text 1 64) = some x.contract ∧
      optional ms (js "scope") (text 1 64) = some x.scope ∧
      required ms (js "table") (text 1 64) = some x.table ∧
      required ms (js "key") (text 1 64) = some x.key := by
  constructor
  · intro h
    cases u with
    | obj p ms =>
      simp only [providerArgs, Option.bind_eq_bind, Option.bind_eq_some_iff, Option.pure_def,
        Option.some.injEq, Option.guard_eq_some'] at h
      obtain ⟨-, hclosed, a, ha, b, hb, c, hc, d, hd, rfl⟩ := h
      exact ⟨p, ms, rfl, hclosed, ha, hb, hc, hd⟩
    | _ => simp [providerArgs] at h
  · rintro ⟨p, ms, rfl, hclosed, ha, hb, hc, hd⟩
    simp [providerArgs, guard, hclosed, ha, hb, hc, hd]

/-- What a provider is read from. Its namespace is the dialect's and leaves no trace of its own. -/
theorem provider_iff {u : Json} {x : TableRowProvider} : provider dialect u = some x ↔
    x.provider = dialect.providerNamespace ∧ ∃ p ms, u = .obj p ms ∧
      closed ms [js "provider", js "args", js "select", js "op", js "value"] = true ∧
      required ms (js "provider") (const dialect.providerNamespace) = some () ∧
      required ms (js "args") providerArgs = some x.args ∧
      required ms (js "select") (pattern dialect.selectFieldPattern) = some x.select ∧
      required ms (js "op") providerOp = some x.op ∧
      required ms (js "value") (text 1 256) = some x.value := by
  constructor
  · intro h
    cases u with
    | obj p ms =>
      simp only [provider, Option.bind_eq_bind, Option.bind_eq_some_iff, Option.pure_def,
        Option.some.injEq, Option.guard_eq_some'] at h
      obtain ⟨-, hclosed, _, ha, b, hb, c, hc, d, hd, e, he, rfl⟩ := h
      exact ⟨rfl, p, ms, rfl, hclosed, ha, hb, hc, hd, he⟩
    | _ => simp [provider] at h
  · rintro ⟨hname, p, ms, rfl, hclosed, ha, hb, hc, hd, he⟩
    obtain ⟨_, args, select, op, value⟩ := x
    subst hname
    simp [provider, guard, hclosed, ha, hb, hc, hd, he]

/-- What a rule is read from. -/
theorem rule_iff {u : Json} {x : PolicyRule} : rule dialect u = some x ↔ ∃ p ms, u = .obj p ms ∧
    closed ms [js "id", js "effect", js "match", js "limits", js "providers"] = true ∧
    required ms (js "id") (pattern ruleIdPattern) = some x.id ∧
    required ms (js "effect") effect = some x.effect ∧
    required ms (js "match") (matchFields dialect) = some x.matchOn ∧
    optional ms (js "limits") limits = some x.limits ∧
    optional ms (js "providers") (array 1 8 (provider dialect)) = some x.providers := by
  constructor
  · intro h
    cases u with
    | obj p ms =>
      simp only [rule, Option.bind_eq_bind, Option.bind_eq_some_iff, Option.pure_def,
        Option.some.injEq, Option.guard_eq_some'] at h
      obtain ⟨-, hclosed, a, ha, b, hb, c, hc, d, hd, e, he, rfl⟩ := h
      exact ⟨p, ms, rfl, hclosed, ha, hb, hc, hd, he⟩
    | _ => simp [rule] at h
  · rintro ⟨p, ms, rfl, hclosed, ha, hb, hc, hd, he⟩
    simp [rule, guard, hclosed, ha, hb, hc, hd, he]

/-- What the chain of a policy is read from. -/
theorem chain_iff {u : Json} {x : PolicyChain} : chain dialect u = some x ↔
    ∃ p ms, u = .obj p ms ∧ closed ms [js "name", js "chainId"] = true ∧
      required ms (js "name") (text 1 32) = some x.name ∧
      required ms (js "chainId") (pattern dialect.chainIdPattern) = some x.chainId := by
  constructor
  · intro h
    cases u with
    | obj p ms =>
      simp only [chain, Option.bind_eq_bind, Option.bind_eq_some_iff, Option.pure_def,
        Option.some.injEq, Option.guard_eq_some'] at h
      obtain ⟨-, hclosed, a, ha, b, hb, rfl⟩ := h
      exact ⟨p, ms, rfl, hclosed, ha, hb⟩
    | _ => simp [chain] at h
  · rintro ⟨p, ms, rfl, hclosed, ha, hb⟩
    simp [chain, guard, hclosed, ha, hb]

/-- An integer between one and one is one. -/
theorem required_one {n : ℕ} (h : required ms key (integer 1 1) = some n) : n = 1 := by
  rw [required, Option.bind_eq_some_iff] at h
  obtain ⟨w, -, hw⟩ := h
  cases w with
  | num y =>
    cases hy : y.toInt? with
    | none => simp [integer, hy] at hw
    | some i =>
      simp only [integer, hy, Option.ite_none_right_eq_some, Option.some.injEq] at hw
      omega
  | _ => simp [integer] at hw

/-- What a policy is read from. Version and default are constants, so only the other members remain
to be compared. -/
theorem policy_iff {u : Json} {x : Policy} : policy dialect u = some x ↔ ∃ p ms, u = .obj p ms ∧
    closed ms [js "schemaVersion", js "default", js "maxActionsPerTransaction", js "chain",
      js "rules"] = true ∧
    required ms (js "schemaVersion") (integer 1 1) = some 1 ∧
    required ms (js "default") (const (js "deny")) = some () ∧
    required ms (js "chain") (chain dialect) = some x.chain ∧
    required ms (js "rules") (array 0 256 (rule dialect)) = some x.rules ∧
    optional ms (js "maxActionsPerTransaction") (integer 1 64) =
      some x.maxActionsPerTransaction := by
  constructor
  · intro h
    cases u with
    | obj p ms =>
      simp only [policy, Option.bind_eq_bind, Option.bind_eq_some_iff, Option.pure_def,
        Option.some.injEq, Option.guard_eq_some'] at h
      obtain ⟨-, hclosed, n, hn, _, ha, b, hb, c, hc, d, hd, rfl⟩ := h
      have hone := required_one hn
      exact ⟨p, ms, rfl, hclosed, hone ▸ hn, ha, hb, hc, hd⟩
    | _ => simp [policy] at h
  · rintro ⟨p, ms, rfl, hclosed, hn, ha, hb, hc, hd⟩
    simp [policy, guard, hclosed, hn, ha, hb, hc, hd]

/-! ## Faithful records -/

/-- Limits determine the members they were read from, the absent ones included. -/
theorem faithful_limits : Faithful limits := by
  intro u v x hu hv
  obtain ⟨p, ms, rfl, hclosed, ha, hb, hc, hd, he, hf, hg⟩ := limits_iff.1 hu
  obtain ⟨q, ns, rfl, hclosed', ha', hb', hc', hd', he', hf', hg'⟩ := limits_iff.1 hv
  refine same_closed hclosed.1 hclosed'.1 fun k hk => ?_
  simp only [List.mem_cons, List.not_mem_nil, or_false] at hk
  rcases hk with rfl | rfl | rfl | rfl | rfl | rfl | rfl
  · exact rel_optional (faithful_text 1 64) ha ha'
  · exact rel_optional (faithful_text 1 64) hb hb'
  · exact rel_optional (faithful_text 1 64) hc hc'
  · exact rel_optional (faithful_integer 0 86400000) hd hd'
  · exact rel_optional (faithful_integer 1 1000000) he he'
  · exact rel_optional (faithful_integer 1 1000000) hf hf'
  · exact rel_optional (faithful_integer 1 1000000) hg hg'

/-- So do the arguments of a provider, -/
theorem faithful_providerArgs : Faithful providerArgs := by
  intro u v x hu hv
  obtain ⟨p, ms, rfl, hclosed, ha, hb, hc, hd⟩ := providerArgs_iff.1 hu
  obtain ⟨q, ns, rfl, hclosed', ha', hb', hc', hd'⟩ := providerArgs_iff.1 hv
  refine same_closed hclosed hclosed' fun k hk => ?_
  simp only [List.mem_cons, List.not_mem_nil, or_false] at hk
  rcases hk with rfl | rfl | rfl | rfl
  · exact rel_required (faithful_text 1 64) ha ha'
  · exact rel_optional (faithful_text 1 64) hb hb'
  · exact rel_required (faithful_text 1 64) hc hc'
  · exact rel_required (faithful_text 1 64) hd hd'

/-- a provider, -/
theorem faithful_provider : Faithful (provider dialect) := by
  intro u v x hu hv
  obtain ⟨-, p, ms, rfl, hclosed, ha, hb, hc, hd, he⟩ := provider_iff.1 hu
  obtain ⟨-, q, ns, rfl, hclosed', ha', hb', hc', hd', he'⟩ := provider_iff.1 hv
  refine same_closed hclosed hclosed' fun k hk => ?_
  simp only [List.mem_cons, List.not_mem_nil, or_false] at hk
  rcases hk with rfl | rfl | rfl | rfl | rfl
  · exact rel_required (faithful_const _) ha ha'
  · exact rel_required faithful_providerArgs hb hb'
  · exact rel_required (faithful_pattern _) hc hc'
  · exact rel_required faithful_providerOp hd hd'
  · exact rel_required (faithful_text 1 256) he he'

/-- a rule -/
theorem faithful_rule : Faithful (rule dialect) := by
  intro u v x hu hv
  obtain ⟨p, ms, rfl, hclosed, ha, hb, hc, hd, he⟩ := rule_iff.1 hu
  obtain ⟨q, ns, rfl, hclosed', ha', hb', hc', hd', he'⟩ := rule_iff.1 hv
  refine same_closed hclosed hclosed' fun k hk => ?_
  simp only [List.mem_cons, List.not_mem_nil, or_false] at hk
  rcases hk with rfl | rfl | rfl | rfl | rfl
  · exact rel_required (faithful_pattern _) ha ha'
  · exact rel_required faithful_effect hb hb'
  · exact rel_required faithful_matchFields hc hc'
  · exact rel_optional faithful_limits hd hd'
  · exact rel_optional (faithful_array faithful_provider 1 8) he he'

/-- and the chain of a policy. -/
theorem faithful_chain : Faithful (chain dialect) := by
  intro u v x hu hv
  obtain ⟨p, ms, rfl, hclosed, ha, hb⟩ := chain_iff.1 hu
  obtain ⟨q, ns, rfl, hclosed', ha', hb'⟩ := chain_iff.1 hv
  refine same_closed hclosed hclosed' fun k hk => ?_
  simp only [List.mem_cons, List.not_mem_nil, or_false] at hk
  rcases hk with rfl | rfl
  · exact rel_required (faithful_text 1 32) ha ha'
  · exact rel_required (faithful_pattern _) hb hb'

/-- **The policy schema is faithful**: two documents that validate to one policy are the same up to
the order of their members. The two members it does not return are constants. -/
theorem faithful_policy : Faithful (policy dialect) := by
  intro u v x hu hv
  obtain ⟨p, ms, rfl, hclosed, ha, hb, hc, hd, he⟩ := policy_iff.1 hu
  obtain ⟨q, ns, rfl, hclosed', ha', hb', hc', hd', he'⟩ := policy_iff.1 hv
  refine same_closed hclosed hclosed' fun k hk => ?_
  simp only [List.mem_cons, List.not_mem_nil, or_false] at hk
  rcases hk with rfl | rfl | rfl | rfl | rfl
  · exact rel_required (faithful_integer 1 1) ha ha'
  · exact rel_required (faithful_const _) hb hb'
  · exact rel_optional (faithful_integer 1 64) he he'
  · exact rel_required faithful_chain hc hc'
  · exact rel_required (faithful_array faithful_rule 0 256) hd hd'

end Schema

end Signbox
