import Signbox.Proof.Accepted
import Signbox.Proof.Authoring
import Signbox.Proof.WellFormed

/-!
# What the daemon reads of a node

The schema of a policy bounds every text, and the editor puts free text into it. For each thing a
node contributes to a rule, what the schema makes of it.

* `CountLoads`, `LimitsLoad`, `limitsLoad_iff`: the numbers and the limits of a decision.
* `setPath`, `operand`, `OperandLoads`: the entry of `match` that a condition sets.
* `rowOf`, `RowLoads`: the table row that a Contains requires.
-/

namespace Signbox

open Schema Guard

/-! ## Texts and numbers -/

/-- A text of `lo` to `hi` characters, counted as the schema counts them. -/
def Sized (lo hi : ℕ) (s : JsString) : Prop := lo ≤ ucs2length s ∧ ucs2length s ≤ hi

/-- A text that is not empty has a length of at least one. -/
theorem one_le_ucs2length {s : JsString} (h : s ≠ []) : 1 ≤ ucs2length s := by
  cases s with
  | nil => exact absurd rfl h
  | cons u us =>
    cases us with
    | nil => exact le_rfl
    | cons v us =>
      rw [ucs2length]
      split <;> omega

/-- A text that `parseInt(s, 10) || 1` makes a number of up to `hi` of. One without digits counts
as one. -/
def CountLoads (hi : ℕ) (s : JsString) : Prop :=
  parseInt s = .nan ∨ ∃ n : ℕ, n ≤ hi ∧ parseInt s = .finite n

/-- An integer field accepts the integers of its range. -/
theorem accepts_integer {lo hi : ℕ} {x : JsNumber} : Accepts (integer lo hi) (.num x) ↔
    ∃ n : ℕ, x.toInt? = some (n : ℤ) ∧ lo ≤ n ∧ n ≤ hi := by
  unfold Accepts integer
  simp only
  cases hint : x.toInt? with
  | none => simp
  | some i =>
    constructor
    · rintro ⟨m, hm⟩
      simp only at hm
      split at hm
      · next hbounds =>
        obtain ⟨n, rfl⟩ := Int.eq_ofNat_of_zero_le (show 0 ≤ i by omega)
        exact ⟨n, rfl, by omega, by omega⟩
      · cases hm
    · rintro ⟨n, hn, hlo, hhi⟩
      have hbounds : (lo : ℤ) ≤ i ∧ i ≤ (hi : ℤ) := by
        rw [Option.some.inj hn]
        omega
      exact ⟨i.toNat, if_pos hbounds⟩

/-- What is parsed as an integer is a double, exactly. -/
theorem parseInt_exact {s : JsString} {x : ℚ} (h : parseInt s = .finite x) : Double.Exact x := by
  unfold parseInt at h
  simp only at h
  split at h
  · cases h
  · exact Double.exact_nearest h

/-- A count parsed from its text is accepted exactly when the text stands for one in range. -/
theorem accepts_parseCount {hi : ℕ} {s : JsString} (hone : 1 ≤ hi) (hmax : hi ≤ 2 ^ 53) :
    Accepts (integer 1 hi) (.num (parseCount s)) ↔ CountLoads hi s := by
  have hofNat : Accepts (integer 1 hi) (.num (.finite (.ofNat 1))) :=
    accepts_integer.2 ⟨1, by rw [ofNat_eq_ofParts, ofParts_toInt], le_rfl, hone⟩
  unfold parseCount CountLoads
  cases hparse : parseInt s with
  | nan => exact iff_of_true hofNat (Or.inl rfl)
  | infinite neg =>
    -- an infinite count is no integer
    refine iff_of_false ?_ ?_
    · rw [accepts_integer]
      rintro ⟨n, hn, -⟩
      cases hn
    · rintro (h | ⟨n, -, h⟩) <;> cases h
  | finite x =>
    have hexact : Double.Exact x := parseInt_exact hparse
    simp only [reduceCtorEq, false_or, Double.finite.injEq]
    -- `0 || 1` is `1`
    by_cases hzero : x = 0
    · rw [if_pos hzero]
      exact iff_of_true hofNat ⟨0, Nat.zero_le hi, by rw [hzero, Nat.cast_zero]⟩
    · rw [if_neg hzero, accepts_integer]
      constructor
      · rintro ⟨n, hn, hlo, hle⟩
        exact ⟨n, hle, (toDecimal_toInt? hexact (by omega) (Or.inr hlo)).1 hn⟩
      · rintro ⟨n, hle, hx⟩
        have hpos : 1 ≤ n := by
          rw [Nat.one_le_iff_ne_zero]
          rintro rfl
          exact hzero (by rw [hx, Nat.cast_zero])
        exact ⟨n, (toDecimal_toInt? hexact (by omega) (Or.inr hpos)).2 hx, hpos, hle⟩

/-! ## Limits -/

/-- **The limit fields of a decision that load**: a cap that is an asset, a cooldown of up to a
day, and a count of up to a million. A field that is empty is no limit. -/
structure LimitsLoad (f : Fields) : Prop where
  cap : ∀ v, f.truthy (js "maxPerTx") = some v →
    ∃ s a, v = .str s ∧ ucs2length s ≤ 64 ∧ parseAsset s = .ok a
  cooldown : (parseFloat (f.textOrEmpty (js "cooldownH"))).isPositive = true →
    ∃ n : ℕ, n ≤ 86400000 ∧
      ((parseFloat (f.textOrEmpty (js "cooldownH"))).mul (.finite 3600000)).round = .finite n
  count : f.textOrEmpty (js "rlCount") ≠ [] → CountLoads 1000000 (f.textOrEmpty (js "rlCount"))

variable {f : Fields}

/-- A truthy text is not empty. -/
theorem truthy_str {key : JsString} {s : JsString} (h : f.truthy key = some (.str s)) : s ≠ [] := by
  rintro rfl
  unfold Fields.truthy at h
  split at h <;> cases h

/-- The product of a positive number of hours, as a number of the document. -/
theorem accepts_cooldown {hours : Double} (hpos : hours.isPositive = true) :
    ∃ ms, (hours.mul (.finite 3600000)).round.toNumber = some ms ∧
      (Accepts (integer 0 86400000) (.num ms) ↔
        ∃ n : ℕ, n ≤ 86400000 ∧ (hours.mul (.finite 3600000)).round = .finite n) := by
  cases hours with
  | nan => cases hpos
  | infinite neg =>
    have hround : ((Double.infinite neg).mul (.finite 3600000)).round = .infinite neg := by
      have hfactor : (Double.finite 3600000).isPositive = true := by decide
      rw [Double.mul, if_pos hfactor, Double.round]
      exact fun h => by cases h
    rw [hround]
    refine ⟨_, rfl, iff_of_false ?_ ?_⟩
    · rw [accepts_integer]
      rintro ⟨n, hn, -⟩
      cases hn
    · rintro ⟨n, -, h⟩
      cases h
  | finite x =>
    have hx : 0 < x := of_decide_eq_true hpos
    rw [Double.mul]
    cases hprod : Double.nearest (x * 3600000) with
    | nan =>
      unfold Double.nearest at hprod
      simp only at hprod
      split at hprod <;> cases hprod
    | infinite neg =>
      -- the product overflows
      refine ⟨_, rfl, iff_of_false ?_ ?_⟩
      · rw [accepts_integer]
        rintro ⟨n, hn, -⟩
        cases hn
      · rintro ⟨n, -, h⟩
        cases h
    | finite y =>
      have hy : 0 ≤ y := Double.nearest_nonneg (by linarith) hprod
      have hexact : Double.Exact (⌊y + 1 / 2⌋ : ℤ) := (Double.exact_nearest hprod).round hy
      have hsign : (0 : ℚ) ≤ (⌊y + 1 / 2⌋ : ℤ) := by
        exact_mod_cast Int.floor_nonneg.2 (by linarith)
      refine ⟨_, rfl, ?_⟩
      rw [accepts_integer]
      simp only [Double.round, Double.finite.injEq]
      constructor
      · rintro ⟨n, hn, -, hle⟩
        exact ⟨n, hle, (toDecimal_toInt? hexact (by omega) (Or.inl hsign)).1 hn⟩
      · rintro ⟨n, hle, hn⟩
        exact ⟨n, (toDecimal_toInt? hexact (by omega) (Or.inl hsign)).2 hn, Nat.zero_le n, hle⟩

/-- The member the count of a decision is written to. -/
def countName (f : Fields) : JsString :=
  if f.isTrue (js "rlPerRecipient") then js "maxCountPerRecipientPerHour"
  else if f.isText (js "rlPeriod") (js "day") then js "maxCountPerDay"
  else js "maxCountPerHour"

/-- The name under which a count is compiled is one the schema knows. -/
theorem countName_mem : countName f ∈ countKeys := by
  unfold countName
  split_ifs <;> decide

/-- The limits that are compiled, member by member: each is there only if its field says
something. -/
theorem mem_compileLimits {m : JsString × Json} : m ∈ compileLimits f ↔
    (∃ v, f.truthy (js "maxPerTx") = some v ∧ m = (js "maxPerTransaction", v.toJson)) ∨
    ((parseFloat (f.textOrEmpty (js "cooldownH"))).isPositive = true ∧
      ∃ ms, ((parseFloat (f.textOrEmpty (js "cooldownH"))).mul (.finite 3600000)).round.toNumber =
        some ms ∧ m = (js "cooldownPerRecipientMs", .num ms)) ∨
    f.textOrEmpty (js "rlCount") ≠ [] ∧
      m = (countName f, .num (parseCount (f.textOrEmpty (js "rlCount")))) := by
  have hcap : m ∈ ((f.truthy (js "maxPerTx")).map fun v =>
      (js "maxPerTransaction", v.toJson)).toList ↔
        ∃ v, f.truthy (js "maxPerTx") = some v ∧ m = (js "maxPerTransaction", v.toJson) := by
    rw [Option.mem_toList, Option.map_eq_some_iff]
    exact exists_congr fun v => and_congr_right fun _ => eq_comm
  unfold compileLimits
  simp only [List.mem_append, hcap, or_assoc]
  refine or_congr_right (or_congr ?_ ?_)
  · by_cases hpos : (parseFloat (f.textOrEmpty (js "cooldownH"))).isPositive = true
    · rw [if_pos hpos, Option.mem_toList, Option.map_eq_some_iff, and_iff_right hpos]
      exact exists_congr fun ms => and_congr_right fun _ => eq_comm
    · rw [if_neg hpos]
      exact iff_of_false List.not_mem_nil fun h => hpos h.1
  · by_cases hraw : f.textOrEmpty (js "rlCount") = []
    · rw [if_pos hraw]
      exact iff_of_false List.not_mem_nil fun h => h.1 hraw
    · rw [if_neg hraw, and_iff_right hraw, List.mem_singleton]
      rfl

/-- Their keys stand in a fixed order, -/
theorem compileLimits_keys :
    ((compileLimits f).map Prod.fst).Sublist
      [js "maxPerTransaction", js "cooldownPerRecipientMs", countName f] := by
  have hcap : (((f.truthy (js "maxPerTx")).map fun v =>
      (js "maxPerTransaction", v.toJson)).toList.map Prod.fst).Sublist
        [js "maxPerTransaction"] := by
    cases f.truthy (js "maxPerTx") with
    | none => exact List.nil_sublist _
    | some v => exact List.Sublist.refl _
  have hcooldown : ((if (parseFloat (f.textOrEmpty (js "cooldownH"))).isPositive then
      (((parseFloat (f.textOrEmpty (js "cooldownH"))).mul (.finite 3600000)).round.toNumber.map
        fun ms => (js "cooldownPerRecipientMs", Json.num ms)).toList else []).map Prod.fst).Sublist
          [js "cooldownPerRecipientMs"] := by
    split
    · cases ((parseFloat (f.textOrEmpty (js "cooldownH"))).mul (.finite 3600000)).round.toNumber with
      | none => exact List.nil_sublist _
      | some ms => exact List.Sublist.refl _
    · exact List.nil_sublist _
  have hcount : ((if f.textOrEmpty (js "rlCount") = [] then []
      else [(countName f, Json.num (parseCount (f.textOrEmpty (js "rlCount"))))]).map
        Prod.fst).Sublist [countName f] := by
    split
    · exact List.nil_sublist _
    · exact List.Sublist.refl _
  have happend := (hcap.append hcooldown).append hcount
  rw [← List.map_append, ← List.map_append] at happend
  exact happend

/-- so no key comes twice. -/
theorem compileLimits_nodup : ((compileLimits f).map Prod.fst).Nodup := by
  refine compileLimits_keys.nodup ?_
  have hkey : countName f ∈ countKeys := countName_mem
  generalize countName f = key at hkey
  revert key
  decide

/-- The compiled limits parse exactly when the cap is an asset. -/
theorem parses_compileLimits : Schema.Parses (compileLimits f) ↔
    ∀ s, f.truthy (js "maxPerTx") = some (.str s) → ∃ a, parseAsset s = .ok a := by
  have hlook : ∀ key s, (compileLimits f).lookup key = some (.str s) ↔
      key = js "maxPerTransaction" ∧ f.truthy (js "maxPerTx") = some (.str s) := by
    intro key s
    rw [lookup_iff_mem compileLimits_nodup, mem_compileLimits]
    constructor
    · rintro (⟨v, hv, heq⟩ | ⟨-, ms, -, heq⟩ | ⟨-, heq⟩)
      · rw [Prod.mk.injEq] at heq
        cases v with
        | str t =>
          rw [Json.str.inj heq.2]
          exact ⟨heq.1, hv⟩
        | bool b => cases heq.2
      · cases (Prod.mk.inj heq).2
      · cases (Prod.mk.inj heq).2
    · rintro ⟨rfl, hv⟩
      exact Or.inl ⟨_, hv, rfl⟩
  unfold Schema.Parses
  constructor
  · intro h s hs
    exact h _ (by decide) s ((hlook _ s).2 ⟨rfl, hs⟩)
  · intro h key _ s hs
    exact h s ((hlook key s).1 hs).2

/-- **When the limits of a decision load**: every member that is compiled is accepted, and a cap
that is set is an asset. -/
theorem limitsLoad_iff : (∀ m ∈ compileLimits f, LimitMember m) ∧ Schema.Parses (compileLimits f) ↔
    LimitsLoad f := by
  rw [parses_compileLimits]
  constructor
  · rintro ⟨hmembers, hparses⟩
    refine ⟨fun v hv => ?_, fun hpos => ?_, fun hraw => ?_⟩
    · have hmember := hmembers _ (mem_compileLimits.2 (Or.inl ⟨v, hv, rfl⟩))
      rw [limitMember_asset (by decide)] at hmember
      cases v with
      | str s =>
        obtain ⟨a, ha⟩ := hparses s hv
        exact ⟨s, a, rfl, (accepts_text.1 hmember).2, ha⟩
      | bool b =>
        obtain ⟨t, ht⟩ := hmember
        cases ht
    · obtain ⟨ms, hms, hiff⟩ := accepts_cooldown hpos
      exact hiff.1 (limitMember_cooldown.1
        (hmembers _ (mem_compileLimits.2 (Or.inr (Or.inl ⟨hpos, ms, hms, rfl⟩)))))
    · have hmember := hmembers _ (mem_compileLimits.2 (Or.inr (Or.inr ⟨hraw, rfl⟩)))
      rw [limitMember_count countName_mem] at hmember
      exact (accepts_parseCount (by norm_num) (by norm_num)).1 hmember
  · intro h
    refine ⟨fun m hm => ?_, fun s hs => ?_⟩
    · rcases mem_compileLimits.1 hm with ⟨v, hv, rfl⟩ | ⟨hpos, ms, hms, rfl⟩ | ⟨hraw, rfl⟩
      · obtain ⟨s, a, rfl, hlen, -⟩ := h.cap v hv
        rw [limitMember_asset (by decide)]
        exact accepts_text.2 ⟨one_le_ucs2length (truthy_str hv), hlen⟩
      · obtain ⟨ms', hms', hiff⟩ := accepts_cooldown hpos
        rw [limitMember_cooldown, Option.some.inj (hms.symm.trans hms')]
        exact hiff.2 (h.cooldown hpos)
      · rw [limitMember_count countName_mem]
        exact (accepts_parseCount (by norm_num) (by norm_num)).2 (h.count hraw)
    · obtain ⟨t, a, heq, -, ha⟩ := h.cap _ hs
      rw [FieldValue.str.inj heq]
      exact ⟨a, ha⟩

/-! ## Match -/

section
variable (nodes : List GraphNode) (wires : List Wire)

/-- The match path that a node sets: its Get Field's, if the node has a bounded form and the path
is one of the vocabulary. -/
def setPath (n : GraphNode) : Option JsString :=
  let path := ((fieldSource nodes wires n).map fun src => src.fields.text (js "path")).filter
    MATCH_PATH_PATTERN
  match n.type with
  | .compare => if n.fields.text (js "op") ∈ boundedOps then path else none
  | .inlist => path
  | _ => none

end

/-- What a node sets its path to: a text for an equality, and an object with its operator for
anything else. -/
def operand (n : GraphNode) : Json :=
  match n.type with
  | .compare =>
    let op := n.fields.text (js "op")
    let value := Json.str (n.fields.text (js "value"))
    if op = js "eq" then value else .obj .ordinary [(op, value)]
  | _ =>
    .obj .ordinary [(if n.fields.isText (js "mode") (js "notin") then js "notIn" else js "in",
      .arr ((listOf (n.fields.text (js "list"))).map .str))]

/-- **A condition that loads**: a value of the length its operator takes, or a list that is
neither empty nor too long. -/
def OperandLoads (n : GraphNode) : Prop :=
  match n.type with
  | .compare =>
    Sized 1 (if n.fields.text (js "op") = js "eq" then 256 else 64) (n.fields.text (js "value"))
  | _ =>
    (1 ≤ (listOf (n.fields.text (js "list"))).length ∧
      (listOf (n.fields.text (js "list"))).length ≤ 256) ∧
        ∀ s ∈ listOf (n.fields.text (js "list")), ucs2length s ≤ 256

variable {nodes : List GraphNode} {wires : List Wire} {n : GraphNode} {path : JsString}

/-- A path that is set has the form of a path. -/
theorem setPath_pattern (h : setPath nodes wires n = some path) :
    MATCH_PATH_PATTERN path = true := by
  unfold setPath at h
  simp only at h
  split at h
  · split at h
    · exact (Option.filter_eq_some_iff.1 h).2
    · cases h
  · exact (Option.filter_eq_some_iff.1 h).2
  · cases h

/-- A node compiles to a match on a field exactly when it sets a path. -/
theorem compileNode_eq_field {v : Json} : compileNode nodes wires n = .field path v ↔
    setPath nodes wires n = some path ∧ operand n = v := by
  unfold compileNode setPath operand
  cases htype : n.type
  case compare =>
    cases hsrc : fieldSource nodes wires n with
    | none => simp [compileCompare, hsrc]
    | some src =>
      simp only [compileCompare, hsrc, Option.map_some, Option.filter_some, boundedOps,
        List.mem_cons, List.not_mem_nil, or_false]
      cases hpath : MATCH_PATH_PATTERN (src.fields.text (js "path")) with
      | false => simp
      | true =>
        simp only [not_true_eq_false, if_false, if_true]
        split_ifs with heq hlte hgte <;> simp_all
  case inlist =>
    cases hsrc : fieldSource nodes wires n with
    | none => simp [compileInList, hsrc]
    | some src =>
      simp only [compileInList, hsrc, Option.map_some, Option.filter_some]
      cases hpath : MATCH_PATH_PATTERN (src.fields.text (js "path")) with
      | false => simp
      | true =>
        simp only [not_true_eq_false, if_false, if_true, Option.some.injEq]
        split_ifs <;> simp
  case contains =>
    cases hgf : fieldSource nodes wires n with
    | none => simp [compileContains, hgf]
    | some gf =>
      cases hlk : lookupSource nodes wires gf with
      | none => simp [compileContains, hgf, hlk]
      | some lk =>
        simp only [compileContains, hgf, hlk]
        split_ifs <;> simp
  all_goals simp

/-- The entries of a list are never empty texts. -/
theorem listOf_ne_nil {s t : JsString} (h : s ∈ listOf t) : s ≠ [] := by
  unfold listOf at h
  exact of_decide_eq_true (List.mem_filter.1 h).2

/-- What is done with a value after it is read does not matter for acceptance. -/
theorem accepts_map {α β : Type} {f : Json → Option α} {g : α → β} {v : Json} :
    Accepts (fun v => (f v).map g) v ↔ Accepts f v := by
  constructor
  · rintro ⟨x, hx⟩
    obtain ⟨y, hy, -⟩ := Option.map_eq_some_iff.1 hx
    exact ⟨y, hy⟩
  · rintro ⟨y, hy⟩
    exact ⟨g y, Option.map_eq_some_iff.2 ⟨y, hy, rfl⟩⟩

/-- A literal is accepted within its size, -/
theorem accepts_lit {t : JsString} : Accepts matchValue (.str t) ↔ Sized 1 256 t :=
  (accepts_map (f := text 1 256) (g := MatchValue.lit)).trans accepts_text

/-- a bound within a smaller one, -/
theorem accepts_bound {p : Proto} {op t : JsString} (hop : op = js "lte" ∨ op = js "gte") :
    Accepts matchValue (.obj p [(op, .str t)]) ↔ Sized 1 64 t := by
  rcases hop with rfl | rfl
  · exact (accepts_map (f := text 1 64) (g := MatchValue.lte)).trans accepts_text
  · exact (accepts_map (f := text 1 64) (g := MatchValue.gte)).trans accepts_text

/-- and a list when it and its entries are in size. -/
theorem accepts_list {p : Proto} {key : JsString} {ss : List JsString}
    (hkey : key = js "in" ∨ key = js "notIn") :
    Accepts matchValue (.obj p [(key, .arr (ss.map .str))]) ↔
      (1 ≤ ss.length ∧ ss.length ≤ 256) ∧ ∀ s ∈ ss, Sized 1 256 s := by
  rcases hkey with rfl | rfl
  · exact (accepts_map (f := array 1 256 (text 1 256)) (g := MatchValue.isIn)).trans accepts_texts
  · exact (accepts_map (f := array 1 256 (text 1 256)) (g := MatchValue.notIn)).trans accepts_texts

/-- So the operand of a node is accepted exactly when its text is in size. -/
theorem accepts_operand (h : setPath nodes wires n = some path) :
    Accepts matchValue (operand n) ↔ OperandLoads n := by
  unfold setPath at h
  unfold operand OperandLoads
  cases htype : n.type
  case compare =>
    simp only [htype] at h ⊢
    split at h
    · next hop =>
      -- `eq` sets the bare value, the two bounds an object
      by_cases heq : n.fields.text (js "op") = js "eq"
      · rw [if_pos heq, if_pos heq]
        exact accepts_lit
      · rw [if_neg heq, if_neg heq]
        simp only [boundedOps, List.mem_cons, List.not_mem_nil, or_false, heq, false_or] at hop
        exact accepts_bound hop
    · cases h
  case inlist =>
    have hkey : ∀ b : Bool, (if b = true then js "notIn" else js "in") = js "in" ∨
        (if b = true then js "notIn" else js "in") = js "notIn" := by
      intro b
      cases b with
      | true => exact Or.inr rfl
      | false => exact Or.inl rfl
    simp only
    rw [accepts_list (hkey _)]
    exact and_congr_right fun _ => forall₂_congr fun s hs =>
      and_iff_right (one_le_ucs2length (listOf_ne_nil hs))
  all_goals simp [htype] at h

/-! ## Rows -/

section
variable (nodes : List GraphNode) (wires : List Wire)

/-- The Get Field and the Lookup that a Contains reads. -/
def rowOf (n : GraphNode) : Option (GraphNode × GraphNode) :=
  match n.type with
  | .contains => (fieldSource nodes wires n).bind fun gf =>
      (lookupSource nodes wires gf).map fun lk => (gf, lk)
  | _ => none

/-- **A table row that loads**: the texts of the Lookup and of the Contains are neither empty nor
too long. -/
def RowLoads (n : GraphNode) : Prop :=
  ∀ row, rowOf nodes wires n = some row →
    (∀ key ∈ [js "contract", js "table", js "key"], Sized 1 64 (row.2.fields.text key)) ∧
      Sized 1 256 (n.fields.text (js "value"))

end

/-- The requirement of a row. -/
def rowProvider (n : GraphNode) (row : GraphNode × GraphNode) : Json :=
  tableRowProvider row.2 n (row.1.fields.text (js "path"))

/-- The entry of `match` that a clause writes. -/
def Clause.entry : Clause → Option (JsString × Json)
  | .field path value => some (path, value)
  | _ => none

/-- The provider a clause adds. -/
def Clause.row : Clause → Option Json
  | .provider p => some p
  | _ => none

/-- The match of a draft is what its clauses set, the last one winning. -/
theorem foldl_add_matchOn (cs : List Clause) (d : Draft) : (cs.foldl Draft.add d).matchOn =
    (cs.filterMap Clause.entry).foldl (fun acc m => mapSet m.1 m.2 acc) d.matchOn := by
  induction cs generalizing d with
  | nil => rfl
  | cons c cs ih =>
    rw [List.foldl_cons, ih, List.filterMap_cons]
    cases c <;> rfl

/-- The providers of a draft are those of its clauses, in order. -/
theorem foldl_add_providers (cs : List Clause) (d : Draft) : (cs.foldl Draft.add d).providers =
    d.providers ++ cs.filterMap Clause.row := by
  induction cs generalizing d with
  | nil => simp
  | cons c cs ih =>
    rw [List.foldl_cons, ih, List.filterMap_cons]
    cases c <;> simp [Draft.add, Clause.row]

/-- A node's own entry in the match. -/
theorem compileNode_entry : (compileNode nodes wires n).entry =
    (setPath nodes wires n).map fun path => (path, operand n) := by
  cases hpath : setPath nodes wires n with
  | some path => rw [compileNode_eq_field.2 ⟨hpath, rfl⟩, Clause.entry, Option.map_some]
  | none =>
    rw [Option.map_none]
    cases hclause : compileNode nodes wires n with
    | field path v =>
      rw [(compileNode_eq_field.1 hclause).1] at hpath
      cases hpath
    | _ => rfl

/-- A row that no node rejects is required, and its field is one the daemon selects. -/
theorem compileNode_row (h : ¬ Rejects nodes wires n) : (compileNode nodes wires n).row =
      (rowOf nodes wires n).map (rowProvider n) ∧
    ∀ row, rowOf nodes wires n = some row →
      SELECT_FIELD_PATTERN (row.1.fields.text (js "path")) = true := by
  unfold compileNode rowOf
  unfold Rejects at h
  cases htype : n.type
  case contains =>
    simp only [htype] at h ⊢
    cases hgf : fieldSource nodes wires n with
    | none => simp [compileContains, hgf, Clause.row]
    | some gf =>
      cases hlk : lookupSource nodes wires gf with
      | none => simp [compileContains, hgf, hlk, Clause.row]
      | some lk =>
        -- the row is required where nothing about it is rejected
        have haccepted : lk.fields.isText (js "mode") (js "http") = false ∧
            SELECT_FIELD_PATTERN (gf.fields.text (js "path")) = true := by
          have hrow : ¬ (!lk.fields.isText (js "mode") (js "http") &&
              SELECT_FIELD_PATTERN (gf.fields.text (js "path"))) = false :=
            fun hrow => h ⟨gf, lk, hgf, hlk, hrow⟩
          simpa using hrow
        simp [compileContains, hgf, hlk, haccepted, Clause.row, rowProvider]
  case compare =>
    simp only [Option.map_none]
    unfold compileCompare
    refine ⟨?_, by simp⟩
    split
    · rfl
    · simp only
      split_ifs <;> rfl
  case inlist =>
    simp only [Option.map_none]
    unfold compileInList
    refine ⟨?_, by simp⟩
    split
    · rfl
    · simp only
      split_ifs <;> rfl
  all_goals simp [Clause.row]

variable {d : GraphNode}

/-- A draft collects the clauses of all nodes above the decision. -/
theorem draftOf_clauses : draftOf nodes wires d =
    ((coneOf nodes wires d.id).map (compileNode nodes wires)).foldl Draft.add
      ⟨routeMatch (routeOf nodes wires d.id), [], [], false⟩ := by
  rw [draftOf, List.foldl_map]

/-- So its match is the route and then the paths that these nodes set, -/
theorem draftOf_matchOn : (draftOf nodes wires d).matchOn =
    ((coneOf nodes wires d.id).filterMap fun n =>
      (setPath nodes wires n).map fun path => (path, operand n)).foldl
        (fun acc m => mapSet m.1 m.2 acc) (routeMatch (routeOf nodes wires d.id)) := by
  have hentry : (Clause.entry ∘ compileNode nodes wires) = fun n =>
      (setPath nodes wires n).map fun path => (path, operand n) := by
    funext n
    exact compileNode_entry
  rw [draftOf_clauses, foldl_add_matchOn, List.filterMap_map, hentry]

/-- and its providers are the rows they ask for, if no node is rejected. -/
theorem draftOf_providers (h : ∀ n ∈ coneOf nodes wires d.id, ¬ Rejects nodes wires n) :
    (draftOf nodes wires d).providers = (coneOf nodes wires d.id).filterMap fun n =>
      (rowOf nodes wires n).map (rowProvider n) := by
  rw [draftOf_clauses, foldl_add_providers, List.filterMap_map, List.nil_append]
  exact List.filterMap_congr fun n hn => (compileNode_row (h n hn)).1

end Signbox
