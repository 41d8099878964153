import Signbox.Guard.ShortCircuit
import Signbox.Spec.Policy

/-!
# What a validated policy guarantees

`Policy.Valid` is what `validatePolicy` adds to the schema: rule ids are distinct, a
deny rule declares no limits, and every limit asset parses in the policy's dialect.
`validateRules_ok` says that the validator accepts exactly these rule lists.
-/

namespace Signbox

open Guard

/-- A rule's limits are fit for evaluation: none on a deny rule, and every bound parses. -/
structure PolicyRule.Valid (dialect : PolicyDialect) (r : PolicyRule) : Prop where
  denyUnlimited : r.effect = .deny → r.limits = none
  parses : ∀ l, r.limits = some l → ∀ f ∈ l.assets, ∀ raw, f.2 = some raw →
    ∃ a, dialect.parseAssetLimit raw = .ok a

structure Policy.Valid (dialect : PolicyDialect) (p : Policy) : Prop where
  ids : (p.rules.map PolicyRule.id).Nodup
  rules : ∀ r ∈ p.rules, r.Valid dialect

theorem validateLimit_ok {dialect : PolicyDialect} {r : PolicyRule}
    {f : JsString × Option JsString} : validateLimit dialect r f = .ok () ↔
      ∀ raw, f.2 = some raw → ∃ a, dialect.parseAssetLimit raw = .ok a := by
  unfold validateLimit
  cases hf : f.2 with
  | none => simp
  | some raw =>
    cases hp : dialect.parseAssetLimit raw with
    | error e => simp [hp]
    | ok a => simp [hp]

theorem validateRule_ok {dialect : PolicyDialect} {seen : List JsString} {r : PolicyRule} :
    validateRule dialect seen r = .ok () ↔ r.id ∉ seen ∧ r.Valid dialect := by
  unfold validateRule
  by_cases hseen : r.id ∈ seen
  · simp [hseen]
  by_cases hdeny : r.effect = .deny ∧ r.limits.isSome
  · simp only [hseen, hdeny, List.contains_eq_mem, decide_false, not_false_eq_true, true_and]
    constructor
    · intro h
      simp at h
    · intro h
      have := h.denyUnlimited hdeny.1
      simp [this] at hdeny
  · simp only [hseen, hdeny, List.contains_eq_mem, decide_false, not_false_eq_true, true_and]
    cases hl : r.limits with
    | none =>
      exact ⟨fun _ => ⟨fun _ => hl, by simp [hl]⟩, fun _ => by simp⟩
    | some l =>
      have hallow : r.effect ≠ .deny := by simpa [hl] using hdeny
      have hparse : forM l.assets (validateLimit dialect r) = .ok () ↔ r.Valid dialect := by
        rw [forM_ok]
        constructor
        · intro h
          refine ⟨fun hd => absurd hd hallow, ?_⟩
          intro l' hl' f hf raw hraw
          rw [hl, Option.some.injEq] at hl'
          subst hl'
          exact validateLimit_ok.1 (h f hf) raw hraw
        · intro h f hf
          exact validateLimit_ok.2 fun raw hraw => h.parses l hl f hf raw hraw
      simpa using hparse

/-- The validator accepts a rule list exactly when its ids are new and distinct and its
rules are valid. -/
theorem validateRules_ok {dialect : PolicyDialect} {rules : List PolicyRule} :
    ∀ {seen : List JsString}, validateRules dialect seen rules = .ok () ↔
      (rules.map PolicyRule.id).Nodup ∧ (∀ r ∈ rules, r.id ∉ seen) ∧
        ∀ r ∈ rules, r.Valid dialect := by
  induction rules with
  | nil => intro seen; simp [validateRules]
  | cons r rules ih =>
    intro seen
    rw [validateRules, bind_ok]
    constructor
    · rintro ⟨⟨⟩, hr, hrest⟩
      obtain ⟨hnew, hv⟩ := validateRule_ok.1 hr
      obtain ⟨hnd, hseen, hvs⟩ := ih.1 hrest
      refine ⟨?_, ?_, ?_⟩
      · rw [List.map_cons, List.nodup_cons]
        refine ⟨?_, hnd⟩
        intro hmem
        obtain ⟨r', hr', hid⟩ := List.mem_map.1 hmem
        exact hseen r' hr' (by simp [hid])
      · intro r' hr'
        rcases List.mem_cons.1 hr' with rfl | hr'
        · exact hnew
        · exact fun h => hseen r' hr' (List.mem_cons_of_mem _ h)
      · intro r' hr'
        rcases List.mem_cons.1 hr' with rfl | hr'
        · exact hv
        · exact hvs r' hr'
    · rintro ⟨hnd, hseen, hvs⟩
      rw [List.map_cons, List.nodup_cons] at hnd
      refine ⟨(), validateRule_ok.2 ⟨hseen r (by simp), hvs r (by simp)⟩, ih.2 ⟨hnd.2, ?_, ?_⟩⟩
      · intro r' hr' hmem
        rcases List.mem_cons.1 hmem with hid | hmem
        · exact hnd.1 (hid ▸ List.mem_map_of_mem hr')
        · exact hseen r' (by simp [hr']) hmem
      · exact fun r' hr' => hvs r' (by simp [hr'])

/-- The validator returns what the schema reads, when its rules pass. -/
theorem validatePolicy_ok {input : Json} {dialect : PolicyDialect} {p : Policy} :
    validatePolicy input dialect = .ok p ↔
      Schema.policy dialect input = some p ∧ validateRules dialect [] p.rules = .ok () := by
  unfold validatePolicy
  cases hs : Schema.policy dialect input with
  | none => simp
  | some q =>
    simp only [bind_ok, pure_eq, Except.ok.injEq, Option.some.injEq]
    constructor
    · rintro ⟨⟨⟩, hr, rfl⟩
      exact ⟨rfl, hr⟩
    · rintro ⟨rfl, hr⟩
      exact ⟨(), hr, rfl⟩

/-- **A policy `validatePolicy` returns is valid**: what the engine relies on was checked, so
evaluation never meets a limit it cannot read or two rules of one id. -/
theorem validatePolicy_valid {input : Json} {dialect : PolicyDialect} {p : Policy}
    (h : validatePolicy input dialect = .ok p) : p.Valid dialect := by
  obtain ⟨hnd, -, hv⟩ := validateRules_ok.1 (validatePolicy_ok.1 h).2
  exact ⟨hnd, hv⟩

namespace Policy.Valid

variable {dialect : PolicyDialect} {p : Policy}

/-- A rule of a valid policy is determined by its id. -/
theorem rule_eq (h : p.Valid dialect) {r r' : PolicyRule} (hr : r ∈ p.rules) (hr' : r' ∈ p.rules)
    (hid : r.id = r'.id) : r = r' :=
  List.inj_on_of_nodup_map h.ids hr hr' hid

end Policy.Valid

end Signbox
