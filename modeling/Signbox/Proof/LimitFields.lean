import Signbox.Proof.Numbers
import Signbox.Spec.Compile
import Signbox.Spec.Decompile

/-!
# Limits on a Decision

A Decision has a field for the cap of a transaction, one for the cooldown and one for a count,
which is per recipient, per day or per hour. Limits that fit these fields come back from them.

* `limitFields_doc`: the fields of the limits of a rule.
* `compileLimits_carried`: the limits the compiler reads from them.
* `limits_limitsDoc`: which the daemon reads as the limits of the rule.
-/

namespace Signbox

open Schema

/-! ## The fields -/

/-- A natural number, as a number of JSON. -/
def natNumber (n : ℕ) : JsNumber := .finite (.ofParts false n 0)

/-- The count of a rule and its two switches. The three counts share one field. -/
def sharedCount (l : RuleLimits) : Option (ℕ × Bool × JsString) :=
  match l.maxCountPerRecipientPerHour, l.maxCountPerDay, l.maxCountPerHour with
  | some n, _, _ => some (n, true, js "hour")
  | none, some n, _ => some (n, false, js "day")
  | none, none, some n => some (n, false, js "hour")
  | none, none, none => none

/-- The text of a cooldown, in hours. -/
def hoursText (n : ℕ) : JsString := ((natNumber n).toDouble.divBy 3600000).toText

/-- The fields of a Decision that carry limits. -/
def carriedFields (l : RuleLimits) : Fields :=
  (l.maxPerTransaction.map fun t => (js "maxPerTx", FieldValue.str t)).toList ++
    (l.cooldownPerRecipientMs.map fun n => (js "cooldownH", FieldValue.str (hoursText n))).toList ++
    ((sharedCount l).map fun c => [(js "rlCount", FieldValue.str (natNumber c.1).toText),
      (js "rlPerRecipient", .bool c.2.1), (js "rlPeriod", .str c.2.2)]).getD []

variable {l : RuleLimits} {ms : List (JsString × Json)} {u : Json}

theorem limitNumber_doc {key : JsString} {o : Option ℕ} (h : ms.lookup key = o.map natDoc) :
    limitNumber ms key = o.map natNumber := by
  rw [limitNumber, h]
  cases o <;> rfl

/-- **The limits of a rule in the editor**: the fields that are shown depend only on what the
limits are read as, not on how the document spells them. -/
theorem limitFields_doc (h : limits u = some l) :
    ∃ p ms, u = .obj p ms ∧ limitFields ms = carriedFields l := by
  obtain ⟨p, ms, rfl, -, hcap, -, -, hcooldown, hhour, hday, hrecipient⟩ := limits_iff.1 h
  refine ⟨p, ms, rfl, ?_⟩
  have hcooldown' := limitNumber_doc (optional_integer hcooldown).1
  have hhour' := limitNumber_doc (optional_integer hhour).1
  have hday' := limitNumber_doc (optional_integer hday).1
  have hrecipient' := limitNumber_doc (optional_integer hrecipient).1
  simp only [limitFields, optional_text hcap, hcooldown', hhour', hday', hrecipient',
    carriedFields, sharedCount]
  congr 1
  · congr 1
    · cases l.maxPerTransaction <;> rfl
    · cases l.cooldownPerRecipientMs <;> rfl
  · cases l.maxCountPerRecipientPerHour <;> cases l.maxCountPerDay <;>
      cases l.maxCountPerHour <;> rfl

/-- Limits that fit the fields of a Decision: no windowed amount, a cap, a cooldown that is not
zero and one count at most. -/
structure RuleLimits.Fits (l : RuleLimits) : Prop where
  hour : l.maxPerHour = none
  day : l.maxPerDay = none
  cap : l.maxPerTransaction ≠ none
  cooldown : l.cooldownPerRecipientMs ≠ some 0
  counts : (l.maxCountPerHour.toList ++ l.maxCountPerDay.toList ++
    l.maxCountPerRecipientPerHour.toList).length ≤ 1

/-- A windowed amount has no field, and its key gives a warning. -/
theorem supported_windowless (h : limits u = some l) :
    ∃ p ms, u = .obj p ms ∧ ((ms.filter fun m => m.1 ∉ supportedLimits) = [] →
      l.maxPerHour = none ∧ l.maxPerDay = none) := by
  obtain ⟨p, ms, rfl, -, -, hhour, hday, -⟩ := limits_iff.1 h
  refine ⟨p, ms, rfl, fun hnil => ?_⟩
  have habsent : ∀ {key : JsString} {o : Option JsString}, key ∉ supportedLimits →
      ms.lookup key = o.map .str → o = none := by
    intro key o hkey hlook
    cases o with
    | none => rfl
    | some t =>
      have hmem := Guard.mem_of_lookup hlook
      have hfilter := List.filter_eq_nil_iff.1 hnil _ hmem
      simp only [decide_not, Bool.not_eq_true', decide_eq_false_iff_not, not_not] at hfilter
      exact absurd hfilter hkey
  exact ⟨habsent (by decide) (optional_text hhour), habsent (by decide) (optional_text hday)⟩

/-! ## The way back -/

/-- The key of a count. -/
def countKey (perRecipient : Bool) (period : JsString) : JsString :=
  if perRecipient then js "maxCountPerRecipientPerHour"
  else if period = js "day" then js "maxCountPerDay"
  else js "maxCountPerHour"

/-- The document of limits that fit. -/
def limitsDoc (l : RuleLimits) : List (JsString × Json) :=
  (l.maxPerTransaction.map fun t => (js "maxPerTransaction", Json.str t)).toList ++
    (l.cooldownPerRecipientMs.map fun n => (js "cooldownPerRecipientMs", natDoc n)).toList ++
    ((sharedCount l).map fun c => (countKey c.2.1 c.2.2, natDoc c.1)).toList

/-- The fields of the Decision of a rule. -/
def decisionText (e : Effect) (carried : Fields) : Fields :=
  NodeType.decision.defaults.spread ([(js "effect", .str (effectText e))] ++ carried ++
    [(js "useLimit", .bool (decide (carried ≠ [])))])

theorem text_ne_nil {lo hi : ℕ} {t : JsString} (h : text (lo + 1) hi u = some t) : t ≠ [] := by
  rintro rfl
  rw [text_eq h, text] at h
  simp [ucs2length] at h

/-- Bounds the schema puts on limits. -/
structure RuleLimits.Bounded (l : RuleLimits) : Prop where
  cap : ∀ t, l.maxPerTransaction = some t → t ≠ [] ∧ text 1 64 (.str t) = some t
  cooldown : ∀ n, l.cooldownPerRecipientMs = some n → n ≤ 86400000
  counts : ∀ n, l.maxCountPerHour = some n ∨ l.maxCountPerDay = some n ∨
    l.maxCountPerRecipientPerHour = some n → 1 ≤ n ∧ n ≤ 1000000

theorem limits_bounded (h : limits u = some l) : l.Bounded := by
  obtain ⟨p, ms, rfl, -, hcap, -, -, hcooldown, hhour, hday, hrecipient⟩ := limits_iff.1 h
  refine ⟨fun t ht => ?_, fun n hn => ((optional_integer hcooldown).2 n hn).2, fun n hn => ?_⟩
  · have hlook := optional_text hcap
    rw [ht] at hlook
    have htext : text 1 64 (.str t) = some t := by
      rw [Schema.optional, hlook, ht] at hcap
      simpa using hcap
    exact ⟨text_ne_nil htext, htext⟩
  · rcases hn with hn | hn | hn
    · exact (optional_integer hhour).2 n hn
    · exact (optional_integer hday).2 n hn
    · exact (optional_integer hrecipient).2 n hn

theorem RuleLimits.Bounded.shared (h : l.Bounded) {c : ℕ × Bool × JsString}
    (hc : sharedCount l = some c) : 1 ≤ c.1 ∧ c.1 ≤ 1000000 := by
  unfold sharedCount at hc
  split at hc
  next n hn =>
    rw [← Option.some.inj hc]
    exact h.counts n (Or.inr (Or.inr hn))
  next n _ hn =>
    rw [← Option.some.inj hc]
    exact h.counts n (Or.inr (Or.inl hn))
  next n _ _ hn =>
    rw [← Option.some.inj hc]
    exact h.counts n (Or.inl hn)
  next => cases hc

/-- **The limits the compiler reads from a Decision** that carries the limits of a rule are again
those limits, as far as the editor has fields for them. -/
theorem compileLimits_carried (hfits : l.Fits) (hbounds : l.Bounded) :
    compileLimits (decisionText .allow (carriedFields l)) = limitsDoc l := by
  obtain ⟨t, ht⟩ := Option.ne_none_iff_exists'.1 hfits.cap
  obtain ⟨v, vs, rfl⟩ := List.exists_cons_of_ne_nil (hbounds.cap t ht).1
  have hcarried : carriedFields l = (js "maxPerTx", .str (v :: vs)) ::
      ((l.cooldownPerRecipientMs.map fun n => (js "cooldownH", FieldValue.str (hoursText n))).toList
        ++ ((sharedCount l).map fun c => [(js "rlCount", FieldValue.str (natNumber c.1).toText),
          (js "rlPerRecipient", .bool c.2.1), (js "rlPeriod", .str c.2.2)]).getD []) := by
    rw [carriedFields, ht]
    rfl
  set f := decisionText .allow (carriedFields l) with hf
  rw [hcarried] at hf
  have hcap : f.truthy (js "maxPerTx") = some (.str (v :: vs)) := by
    rw [hf]
    cases l.cooldownPerRecipientMs <;> cases sharedCount l <;> rfl
  have hcooldown : f.textOrEmpty (js "cooldownH") =
      (l.cooldownPerRecipientMs.map hoursText).getD [] := by
    rw [hf]
    cases l.cooldownPerRecipientMs <;> cases sharedCount l <;> rfl
  have hcount : f.textOrEmpty (js "rlCount") =
      ((sharedCount l).map fun c => (natNumber c.1).toText).getD [] := by
    rw [hf]
    cases l.cooldownPerRecipientMs <;> cases sharedCount l <;> rfl
  have hkey : ∀ c, sharedCount l = some c → (if f.isTrue (js "rlPerRecipient") then
      js "maxCountPerRecipientPerHour" else if f.isText (js "rlPeriod") (js "day") then
      js "maxCountPerDay" else js "maxCountPerHour") = countKey c.2.1 c.2.2 := by
    rintro ⟨n, perRecipient, period⟩ hc
    have hlook : f.lookup (js "rlPerRecipient") = some (.bool perRecipient) ∧
        f.lookup (js "rlPeriod") = some (.str period) := by
      rw [hf, hc]
      cases l.cooldownPerRecipientMs <;> exact ⟨rfl, rfl⟩
    simp only [Fields.isTrue, Fields.isText, hlook.1, hlook.2, countKey, Option.some.injEq,
      FieldValue.bool.injEq, FieldValue.str.injEq, decide_eq_true_eq]
  have hcaps : ((f.truthy (js "maxPerTx")).map fun v => (js "maxPerTransaction", v.toJson)).toList =
      (l.maxPerTransaction.map fun t => (js "maxPerTransaction", Json.str t)).toList := by
    rw [hcap, ht]
    rfl
  -- a cooldown is written in hours and read in milliseconds
  have hcooldowns : (if (parseFloat (f.textOrEmpty (js "cooldownH"))).isPositive then
      (((parseFloat (f.textOrEmpty (js "cooldownH"))).mul (.finite 3600000)).round.toNumber.map
        fun ms => (js "cooldownPerRecipientMs", Json.num ms)).toList else []) =
      (l.cooldownPerRecipientMs.map fun n => (js "cooldownPerRecipientMs", natDoc n)).toList := by
    rw [hcooldown]
    cases hms : l.cooldownPerRecipientMs with
    | none => rfl
    | some n =>
      have hpos : 1 ≤ n := by
        have hzero := hfits.cooldown
        rw [hms] at hzero
        have hne : n ≠ 0 := fun heq => hzero (by rw [heq])
        omega
      obtain ⟨y, hread, hy, hback⟩ := hours_roundTrip (ofParts_toInt n) hpos
        (hbounds.cooldown n hms)
      have htext : ((some n).map hoursText).getD [] =
        ((JsNumber.finite (.ofParts false n 0)).toDouble.divBy 3600000).toText := rfl
      rw [htext, hread, hback]
      simp only [Double.isPositive, decide_eq_true hy, if_true]
      rfl
  have hcounts : (if f.textOrEmpty (js "rlCount") = [] then [] else
      [((if f.isTrue (js "rlPerRecipient") then js "maxCountPerRecipientPerHour"
        else if f.isText (js "rlPeriod") (js "day") then js "maxCountPerDay"
        else js "maxCountPerHour"), Json.num (parseCount (f.textOrEmpty (js "rlCount"))))]) =
      ((sharedCount l).map fun c => (countKey c.2.1 c.2.2, natDoc c.1)).toList := by
    rw [hcount]
    cases hc : sharedCount l with
    | none => rfl
    | some c =>
      obtain ⟨hone, hmax⟩ := hbounds.shared hc
      have hdigits : (natNumber c.1).toText ≠ [] :=
        (toText_integer (by omega) (by omega)).nonempty
      have hparse : parseCount (natNumber c.1).toText = natNumber c.1 :=
        parseCount_toText (ofParts_toInt c.1) (by omega) (by omega)
      rw [hkey c hc]
      simp only [Option.map_some, Option.getD_some, if_neg hdigits, hparse]
      rfl
  rw [compileLimits, limitsDoc, ← hcaps, ← hcooldowns, ← hcounts]

theorem integer_natDoc {lo hi n : ℕ} (hlo : lo ≤ n) (hhi : n ≤ hi) :
    integer lo hi (natDoc n) = some n := by
  have hbounds : (lo : ℤ) ≤ n ∧ (n : ℤ) ≤ hi := by omega
  simp only [integer, natDoc, ofParts_toInt, if_pos hbounds, Int.toNat_natCast]

/-- A member that is written when there is a value reads back as the value. -/
theorem optional_doc {α : Type} {f : Json → Option α} {key : JsString} {o : Option α}
    {doc : α → Json} (h : ms.lookup key = o.map doc) (hf : ∀ x, o = some x → f (doc x) = some x) :
    Schema.optional ms key f = some o := by
  rw [Schema.optional, h]
  cases o with
  | none => rfl
  | some x =>
    change (f (doc x)).map some = _
    rw [hf x rfl]
    rfl

/-- The members of the document of limits that fit. -/
theorem limitsDoc_lookup (hfits : l.Fits) :
    (limitsDoc l).lookup (js "maxPerTransaction") = l.maxPerTransaction.map .str ∧
    (limitsDoc l).lookup (js "maxPerHour") = l.maxPerHour.map .str ∧
    (limitsDoc l).lookup (js "maxPerDay") = l.maxPerDay.map .str ∧
    (limitsDoc l).lookup (js "cooldownPerRecipientMs") = l.cooldownPerRecipientMs.map natDoc ∧
    (limitsDoc l).lookup (js "maxCountPerHour") = l.maxCountPerHour.map natDoc ∧
    (limitsDoc l).lookup (js "maxCountPerDay") = l.maxCountPerDay.map natDoc ∧
    (limitsDoc l).lookup (js "maxCountPerRecipientPerHour") =
      l.maxCountPerRecipientPerHour.map natDoc := by
  obtain ⟨hhour, hday, hcap, -, hcounts⟩ := hfits
  obtain ⟨cap, hour, day, cooldown, perHour, perDay, perRecipient⟩ := l
  obtain ⟨t, rfl⟩ := Option.ne_none_iff_exists'.1 hcap
  obtain rfl : hour = none := hhour
  obtain rfl : day = none := hday
  simp only [List.length_append, Option.length_toList] at hcounts
  cases cooldown <;> cases perHour <;> cases perDay <;> cases perRecipient <;>
    first
    | exact ⟨rfl, rfl, rfl, rfl, rfl, rfl, rfl⟩
    | (simp at hcounts)

theorem limitsDoc_ne_nil (hfits : l.Fits) : limitsDoc l ≠ [] := by
  obtain ⟨t, ht⟩ := Option.ne_none_iff_exists'.1 hfits.cap
  rw [limitsDoc, ht]
  simp

/-- **The daemon reads the limits of the rule** from what the compiler wrote. -/
theorem limits_limitsDoc (hfits : l.Fits) (hbounds : l.Bounded) :
    limits (.obj .ordinary (limitsDoc l)) = some l := by
  obtain ⟨hcap, hhour, hday, hcooldown, hperHour, hperDay, hrecipient⟩ := limitsDoc_lookup hfits
  have hclosed : closed (limitsDoc l) [js "maxPerTransaction", js "maxPerHour", js "maxPerDay",
      js "cooldownPerRecipientMs", js "maxCountPerHour", js "maxCountPerDay",
      js "maxCountPerRecipientPerHour"] = true := by
    rw [closed, List.all_eq_true]
    intro m hm
    simp only [limitsDoc, List.mem_append, Option.mem_toList, Option.map_eq_some_iff] at hm
    rcases hm with (⟨t, -, rfl⟩ | ⟨n, -, rfl⟩) | ⟨c, -, rfl⟩
    · rfl
    · rfl
    · simp only [countKey]
      split_ifs <;> rfl
  have hcount : ∀ {o : Option ℕ}, (∀ n, o = some n → 1 ≤ n ∧ n ≤ 1000000) →
      ∀ n, o = some n → integer 1 1000000 (natDoc n) = some n := by
    intro o ho n hn
    exact integer_natDoc (ho n hn).1 (ho n hn).2
  refine limits_iff.2 ⟨.ordinary, _, rfl, ⟨hclosed, List.length_pos_of_ne_nil
    (limitsDoc_ne_nil hfits)⟩, optional_doc hcap fun t ht => (hbounds.cap t ht).2,
    optional_doc hhour fun t ht => ?_, optional_doc hday fun t ht => ?_,
    optional_doc hcooldown fun n hn => integer_natDoc (Nat.zero_le n) (hbounds.cooldown n hn),
    optional_doc hperHour (hcount fun n hn => hbounds.counts n (Or.inl hn)),
    optional_doc hperDay (hcount fun n hn => hbounds.counts n (Or.inr (Or.inl hn))),
    optional_doc hrecipient (hcount fun n hn => hbounds.counts n (Or.inr (Or.inr hn)))⟩
  · rw [hfits.hour] at ht
    cases ht
  · rw [hfits.day] at ht
    cases ht

/-! ## The Decision of a rule -/

/-- The limit fields of a rule. -/
def ruleFields (r : PolicyRule) : Fields := (r.limits.map carriedFields).getD []

variable {r : PolicyRule} {d : Json}

theorem decisionText_effect (r : PolicyRule) :
    (decisionText r.effect (ruleFields r)).lookup (js "effect") =
      some (.str (effectText r.effect)) := by
  unfold ruleFields
  cases r.limits with
  | none => rfl
  | some l =>
    simp only [Option.map_some, Option.getD_some, carriedFields]
    cases l.maxPerTransaction <;> cases l.cooldownPerRecipientMs <;> cases sharedCount l <;> rfl

theorem decisionText_useLimit (r : PolicyRule) :
    (decisionText r.effect (ruleFields r)).lookup (js "useLimit") =
      some (.bool (decide (ruleFields r ≠ []))) := by
  rw [decisionText]
  generalize decide (ruleFields r ≠ []) = used
  unfold ruleFields
  cases r.limits with
  | none => rfl
  | some l =>
    simp only [Option.map_some, Option.getD_some, carriedFields]
    cases l.maxPerTransaction <;> cases l.cooldownPerRecipientMs <;> cases sharedCount l <;> rfl

/-- The fields `decisionFields` gives a rule, and the limits it warns about. -/
theorem decisionFields_doc (label : JsString) (h : rule xprDialect d = some r) :
    NodeType.decision.defaults.spread (decisionFields d label).1 =
        decisionText r.effect (ruleFields r) ∧
      ((decisionFields d label).2 = [] → ∀ l, r.limits = some l →
        l.maxPerHour = none ∧ l.maxPerDay = none) := by
  obtain ⟨p, ms, rfl, -, -, heffect, -, hlimits, -⟩ := rule_iff.1 h
  obtain ⟨e, he, heffect⟩ := required_some heffect
  have htext : (Json.obj p ms).getText (js "effect") [] = effectText r.effect := by
    have hget : (Json.obj p ms).get (js "effect") = some e := he
    rw [Json.getText, hget, effect_eq heffect]
    rfl
  have heffectText : (if (Json.obj p ms).getText (js "effect") [] = js "deny" then js "deny"
      else js "allow") = effectText r.effect := by
    rw [htext]
    cases r.effect <;> rfl
  have hget : (Json.obj p ms).get (js "limits") = ms.lookup (js "limits") := rfl
  unfold decisionFields
  rw [heffectText, hget]
  cases hlook : ms.lookup (js "limits") with
  | none =>
    have hnone : r.limits = none := by
      rw [Schema.optional, hlook] at hlimits
      exact (Option.some.inj hlimits).symm
    have hempty : limitFields [] = [] := rfl
    refine ⟨?_, fun _ l hl => by rw [hnone] at hl; cases hl⟩
    rw [ruleFields, hnone]
    simp only [Option.bind_none, Option.getD_none, Option.map_none, hempty]
    rfl
  | some u =>
    obtain ⟨l, hl, hsome⟩ : ∃ l, limits u = some l ∧ r.limits = some l := by
      simp only [Schema.optional, hlook, Option.map_eq_some_iff] at hlimits
      obtain ⟨l, hl, heq⟩ := hlimits
      exact ⟨l, hl, heq.symm⟩
    obtain ⟨q, ns, rfl, hfields⟩ := limitFields_doc hl
    refine ⟨?_, fun hwarn l' hl' => ?_⟩
    · rw [ruleFields, hsome]
      simp only [Option.bind_some, Json.members?, Option.getD_some, Option.map_some, hfields]
      rfl
    · obtain ⟨q', ns', heq, hwindow⟩ := supported_windowless hl
      obtain ⟨-, rfl⟩ := Json.obj.inj heq
      simp only [Option.bind_some, Json.members?, Option.getD_some, List.map_eq_nil_iff] at hwarn
      rw [hsome, Option.some.injEq] at hl'
      rw [← hl']
      exact hwindow hwarn

/-- What the compiler makes of the limits of a rule. -/
theorem compile_ruleFields {f : Fields} (hf : f = decisionText r.effect (ruleFields r))
    (hdeny : r.effect = .deny → r.limits = none)
    (hfits : ∀ l, r.limits = some l → l.Fits ∧ l.Bounded) :
    (if f.isTrue (js "useLimit") ∧ f.isText (js "effect") (js "allow") then compileLimits f
      else []) = (r.limits.map limitsDoc).getD [] := by
  have huse := decisionText_useLimit r
  have heffect := decisionText_effect r
  rw [← hf] at huse heffect
  simp only [Fields.isTrue, Fields.isText, huse, heffect]
  cases hl : r.limits with
  | none => simp [ruleFields, hl]
  | some l =>
    have hallow : r.effect = .allow := by
      cases he : r.effect with
      | allow => rfl
      | deny =>
        rw [hdeny he] at hl
        cases hl
    obtain ⟨t, ht⟩ := Option.ne_none_iff_exists'.1 (hfits l hl).1.cap
    have hcarried : ruleFields r = carriedFields l := by
      rw [ruleFields, hl]
      rfl
    have hne : carriedFields l ≠ [] := by
      rw [carriedFields, ht]
      simp
    rw [hallow, hcarried] at hf
    rw [hcarried, hallow, if_pos (by simp [hne, effectText]), hf,
      compileLimits_carried (hfits l hl).1 (hfits l hl).2]
    rfl

end Signbox
