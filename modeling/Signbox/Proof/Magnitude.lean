import Signbox.Proof.AssetText
import Signbox.Proof.Numbers
import Signbox.Spec.Engine
import Signbox.Spec.Eval

/-!
# Amounts as doubles

The engine compares amounts digit by digit, the simulator compares the doubles they read as.
Rounding keeps the order, so the two differ only on amounts that read as the same double.

* `parseFloat_amount`: what a bare amount reads as.
* `compareOrdered_le`: how two amounts compare as doubles, from how the engine compares them.
-/

namespace Signbox

open JsonText Guard

namespace Double

variable {q r : ℚ} {x y : Double}

theorem le_antisymm_of (h : x.le y = true) (h' : y.le x = true) : x = y := by
  cases x with
  | nan => cases h
  | infinite s =>
    cases y with
    | nan => cases s <;> cases h
    | infinite t => cases s <;> cases t <;> first | rfl | (cases h; done) | cases h'
    | finite b => cases s <;> first | (cases h; done) | cases h'
  | finite a =>
    cases y with
    | nan => cases h
    | infinite t => cases t <;> first | (cases h; done) | cases h'
    | finite b =>
      have hab : a ≤ b := of_decide_eq_true h
      have hba : b ≤ a := of_decide_eq_true h'
      rw [le_antisymm hab hba]

/-- **Rounding keeps the order of doubles**, infinity included. It is all that the comparison of
amounts as doubles has to offer. -/
theorem le_nearest (hq : 0 ≤ q) (h : q ≤ r) : (nearest q).le (nearest r) = true := by
  have hmono : Rounding.round 53 (-1074) q ≤ Rounding.round 53 (-1074) r :=
    Rounding.round_mono (by norm_num) hq h
  have hnonneg : 0 ≤ Rounding.round 53 (-1074) q := Rounding.round_nonneg hq
  have hpos : ¬ q < 0 ∧ ¬ r < 0 := ⟨not_lt.2 hq, not_lt.2 (hq.trans h)⟩
  simp only [nearest, abs_of_nonneg hnonneg, abs_of_nonneg (hnonneg.trans hmono), hpos.1, hpos.2,
    decide_false]
  split_ifs with hx hy hy
  · exact decide_eq_true hmono
  · rfl
  · exact absurd (hmono.trans_lt hy) hx
  · rfl

theorem exact_intCast {i : ℤ} (h : |i| ≤ 2 ^ 53) : Exact i := by
  refine exact_of_representable (Rounding.representable_intCast h (by norm_num)) ?_
  have hle : |(i : ℚ)| ≤ 2 ^ 53 := by exact_mod_cast h
  exact hle.trans_lt two_pow_lt

/-- A negative double is below what is not negative. -/
theorem Exact.le_nearest (hx : Exact q) (hneg : q < 0) (hr : 0 ≤ r) :
    (nearest q).le (nearest r) = true := by
  rw [show nearest q = .finite q from hx]
  cases hy : nearest r with
  | nan =>
    unfold nearest at hy
    simp only at hy
    split at hy <;> cases hy
  | infinite s =>
    have hsign : s = false := by
      unfold nearest at hy
      simp only at hy
      split at hy
      · cases hy
      · rw [← Double.infinite.inj hy]
        exact decide_eq_false (not_lt.2 hr)
    rw [hsign]
    rfl
  | finite y => exact decide_eq_true (hneg.le.trans (nearest_nonneg hr hy))

end Double

/-! ## Texts -/

/-- The rational that an amount denotes. -/
def BareAmount.value (b : BareAmount) : ℚ := b.units * 10 ^ (-(b.precision : ℤ))

theorem BareAmount.value_nonneg (b : BareAmount) : 0 ≤ b.value :=
  mul_nonneg (Nat.cast_nonneg _) (zpow_pos (by norm_num) _).le

theorem BareAmount.value_le {a b : BareAmount} (hprec : a.precision = b.precision)
    (h : a.units ≤ b.units) : a.value ≤ b.value := by
  unfold BareAmount.value
  rw [hprec]
  have hcast : (a.units : ℚ) ≤ b.units := by exact_mod_cast h
  exact mul_le_mul_of_nonneg_right hcast (zpow_pos (by norm_num) _).le

variable {s : JsString} {int : JsString} {frac : Option JsString}

/-- What a text of digits, with a fraction or not, reads as. -/
theorem parseFloat_bareText (hint : Digits int) (hfrac : ∀ f, frac = some f → Digits f) :
    parseFloat (bareText int frac) =
      .nearest (natOfDigits (int ++ fraction frac) * 10 ^ (-((fraction frac).length : ℤ))) := by
  obtain ⟨u, us, rfl⟩ := List.exists_cons_of_ne_nil hint.1
  have hu : isDigit u = true := hint.2 u List.mem_cons_self
  obtain ⟨rest, htext, hdec⟩ : ∃ rest, bareText (u :: us) frac = u :: rest ∧
      readDecimal (u :: rest) = some (natOfDigits (u :: us ++ fraction frac),
        -((fraction frac).length : ℤ)) := by
    cases frac with
    | none =>
      refine ⟨us, rfl, ?_⟩
      have hend : ∀ v ∈ ([] : JsString).head?, isDigit v = false := by simp
      obtain ⟨htake, hdrop⟩ := takeWhile_stop hint.2 hend
      rw [List.append_nil] at htake hdrop
      simp [readDecimal, htake, hdrop, splitFraction, fraction, readExponent]
    | some f =>
      refine ⟨us ++ unit '.' :: f, rfl, ?_⟩
      have hpoint : ∀ v ∈ (unit '.' :: f).head?, isDigit v = false := by
        intro v hv
        rw [List.head?_cons, Option.mem_some_iff] at hv
        rw [← hv]
        decide
      obtain ⟨htake, hdrop⟩ := takeWhile_stop hint.2 hpoint
      have hend : ∀ v ∈ ([] : JsString).head?, isDigit v = false := by simp
      obtain ⟨hf, hf'⟩ := takeWhile_stop (hfrac f rfl).2 hend
      rw [List.append_nil] at hf hf'
      rw [List.cons_append] at htake hdrop
      simp [readDecimal, htake, hdrop, splitFraction, hf, hf', fraction, readExponent]
  have hsign : readSign false (u :: rest) = (false, u :: rest) := by
    have hminus : u ≠ unit '-' := by
      rintro rfl
      revert hu
      decide
    simp [readSign, hminus]
  have hinf : (js "Infinity").isPrefixOf (u :: rest) = false := by
    have hcons : js "Infinity" = unit 'I' :: js "nfinity" := by decide
    have hne : (unit 'I' == u) = false := by
      rw [beq_eq_false_iff_ne]
      rintro rfl
      revert hu
      decide
    rw [hcons, List.isPrefixOf_cons_cons, hne, Bool.false_and]
  unfold parseFloat
  rw [htext, trimStart_eq (Or.inl hu), readSign_plus (Or.inl hu), hsign]
  simp only [hinf, Bool.false_eq_true, if_false, hdec, one_mul]

/-- **What a bare amount reads as**: the double nearest to the rational it denotes. -/
theorem parseFloat_amount {b : BareAmount} (h : parseBareAmount s = .ok b) :
    parseFloat s = .nearest b.value := by
  unfold parseBareAmount at h
  cases hm : matchBareAmount s with
  | none =>
    rw [hm] at h
    cases h
  | some m =>
    obtain ⟨int, frac⟩ := m
    rw [hm] at h
    obtain ⟨hint, hfrac, rfl⟩ := matchBareAmount_iff.1 hm
    rw [parseFloat_bareText hint hfrac, (toUnits_ok.1 h).2.2]
    rfl

/-- What an integer of a JSON document reads as, printed. -/
theorem parseFloat_safeInt {n : JsNumber} {i : ℤ} (h : n.safeInt? = some i) :
    parseFloat n.toText = .nearest i ∧ Double.Exact i := by
  unfold JsNumber.safeInt? at h
  cases hint : n.toInt? with
  | none => simp [hint] at h
  | some j =>
    simp only [hint, Option.ite_none_right_eq_some, Option.some.injEq] at h
    obtain ⟨hsafe, rfl⟩ := h
    cases n with
    | infinite s => cases hint
    | finite d =>
      have hstops : Stops [] := by
        intro u us heq
        simp at heq
      have hread := readNumber_toText JsNumber.finite d hstops
      rw [List.append_nil] at hread
      rw [parseFloat_of_read hread, value_of_toInt? hint]
      have habs : |j| ≤ 2 ^ 53 := by
        rw [Int.abs_eq_natAbs]
        omega
      exact ⟨rfl, Double.exact_intCast habs⟩

/-! ## Comparisons -/

/-- **How two amounts compare as doubles.** If the exact comparison finds no greater, neither do
the doubles; the converse fails for amounts that round to one double. -/
theorem compareOrdered_le {v : JsValue} {bound : JsString} {o : Ordering}
    (h : compareOrdered v bound = .ok o) : ∃ t, v.toText = .ok t ∧
      (o ≠ .gt → (parseFloat t).le (parseFloat bound) = true) ∧
      (o ≠ .lt → (parseFloat bound).le (parseFloat t) = true) := by
  unfold compareOrdered at h
  split at h
  -- a text is compared as the amount it denotes, at the precision of the bound
  · next s =>
    simp only [bind_ok] at h
    obtain ⟨a, ha, b, hb, hcmp⟩ := h
    unfold compareBareAmounts at hcmp
    split_ifs at hcmp with hprec
    rw [not_not] at hprec
    rw [← Except.ok.inj hcmp]
    refine ⟨s, rfl, fun hle => ?_, fun hge => ?_⟩
    · rw [parseFloat_amount ha, parseFloat_amount hb]
      exact Double.le_nearest a.value_nonneg
        (BareAmount.value_le hprec (Nat.compare_ne_gt.1 hle))
    · rw [parseFloat_amount ha, parseFloat_amount hb]
      exact Double.le_nearest b.value_nonneg
        (BareAmount.value_le hprec.symm (Nat.compare_ne_lt.1 hge))
  -- a number is compared as an integer, with a bound of digits only
  · next n =>
    split at h
    · next i hi =>
      split_ifs at h with hdigits
      rw [← Except.ok.inj h]
      obtain ⟨hread, hexact⟩ := parseFloat_safeInt hi
      have hbound : parseFloat bound = .nearest (natOfDigits bound : ℕ) := by
        have hd : Digits bound := ⟨hdigits.1, List.all_eq_true.1 hdigits.2⟩
        have hnone : ∀ f, (none : Option JsString) = some f → Digits f := by simp
        simpa [fraction, bareText] using parseFloat_bareText hd hnone
      refine ⟨n.toText, rfl, fun hle => ?_, fun hge => ?_⟩
      · rw [hread, hbound]
        have hcast : (i : ℚ) ≤ natOfDigits bound := by
          have hle' : i ≤ (natOfDigits bound : ℤ) := by
            rwa [ne_eq, Int.compare_eq_gt, not_lt] at hle
          exact_mod_cast hle'
        -- a negative number rounds to a non-positive double, and the bound to a non-negative one
        rcases lt_or_ge (i : ℚ) 0 with hneg | hnonneg
        · exact hexact.le_nearest hneg (by positivity)
        · exact Double.le_nearest hnonneg hcast
      · rw [hread, hbound]
        have hcast : (natOfDigits bound : ℚ) ≤ i := by
          have hge' : (natOfDigits bound : ℤ) ≤ i := by
            rwa [ne_eq, Int.compare_eq_lt, not_lt] at hge
          exact_mod_cast hge'
        exact Double.le_nearest (by positivity) hcast
    · cases h
  · cases h

/-- Where different amounts read as different doubles, the doubles compare as the amounts do. -/
theorem compareOrdered_doubles {v : JsValue} {bound t : JsString} {o : Ordering}
    (h : compareOrdered v bound = .ok o) (ht : v.toText = .ok t)
    (hapart : parseFloat t = parseFloat bound → o = .eq) :
    (parseFloat t).le (parseFloat bound) = (o != .gt) ∧
      (parseFloat bound).le (parseFloat t) = (o != .lt) := by
  obtain ⟨t', ht', hle, hge⟩ := compareOrdered_le h
  obtain rfl : t = t' := Except.ok.inj (ht.symm.trans ht')
  cases o with
  | eq => exact ⟨hle (by decide), hge (by decide)⟩
  | lt =>
    have hlt := hle (by decide)
    refine ⟨hlt, Bool.eq_false_iff.2 fun hback => ?_⟩
    cases hapart (Double.le_antisymm_of hlt hback)
  | gt =>
    have hgt := hge (by decide)
    refine ⟨Bool.eq_false_iff.2 fun hback => ?_, hgt⟩
    cases hapart (Double.le_antisymm_of hback hgt)

end Signbox
