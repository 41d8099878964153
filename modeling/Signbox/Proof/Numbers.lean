import Mathlib.Algebra.IsPrimePow
import Signbox.Proof.PolicyText
import Signbox.Proof.RoundTrip
import Signbox.Spec.Number

/-!
# Numbers through a text field

A text field of the editor holds a number as its text. What `parseInt` and `parseFloat` read
from it is the number again, and a cooldown survives the way to hours and back.

* `parseFloat_toText`: the text of a positive double reads back as that double.
* `parseCount_toText`: the text of a positive integer reads back as the integer.
* `hours_roundTrip`: milliseconds, as hours, are milliseconds again.
-/

namespace Signbox

open JsonText

/-! ## Decimals -/

theorem strip_value {c : ℕ} (hc : c ≠ 0) : ∀ (fuel : ℕ) (e : ℤ), c ≤ fuel →
    (Decimal.strip fuel c e).coeff % 10 ≠ 0 ∧
      ((Decimal.strip fuel c e).coeff : ℚ) * 10 ^ (Decimal.strip fuel c e).exp = c * 10 ^ e := by
  intro fuel
  induction fuel generalizing c with
  | zero => intro e h; omega
  | succ fuel ih =>
    intro e h
    by_cases hlast : c % 10 ≠ 0
    · rw [Decimal.strip, dif_pos hlast]
      exact ⟨hlast, rfl⟩
    · have htenth : c = c / 10 * 10 := by omega
      obtain ⟨hcoeff, hvalue⟩ := ih (c := c / 10) (by omega) (e + 1) (by omega)
      rw [Decimal.strip, dif_neg hlast]
      refine ⟨hcoeff, hvalue.trans ?_⟩
      have hcast : (c : ℚ) = ((c / 10 : ℕ) : ℚ) * 10 := by exact_mod_cast htenth
      rw [hcast, zpow_add₀ (by norm_num), zpow_one]
      ring

/-- A literal denotes what it says. -/
theorem value_ofParts (neg : Bool) (c : ℕ) (e : ℤ) :
    (Decimal.ofParts neg c e).value = (if neg then -1 else 1) * (c * 10 ^ e) := by
  rcases eq_or_ne c 0 with rfl | hc
  · have hzero : Decimal.ofParts neg 0 e = ⟨false, 0, 0, .inr ⟨rfl, rfl, rfl⟩⟩ := by
      rw [Decimal.ofParts, dif_neg]
      simp [Decimal.strip]
    rw [hzero]
    simp [Decimal.value]
  · obtain ⟨hcoeff, hvalue⟩ := strip_value hc c e le_rfl
    rw [Decimal.ofParts, dif_pos hcoeff]
    simp only [Decimal.value, hvalue]

/-! ## Doubles -/

namespace Double

/-- A rational that is a double. -/
def Exact (x : ℚ) : Prop := nearest x = .finite x

theorem exact_of_representable {x : ℚ} (h : Rounding.Representable 53 (-1074) x)
    (hlt : |x| < 2 ^ 1024) : Exact x := by
  have hround := Rounding.round_of_representable (by norm_num) h
  simp only [Exact, nearest, hround, if_pos hlt]

theorem Exact.representable {x : ℚ} (h : Exact x) : Rounding.Representable 53 (-1074) x := by
  simp only [Exact, nearest] at h
  split at h
  · have heq : Rounding.round 53 (-1074) x = x := Double.finite.inj h
    rw [← heq]
    exact Rounding.round_representable x
  · cases h

theorem two_pow_lt : (2 : ℚ) ^ 53 < 2 ^ 1024 := pow_lt_pow_right₀ (by norm_num) (by norm_num)

theorem exact_natCast {n : ℕ} (h : n ≤ 2 ^ 53) : Exact n := by
  have hrep : Rounding.Representable 53 (-1074) ((n : ℤ) : ℚ) := Rounding.representable_intCast
    (by rw [abs_of_nonneg (by omega)]; exact_mod_cast h) (by norm_num)
  refine exact_of_representable (by exact_mod_cast hrep) ?_
  have hle : (n : ℚ) ≤ 2 ^ 53 := by exact_mod_cast h
  rw [abs_of_nonneg (by positivity)]
  exact hle.trans_lt two_pow_lt

theorem exact_nearest {q x : ℚ} (h : nearest q = .finite x) : Exact x := by
  unfold nearest at h
  simp only at h
  split at h
  · next hlt =>
    have heq : Rounding.round 53 (-1074) q = x := Double.finite.inj h
    rw [← heq]
    exact exact_of_representable (Rounding.round_representable q) hlt
  · cases h

theorem nearest_nonneg {q x : ℚ} (hq : 0 ≤ q) (h : nearest q = .finite x) : 0 ≤ x := by
  unfold nearest at h
  simp only at h
  split at h
  · have heq : Rounding.round 53 (-1074) q = x := Double.finite.inj h
    rw [← heq]
    exact Rounding.round_nonneg hq
  · cases h

/-- A double above `2 ^ 53` is an integer. -/
theorem Exact.integer {x : ℚ} (h : Exact x) (hx : 2 ^ 53 < x) : ∃ n : ℤ, x = n := by
  obtain ⟨m, e, rfl, hm, -⟩ := h.representable
  have hm' : (m : ℚ) ≤ 2 ^ 53 := by
    have hle := (abs_le.1 hm).2
    exact_mod_cast hle
  have he : 0 ≤ e := by
    by_contra hneg
    have hle : (2 : ℚ) ^ e ≤ 1 := zpow_le_one_of_nonpos₀ (by norm_num) (by omega)
    have hpos : (0 : ℚ) < 2 ^ e := zpow_pos (by norm_num) e
    nlinarith
  obtain ⟨k, rfl⟩ := Int.eq_ofNat_of_zero_le he
  exact ⟨m * 2 ^ k, by push_cast; rw [zpow_natCast]⟩

/-- `Math.round` of a double that is not negative is a double. -/
theorem Exact.round {x : ℚ} (h : Exact x) (hx : 0 ≤ x) : Exact (⌊x + 1 / 2⌋ : ℤ) := by
  rcases le_or_gt x (2 ^ 53) with hle | hgt
  · have hfloor : (0 : ℤ) ≤ ⌊x + 1 / 2⌋ := Int.floor_nonneg.2 (by linarith)
    obtain ⟨n, hn⟩ := Int.eq_ofNat_of_zero_le hfloor
    have hlt : ⌊x + 1 / 2⌋ < 2 ^ 53 + 1 := by
      rw [Int.floor_lt]
      push_cast
      linarith
    rw [hn, Int.cast_natCast]
    exact exact_natCast (by omega)
  · obtain ⟨n, rfl⟩ := h.integer hgt
    have hfloor : ⌊(n : ℚ) + 1 / 2⌋ = n := by
      rw [Int.floor_intCast_add]
      norm_num
    rw [hfloor]
    exact h

/-- The denominator of a double is a power of two. -/
theorem Exact.den {x : ℚ} (h : Exact x) : x.den = 2 ^ x.den.log2 := by
  obtain ⟨m, e, hx, -, -⟩ := h.representable
  obtain ⟨j, k, hjk⟩ : ∃ j k : ℕ, (j : ℤ) = e + k := ⟨(e + e.natAbs).toNat, e.natAbs, by omega⟩
  have hmul : x * 2 ^ k = m * 2 ^ j := by
    rw [hx, mul_assoc, ← zpow_natCast, ← zpow_natCast, hjk, zpow_add₀ (by norm_num)]
  have hdiv : x = Rat.divInt (m * 2 ^ j) (2 ^ k : ℕ) := by
    rw [Rat.divInt_eq_div, eq_div_iff (by positivity)]
    push_cast
    exact hmul
  have hdvd : x.den ∣ 2 ^ k := by
    have h := Rat.den_dvd (m * 2 ^ j) (2 ^ k : ℕ)
    rw [← hdiv] at h
    exact Int.natCast_dvd_natCast.1 h
  obtain ⟨i, -, hi⟩ := (Nat.dvd_prime_pow Nat.prime_two).1 hdvd
  rw [hi, Nat.log2_two_pow]

theorem allDigits_value {x : ℚ} (hx : 0 < x) (h : Exact x) : (allDigits x).value = x := by
  rw [allDigits, value_ofParts, if_neg (by simp), one_mul]
  have hnum : ((x.num.natAbs : ℕ) : ℚ) = x.num := by
    have hpos : 0 < x.num := Rat.num_pos.2 hx
    have habs : ((x.num.natAbs : ℕ) : ℤ) = x.num := by omega
    rw [← Int.cast_natCast, habs]
  have hden : (x.den : ℚ) = 2 ^ x.den.log2 := by exact_mod_cast h.den
  have hten : (10 : ℚ) ^ (-(x.den.log2 : ℤ)) = (5 ^ x.den.log2 * 2 ^ x.den.log2)⁻¹ := by
    rw [zpow_neg, zpow_natCast, ← mul_pow]
    norm_num
  have h5 : (5 : ℚ) ^ x.den.log2 ≠ 0 := by positivity
  have h2 : (2 : ℚ) ^ x.den.log2 ≠ 0 := by positivity
  have hquot : x = x.num / 2 ^ x.den.log2 := by rw [← hden, Rat.num_div_den]
  push_cast
  rw [hnum, hten]
  conv_rhs => rw [hquot]
  field_simp

/-- The shortest decimal denotes the double, and is not negative. -/
theorem shortest_value {x : ℚ} (hx : 0 < x) (h : Exact x) :
    nearest (shortest x).value = .finite x ∧ (shortest x).neg = false := by
  have hneg : ∀ c e, (Decimal.ofParts false c e).neg = false := by
    intro c e
    unfold Decimal.ofParts
    split <;> rfl
  unfold shortest
  cases hfind : (List.range 17).findSome? fun k => decimalOf x (k + 1) with
  | none =>
    rw [Option.getD_none]
    refine ⟨?_, hneg _ _⟩
    rw [allDigits_value hx h]
    exact h
  | some d =>
    obtain ⟨k, -, hk⟩ := List.exists_of_findSome?_eq_some hfind
    obtain ⟨s, hs, rfl⟩ := Option.map_eq_some_iff.1 hk
    have hfinite := List.find?_some hs
    rw [decide_eq_true_eq] at hfinite
    refine ⟨?_, hneg _ _⟩
    rw [Option.getD_some, value_ofParts, if_neg (by simp), one_mul]
    exact hfinite

theorem toDecimal_value {x : ℚ} (hx : 0 < x) (h : Exact x) :
    nearest (toDecimal x).value = .finite x := by
  have hpos : ¬ x < 0 := not_lt.2 hx.le
  unfold toDecimal
  split_ifs with hint
  · have hnum : ((x.num.natAbs : ℕ) : ℚ) = x := by
      have hnumpos : 0 < x.num := Rat.num_pos.2 hx
      have habs : ((x.num.natAbs : ℕ) : ℤ) = x.num := by omega
      have hself := Rat.num_div_den x
      rw [hint.1, Nat.cast_one, div_one] at hself
      rw [← Int.cast_natCast, habs, hself]
    have hx' : nearest x = .finite x := h
    rw [value_ofParts, hnum, zpow_zero, mul_one]
    simpa [hpos] using hx'
  · obtain ⟨hvalue, hneg⟩ := shortest_value (x := |x|) (abs_pos.2 hx.ne') (by rwa [abs_of_pos hx])
    rw [Decimal.value, hneg] at hvalue
    rw [value_ofParts]
    rw [abs_of_pos hx] at hvalue ⊢
    simpa [hpos] using hvalue

theorem toDecimal_nonpos {x : ℚ} (hx : x < 0) : (toDecimal x).value ≤ 0 := by
  have hparts : ∃ c e, toDecimal x = .ofParts true c e := by
    unfold toDecimal
    rw [decide_eq_true hx]
    split
    · exact ⟨_, _, rfl⟩
    · exact ⟨_, _, rfl⟩
  obtain ⟨c, e, heq⟩ := hparts
  have hpos : (0 : ℚ) ≤ c * 10 ^ e :=
    mul_nonneg (Nat.cast_nonneg c) (zpow_nonneg (by norm_num) e)
  rw [heq, value_ofParts, if_pos rfl]
  linarith

theorem toDecimal_natCast {n : ℕ} (h : n ≤ 2 ^ 53) : toDecimal n = .ofParts false n 0 := by
  have hnonneg : ¬ (n : ℚ) < 0 := by
    rw [not_lt]
    positivity
  have hint : (n : ℚ).den = 1 ∧ (n : ℚ).num.natAbs ≤ 2 ^ 53 := by simpa using h
  rw [toDecimal, if_pos hint]
  simp [hnonneg]

end Double

/-! ## Texts -/

theorem isWhite_digit {u : UInt16} (h : isDigit u = true ∨ u = unit '-') : isWhite u = false := by
  have hle : u ≤ unit '9' := by
    rcases h with h | rfl
    · unfold isDigit at h
      simp only [Bool.and_eq_true, decide_eq_true_eq] at h
      exact h.2
    · decide
  have hge : unit '-' ≤ u := by
    rcases h with h | rfl
    · unfold isDigit at h
      simp only [Bool.and_eq_true, decide_eq_true_eq] at h
      exact UInt16.le_trans (by decide) h.1
    · decide
  have hlist : ∀ v ∈ ([0x09, 0x0A, 0x0B, 0x0C, 0x0D, 0x20, 0xA0, 0x1680, 0x2028, 0x2029, 0x202F,
      0x205F, 0x3000, 0xFEFF] : List UInt16), u ≠ v := by
    rintro v hv rfl
    simp only [List.mem_cons, List.not_mem_nil, or_false] at hv
    rcases hv with rfl | rfl | rfl | rfl | rfl | rfl | rfl | rfl | rfl | rfl | rfl | rfl | rfl | rfl <;>
      revert hle hge <;> decide
  have hrange : ¬ (0x2000 : UInt16) ≤ u := fun hlow =>
    absurd (UInt16.le_trans hlow hle) (by decide)
  unfold isWhite
  rw [Bool.or_eq_false_iff]
  refine ⟨?_, by simp [hrange]⟩
  rw [List.contains_eq_mem, decide_eq_false_iff_not]
  exact fun hmem => hlist u hmem rfl

/-- A text that starts like a number starts with it. -/
theorem trimStart_eq {u : UInt16} {us : JsString} (h : isDigit u = true ∨ u = unit '-') :
    JsString.trimStart (u :: us) = u :: us := by
  rw [JsString.trimStart, List.dropWhile_cons, isWhite_digit h]
  rfl

theorem readSign_plus {u : UInt16} {us : JsString} (h : isDigit u = true ∨ u = unit '-') :
    readSign true (u :: us) = readSign false (u :: us) := by
  have hplus : u ≠ unit '+' := by
    rintro rfl
    revert h
    decide
  simp [readSign, hplus]

/-- `parseFloat` reads what a number literal says. -/
theorem parseFloat_of_read {s : JsString} {d : Decimal}
    (h : readNumber JsNumber.finite s = some (.finite d, [])) :
    parseFloat s = .nearest d.value := by
  unfold readNumber at h
  simp only [Option.bind_eq_bind, Option.bind_eq_some_iff, Option.pure_def, Option.some.injEq,
    Prod.mk.injEq, JsNumber.finite.injEq, guard] at h
  cases hsign : readSign false s with
  | mk neg t =>
    rw [hsign] at h
    simp only at h
    obtain ⟨_, hguard, ⟨frac, r⟩, hfrac, ⟨e, r'⟩, hexp, hd, -⟩ := h
    have hwhole : t.takeWhile isDigit ≠ [] := by
      by_contra hnil
      simp [hnil] at hguard
    -- after the sign comes a digit
    obtain ⟨v, vs, rfl⟩ : ∃ v vs, t = v :: vs := by
      cases t with
      | nil => simp at hwhole
      | cons v vs => exact ⟨v, vs, rfl⟩
    have hv : isDigit v = true := by
      by_contra hv
      simp [hv] at hwhole
    obtain ⟨u, us, rfl, hu⟩ : ∃ u us, s = u :: us ∧ (isDigit u = true ∨ u = unit '-') := by
      cases s with
      | nil => simp [readSign] at hsign
      | cons u us =>
        refine ⟨u, us, rfl, ?_⟩
        by_cases hminus : u = unit '-'
        · exact Or.inr hminus
        · simp only [readSign, hminus, if_false, Bool.false_eq_true, false_and, Prod.mk.injEq,
            List.cons.injEq] at hsign
          rw [hsign.2.1]
          exact Or.inl hv
    have hinf : (js "Infinity").isPrefixOf (v :: vs) = false := by
      have hcons : js "Infinity" = unit 'I' :: js "nfinity" := by decide
      rw [hcons, List.isPrefixOf_cons_cons]
      have hne : (unit 'I' == v) = false := by
        rw [beq_eq_false_iff_ne]
        rintro rfl
        revert hv
        decide
      rw [hne, Bool.false_and]
    have hread : readDecimal (v :: vs) =
        some (natOfDigits ((v :: vs).takeWhile isDigit ++ frac), e - frac.length) := by
      have hsplit : splitFraction ((v :: vs).dropWhile isDigit) = (frac, r) := by
        cases hrest : (v :: vs).dropWhile isDigit with
        | nil =>
          rw [hrest] at hfrac
          simp only [readFraction, Option.some.injEq] at hfrac
          exact hfrac
        | cons w ws =>
          rw [hrest] at hfrac
          simp only [readFraction] at hfrac
          by_cases hpoint : w = unit '.'
          · rw [if_pos hpoint] at hfrac
            rw [splitFraction, if_pos hpoint]
            split_ifs at hfrac
            exact Option.some.inj hfrac
          · rw [if_neg hpoint] at hfrac
            rw [splitFraction, if_neg hpoint]
            exact Option.some.inj hfrac
      have hnil : ¬ ((v :: vs).takeWhile isDigit = [] ∧ frac = []) := fun hnil => hwhole hnil.1
      simp only [readDecimal, hsplit, if_neg hnil, hexp, Option.map_some, Option.getD_some]
    unfold parseFloat
    rw [trimStart_eq hu, readSign_plus hu, hsign]
    simp only [hinf, Bool.false_eq_true, if_false, hread]
    rw [← hd, value_ofParts]

/-- **The text of a positive double reads back as that double.** The decimal that is printed lies
nearest to it, and reading rounds to the nearest. -/
theorem parseFloat_toText {x : ℚ} (hx : 0 < x) (h : Double.Exact x) :
    parseFloat (Double.finite x).toText = .finite x := by
  have hstops : Stops [] := by
    intro u us heq
    simp at heq
  have hread := readNumber_toText JsNumber.finite (Double.toDecimal x) hstops
  rw [List.append_nil] at hread
  rw [Double.toText, parseFloat_of_read hread, Double.toDecimal_value hx h]

/-! ## Integers -/

theorem ofParts_toInt (n : ℕ) : (JsNumber.finite (.ofParts false n 0)).toInt? = some (n : ℤ) := by
  rcases eq_or_ne n 0 with rfl | hn
  · rfl
  -- stripping only moves factors of ten into the exponent
  have hexp : ∀ (fuel c : ℕ) (e : ℤ), c ≠ 0 → c ≤ fuel → 0 ≤ e →
      0 ≤ (Decimal.strip fuel c e).exp := by
    intro fuel
    induction fuel with
    | zero => intro c e hc hle _; omega
    | succ fuel ih =>
      intro c e hc hle he
      rw [Decimal.strip]
      split
      · exact he
      · exact ih (c / 10) (e + 1) (by omega) (by omega) (by omega)
  obtain ⟨hcoeff, hvalue⟩ := strip_value hn n 0 le_rfl
  have hnonneg := hexp n n 0 hn le_rfl le_rfl
  rw [Decimal.ofParts, dif_pos hcoeff, JsNumber.toInt?]
  simp only [hnonneg, if_true, Bool.false_eq_true, if_false, one_mul]
  congr 1
  rw [zpow_zero, mul_one] at hvalue
  have hsplit : ((Decimal.strip n n 0).exp.toNat : ℤ) = (Decimal.strip n n 0).exp := by omega
  rw [← hsplit, zpow_natCast] at hvalue
  exact_mod_cast hvalue

theorem value_of_toInt? {d : Decimal} {i : ℤ} (h : (JsNumber.finite d).toInt? = some i) :
    d.value = i := by
  unfold JsNumber.toInt? at h
  simp only at h
  split at h
  · next hexp =>
    obtain ⟨k, hk⟩ := Int.eq_ofNat_of_zero_le hexp
    rw [hk, Int.toNat_natCast] at h
    rw [Decimal.value, hk, zpow_natCast, ← Option.some.inj h]
    cases d.neg with
    | true => simp
    | false => simp
  · cases h

/-- **When a double is printed as a positive integer**, or as `0`: exactly when it is that integer.
Below 2^53 every integer is a double. -/
theorem toDecimal_toInt? {x : ℚ} (h : Double.Exact x) {n : ℕ} (hn : n ≤ 2 ^ 53)
    (hsign : 0 ≤ x ∨ 1 ≤ n) :
    (JsNumber.finite (Double.toDecimal x)).toInt? = some (n : ℤ) ↔ x = n := by
  constructor
  · intro hint
    have hvalue : (Double.toDecimal x).value = (n : ℤ) := value_of_toInt? hint
    rcases lt_trichotomy x 0 with hneg | rfl | hpos
    · -- a negative number has no positive value
      have hcast : ((n : ℤ) : ℚ) ≤ 0 := hvalue ▸ Double.toDecimal_nonpos hneg
      have hzero : (n : ℤ) ≤ 0 := by exact_mod_cast hcast
      rcases hsign with hge | hone
      · linarith
      · omega
    · have hzero := Double.toDecimal_natCast (Nat.zero_le (2 ^ 53))
      rw [Nat.cast_zero] at hzero
      rw [hzero, ofParts_toInt, Option.some.injEq] at hint
      rw [← Int.natCast_inj.1 hint, Nat.cast_zero]
    · have hnear := Double.toDecimal_value hpos h
      rw [hvalue, Int.cast_natCast] at hnear
      have hexact : Double.nearest n = .finite n := Double.exact_natCast hn
      exact (Double.finite.inj (hexact.symm.trans hnear)).symm
  · rintro rfl
    rw [Double.toDecimal_natCast hn]
    exact ofParts_toInt n

theorem ofNat_eq_ofParts (n : ℕ) : Decimal.ofNat n = .ofParts false n 0 := by
  have hneg : ∀ (fuel c : ℕ) (e : ℤ), (Decimal.strip fuel c e).neg = false := by
    intro fuel
    induction fuel with
    | zero => intro c e; rfl
    | succ fuel ih =>
      intro c e
      rw [Decimal.strip]
      split
      · rfl
      · exact ih (c / 10) (e + 1)
  have hform : ∀ (d : Decimal), d.neg = false → ∀ h, d = ⟨false, d.coeff, d.exp, h⟩ := by
    rintro ⟨neg, coeff, exp, _⟩ rfl _
    rfl
  have hn := hneg n n 0
  unfold Decimal.ofNat Decimal.ofParts
  split
  · exact hform _ hn _
  · next h =>
    -- nothing but zero has a last digit that is zero
    have hzero : n = 0 := by
      by_contra hne
      exact h (strip_value hne n 0 le_rfl).1
    subst hzero
    rfl

theorem value_ofNat (n : ℕ) : (Decimal.ofNat n).value = n := by
  rw [ofNat_eq_ofParts, value_ofParts]
  simp

/-- An integer that is a double reads as itself. -/
theorem ofLiteral_ofNat {n : ℕ} (h : n ≤ 2 ^ 53) :
    JsNumber.ofLiteral (.ofNat n) = .finite (.ofNat n) := by
  have hvalue := value_ofNat n
  have hexact : Double.nearest n = .finite n := Double.exact_natCast h
  rw [JsNumber.ofLiteral, hvalue, hexact, Double.toNumber, Option.getD_some,
    Double.toDecimal_natCast h, ofNat_eq_ofParts]

theorem toText_integer {n : ℕ} (hn : n ≠ 0) (hlt : n < 10 ^ 21) :
    DigitsOf n (JsNumber.finite (.ofParts false n 0)).toText := by
  have hint := ofParts_toInt n
  set d := Decimal.ofParts false n 0 with hd
  have hneg : d.neg = false := by
    rw [hd]
    unfold Decimal.ofParts
    split <;> rfl
  simp only [JsNumber.toInt?, hneg, Bool.false_eq_true, if_false, one_mul,
    Option.ite_none_right_eq_some, Option.some.injEq] at hint
  obtain ⟨hexp, hvalue⟩ := hint
  have hvalue : d.coeff * 10 ^ d.exp.toNat = n := by exact_mod_cast hvalue
  have hcoeff : d.coeff ≠ 0 := by
    intro hzero
    rw [hzero, Nat.zero_mul] at hvalue
    exact hn hvalue.symm
  have hds := digitsOf_spec d.coeff
  have hlen : (digitsOf d.coeff).length + d.exp.toNat ≤ 21 := by
    -- one digit less would fit below a smaller power of ten
    have hpow : 10 ^ ((digitsOf d.coeff).length - 1) ≤ d.coeff := by
      rcases Nat.lt_or_ge 1 (digitsOf d.coeff).length with hlong | hshort
      · by_contra hsmall
        have hle := (Nat.length_toDigits_le_iff (b := 10) (n := d.coeff)
          (k := (digitsOf d.coeff).length - 1) (by omega) (by omega)).2 (by omega)
        rw [digitsOf, List.length_map] at hlong hle
        omega
      · rw [show (digitsOf d.coeff).length - 1 = 0 by omega, pow_zero]
        omega
    have hprod : 10 ^ ((digitsOf d.coeff).length - 1 + d.exp.toNat) < 10 ^ 21 := by
      rw [pow_add]
      exact (Nat.mul_le_mul_right _ hpow).trans_lt (by omega)
    have hlt' := (Nat.pow_lt_pow_iff_right (by omega)).1 hprod
    have hpos := List.length_pos_of_ne_nil hds.nonempty
    omega
  have htext : (JsNumber.finite d).toText =
      digitsOf d.coeff ++ List.replicate d.exp.toNat (unit '0') := by
    have hlayout : ((digitsOf d.coeff).length : ℤ) ≤ d.exp + (digitsOf d.coeff).length ∧
        d.exp + (digitsOf d.coeff).length ≤ 21 := by omega
    have hzeros : (d.exp + (digitsOf d.coeff).length - (digitsOf d.coeff).length).toNat =
        d.exp.toNat := by omega
    rw [JsNumber.toText, if_neg hcoeff]
    simp only [hlayout, and_self, if_true, hneg, Bool.false_eq_true, if_false, hzeros]
  have hlayout := @layout_integer _ _ hds hcoeff d.exp d.exp.toNat (by omega)
  rw [htext]
  refine ⟨hlayout.digits, ?_, hlayout.nonempty, fun _ => ?_⟩
  · rw [natOfDigits_append_zeros, hds.value, hvalue]
  · rw [List.head?_append_of_ne_nil _ hds.nonempty]
    exact hds.head hcoeff

theorem parseInt_digits {n : ℕ} {s : JsString} (h : DigitsOf n s) (hn : n ≤ 2 ^ 53) :
    parseInt s = .finite n := by
  obtain ⟨u, us, rfl⟩ := List.exists_cons_of_ne_nil h.nonempty
  have hu : isDigit u = true := h.digits u (by simp)
  have hminus : u ≠ unit '-' := by
    rintro rfl
    revert hu
    decide
  have hsign : readSign false (u :: us) = (false, u :: us) := by simp [readSign, hminus]
  have hall : (u :: us).takeWhile isDigit = u :: us := by
    have htake := takeWhile_digits (s := []) h.digits fun _ _ heq => by cases heq
    rwa [List.append_nil] at htake
  unfold parseInt
  rw [trimStart_eq (Or.inl hu), readSign_plus (Or.inl hu), hsign]
  simp only [hall, h.value, reduceCtorEq, if_false, Bool.false_eq_true, one_mul]
  exact Double.exact_natCast hn

theorem parseCount_digits {n : ℕ} {s : JsString} (h : DigitsOf n s) (hpos : n ≠ 0)
    (hn : n ≤ 2 ^ 53) : parseCount s = .finite (.ofParts false n 0) := by
  have hne : (n : ℚ) ≠ 0 := by exact_mod_cast hpos
  rw [parseCount, parseInt_digits h hn]
  simp only [hne, if_false, Double.toDecimal_natCast hn]

/-- **The text of a positive integer reads back as the integer**, up to 2^53, however its digits
are grouped by the printing of numbers. -/
theorem parseCount_toText {x : JsNumber} {n : ℕ} (hx : x.toInt? = some (n : ℤ)) (hpos : n ≠ 0)
    (hn : n ≤ 2 ^ 53) : parseCount x.toText = x := by
  have hparts := toInt?_ofParts hx
  have hsign : decide ((n : ℤ) < 0) = false := by
    rw [decide_eq_false_iff_not]
    omega
  rw [hsign, Int.natAbs_natCast] at hparts
  rw [hparts]
  exact parseCount_digits (toText_integer hpos (by omega)) hpos hn

/-! ## Hours -/

/-- Rounding moves a number of ordinary size by at most one part in `2 ^ 53`. -/
theorem Double.nearest_close {q : ℚ} (hlo : 2 ^ (-(22 : ℤ)) ≤ q) (hhi : q ≤ 2 ^ 52) :
    ∃ y, Double.nearest q = .finite y ∧ Double.Exact y ∧ 0 < y ∧ q - q / 2 ^ 53 ≤ y ∧
      y ≤ q + q / 2 ^ 53 := by
  have hq : 0 < q := (zpow_pos (by norm_num) _).trans_le hlo
  have hnormal : (2 : ℚ) ^ ((-1074 : ℤ) + (53 : ℕ) - 1) ≤ |q| := by
    have hsmall : (2 : ℚ) ^ ((-1074 : ℤ) + (53 : ℕ) - 1) ≤ 2 ^ (-(22 : ℤ)) :=
      zpow_le_zpow_right₀ (by norm_num) (by norm_num)
    rw [abs_of_pos hq]
    exact hsmall.trans hlo
  have herr := Rounding.round_relative hnormal
  rw [abs_of_pos hq, abs_le] at herr
  have hhalf : q / 2 ^ 53 ≤ q / 2 := div_le_div_of_nonneg_left hq.le (by norm_num) (by norm_num)
  have hpos : 0 < Rounding.round 53 (-1074) q := by linarith [herr.1]
  have hlt : |Rounding.round 53 (-1074) q| < 2 ^ 1024 := by
    have hbound : Rounding.round 53 (-1074) q ≤ 2 ^ 53 := by
      have hdouble : (2 : ℚ) ^ 53 = 2 ^ 52 + 2 ^ 52 := by norm_num
      linarith [herr.2]
    rw [abs_of_pos hpos]
    exact hbound.trans_lt Double.two_pow_lt
  have hnearest : Double.nearest q = .finite (Rounding.round 53 (-1074) q) := by
    simp only [Double.nearest, if_pos hlt]
  exact ⟨_, hnearest, Double.exact_nearest hnearest, hpos, by linarith [herr.1],
    by linarith [herr.2]⟩

/-- **Milliseconds, as hours, are milliseconds again.** Dividing and multiplying both round, but
for up to a day the error stays below one half, so that the final rounding finds the integer. -/
theorem hours_roundTrip {x : JsNumber} {n : ℕ} (hx : x.toInt? = some (n : ℤ)) (hpos : 1 ≤ n)
    (hn : n ≤ 86400000) : ∃ y, parseFloat (x.toDouble.divBy 3600000).toText = .finite y ∧ 0 < y ∧
      ((Double.finite y).mul (.finite 3600000)).round.toNumber = some x := by
  have hparts := toInt?_ofParts hx
  have hsign : decide ((n : ℤ) < 0) = false := by
    rw [decide_eq_false_iff_not]
    omega
  rw [hsign, Int.natAbs_natCast] at hparts
  have hdouble : x.toDouble = .finite n := by
    rw [hparts, JsNumber.toDouble, value_ofParts, zpow_zero, mul_one]
    simp only [Bool.false_eq_true, if_false, one_mul]
    exact Double.exact_natCast (by omega)
  have hn1 : (1 : ℚ) ≤ n := by exact_mod_cast hpos
  have hn2 : (n : ℚ) ≤ 86400000 := by exact_mod_cast hn
  -- the quotient, in hours
  have hqlo : (2 : ℚ) ^ (-(22 : ℤ)) ≤ n / 3600000 := by
    have hone : (1 : ℚ) / 3600000 ≤ n / 3600000 := div_le_div_of_nonneg_right hn1 (by norm_num)
    exact le_trans (by norm_num) hone
  have hqhi : (n : ℚ) / 3600000 ≤ 24 := by
    rw [div_le_iff₀ (by norm_num)]
    linarith
  obtain ⟨y, hquot, hexact, hypos, hylo, hyhi⟩ :=
    Double.nearest_close hqlo (hqhi.trans (by norm_num))
  have hhours : x.toDouble.divBy 3600000 = .finite y := by
    rw [hdouble]
    exact hquot
  refine ⟨y, by rw [hhours, parseFloat_toText hypos hexact], hypos, ?_⟩
  -- the product, in milliseconds again: the two errors stay below one half
  have hzlo : n - n / 2 ^ 53 ≤ y * 3600000 := by
    have hmul := mul_le_mul_of_nonneg_right hylo (show (0 : ℚ) ≤ 3600000 by norm_num)
    have hexpand : ((n : ℚ) / 3600000 - n / 3600000 / 2 ^ 53) * 3600000 = n - n / 2 ^ 53 := by ring
    linarith
  have hzhi : y * 3600000 ≤ n + n / 2 ^ 53 := by
    have hmul := mul_le_mul_of_nonneg_right hyhi (show (0 : ℚ) ≤ 3600000 by norm_num)
    have hexpand : ((n : ℚ) / 3600000 + n / 3600000 / 2 ^ 53) * 3600000 = n + n / 2 ^ 53 := by ring
    linarith
  have hsmall : (n : ℚ) / 2 ^ 53 ≤ 1 / 8 := by
    rw [div_le_iff₀ (by norm_num)]
    norm_num
    linarith
  have hwide : (2 : ℚ) ^ (-(22 : ℤ)) ≤ y * 3600000 ∧ y * 3600000 ≤ 2 ^ 52 := by
    constructor
    · exact le_trans (by norm_num) (show (1 : ℚ) / 2 ≤ y * 3600000 by linarith)
    · exact le_trans (show y * 3600000 ≤ 86400001 by linarith) (by norm_num)
  obtain ⟨w, hprod, -, -, hwlo, hwhi⟩ := Double.nearest_close hwide.1 hwide.2
  have hzsmall : y * 3600000 / 2 ^ 53 ≤ 1 / 8 := by
    rw [div_le_iff₀ (by norm_num)]
    norm_num
    linarith
  have hmul : (Double.finite y).mul (.finite 3600000) = .finite w := hprod
  have hround : ⌊w + 1 / 2⌋ = (n : ℤ) := by
    rw [Int.floor_eq_iff]
    push_cast
    constructor <;> linarith
  rw [hmul]
  simp only [Double.round, hround, Double.toNumber, Int.cast_natCast]
  rw [Double.toDecimal_natCast (by omega), hparts]

end Signbox
