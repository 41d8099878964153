import Mathlib.Data.Int.Log
import Mathlib.Data.Rat.Floor
import Mathlib.Tactic.FieldSimp
import Mathlib.Tactic.Linarith
import Mathlib.Tactic.Positivity
import Mathlib.Tactic.Ring

/-!
# Rounding to a binary format

A binary format has `p` significant bits and a least exponent `emin`: its values are the
`m * 2 ^ e` with `|m| ≤ 2 ^ p` and `emin ≤ e`. A rational is rounded to the nearest value, and
between two nearest ones to the even one.

* `round_representable`, `round_of_representable`: rounding lands in the format and leaves what
  is in it.
* `round_mono`: it keeps the order.
* `round_error`, `round_relative`: how far it moves.
-/

namespace Rounding

/-- The nearest integer, ties to even. -/
def roundEven (q : ℚ) : ℤ :=
  if q - ⌊q⌋ < 1 / 2 then ⌊q⌋
  else if 1 / 2 < q - ⌊q⌋ then ⌊q⌋ + 1
  else if ⌊q⌋ % 2 = 0 then ⌊q⌋
  else ⌊q⌋ + 1

/-- The exponent of the last bit kept of `q`. -/
def lastBit (p : ℕ) (emin : ℤ) (q : ℚ) : ℤ := max (Int.log 2 |q| + 1 - p) emin

/-- The value of the format nearest to `q`, with exponents unbounded above. -/
def round (p : ℕ) (emin : ℤ) (q : ℚ) : ℚ :=
  roundEven (q / 2 ^ lastBit p emin q) * 2 ^ lastBit p emin q

/-! ## Integers -/

theorem roundEven_error (q : ℚ) : |(roundEven q : ℚ) - q| ≤ 1 / 2 := by
  have hlo : (⌊q⌋ : ℚ) ≤ q := Int.floor_le q
  have hhi : q < ⌊q⌋ + 1 := Int.lt_floor_add_one q
  unfold roundEven
  split_ifs <;> rw [abs_le] <;> push_cast <;> constructor <;> linarith

theorem roundEven_intCast (n : ℤ) : roundEven n = n := by
  unfold roundEven
  rw [Int.floor_intCast, sub_self, if_pos (by norm_num)]

theorem roundEven_mono {a b : ℚ} (h : a ≤ b) : roundEven a ≤ roundEven b := by
  rcases h.eq_or_lt with rfl | hlt
  · exact le_rfl
  have hfloor : ⌊a⌋ ≤ ⌊b⌋ := Int.floor_le_floor h
  have hfa : roundEven a ≤ ⌊a⌋ + 1 := by unfold roundEven; split_ifs <;> omega
  have hfb : ⌊b⌋ ≤ roundEven b := by unfold roundEven; split_ifs <;> omega
  rcases hfloor.eq_or_lt with heq | hlt'
  · -- the same integer part: the fractions decide, and a tie is decided by that part
    unfold roundEven
    rw [heq]
    split_ifs <;> first | omega | (exfalso; linarith)
  · omega

/-! ## The format -/

/-- The values of the format. -/
def Representable (p : ℕ) (emin : ℤ) (q : ℚ) : Prop :=
  ∃ m e : ℤ, q = m * 2 ^ e ∧ |m| ≤ 2 ^ p ∧ emin ≤ e

variable {p : ℕ} {emin : ℤ} {q r : ℚ}

theorem two_zpow_pos (e : ℤ) : (0 : ℚ) < 2 ^ e := zpow_pos (by norm_num) e

theorem round_zero : round p emin 0 = 0 := by
  have h := roundEven_intCast 0
  rw [Int.cast_zero] at h
  rw [round, zero_div, h, Int.cast_zero, zero_mul]

theorem round_nonneg (h : 0 ≤ q) : 0 ≤ round p emin q := by
  have hscaled : ((0 : ℤ) : ℚ) ≤ q / 2 ^ lastBit p emin q := by
    rw [Int.cast_zero]
    exact div_nonneg h (two_zpow_pos _).le
  have hmono : roundEven ((0 : ℤ) : ℚ) ≤ roundEven (q / 2 ^ lastBit p emin q) :=
    roundEven_mono hscaled
  rw [roundEven_intCast] at hmono
  exact mul_nonneg (by exact_mod_cast hmono) (two_zpow_pos _).le

/-- The bits kept of `q` fill at most the format's width. -/
theorem scaled_lt (q : ℚ) : |q / 2 ^ lastBit p emin q| < 2 ^ p := by
  rcases eq_or_ne q 0 with rfl | hq
  · rw [zero_div, abs_zero]
    positivity
  have hlog : |q| < (2 : ℚ) ^ (Int.log 2 |q| + 1) := by
    have h := Int.lt_zpow_succ_log_self (b := 2) (by norm_num) |q|
    exact_mod_cast h
  have hle : Int.log 2 |q| + 1 ≤ p + lastBit p emin q := by
    unfold lastBit
    omega
  rw [abs_div, abs_of_pos (two_zpow_pos _), div_lt_iff₀ (two_zpow_pos _), ← zpow_natCast,
    ← zpow_add₀ (by norm_num)]
  exact hlog.trans_le (zpow_le_zpow_right₀ (by norm_num) hle)

theorem roundEven_abs_le {n : ℕ} (h : |q| ≤ n) : |roundEven q| ≤ n := by
  rw [abs_le] at h ⊢
  constructor
  · have hmono := roundEven_mono h.1
    rwa [show -(n : ℚ) = ((-(n : ℤ) : ℤ) : ℚ) by push_cast; rfl, roundEven_intCast] at hmono
  · have hmono := roundEven_mono h.2
    rwa [show (n : ℚ) = ((n : ℤ) : ℚ) by push_cast; rfl, roundEven_intCast] at hmono

/-- **Rounding lands in the format**: at most `p` binary digits, none of them below the least
exponent. -/
theorem round_representable (q : ℚ) : Representable p emin (round p emin q) := by
  refine ⟨_, _, rfl, ?_, le_max_right _ _⟩
  have h : |q / 2 ^ lastBit p emin q| ≤ ((2 ^ p : ℕ) : ℚ) := by
    push_cast
    exact (scaled_lt q).le
  have hle := roundEven_abs_le h
  push_cast at hle
  exact hle

/-- An integer multiple of its last bit is left alone. -/
theorem round_of_dvd {m : ℤ} {e : ℤ} (hq : q = m * 2 ^ e) (he : lastBit p emin q ≤ e) :
    round p emin q = q := by
  obtain ⟨k, hk⟩ := Int.eq_ofNat_of_zero_le (sub_nonneg.2 he)
  have hscaled : q / 2 ^ lastBit p emin q = ((m * 2 ^ k : ℤ) : ℚ) := by
    have hsplit : e = (k : ℤ) + lastBit p emin q := by omega
    rw [div_eq_iff (two_zpow_pos _).ne']
    push_cast
    conv_lhs => rw [hq, hsplit]
    rw [zpow_add₀ (by norm_num), zpow_natCast]
    ring
  rw [round, hscaled, roundEven_intCast, ← hscaled, div_mul_cancel₀ _ (two_zpow_pos _).ne']

/-- **Rounding leaves what is in the format.** Together with the order this makes it the nearest
element, which is all that the doubles below use of it. -/
theorem round_of_representable (hp : 1 ≤ p) (h : Representable p emin q) :
    round p emin q = q := by
  obtain ⟨m, e, rfl, hm, he⟩ := h
  rcases eq_or_ne m 0 with rfl | hm0
  · rw [Int.cast_zero, zero_mul, round_zero]
  have hpos : 0 < |(m : ℚ) * 2 ^ e| := abs_pos.2 (mul_ne_zero (by exact_mod_cast hm0)
    (two_zpow_pos e).ne')
  have hm' : |(m : ℚ)| ≤ 2 ^ p := by exact_mod_cast hm
  have habs : |(m : ℚ) * 2 ^ e| ≤ 2 ^ ((p : ℤ) + e) := by
    rw [abs_mul, abs_of_pos (two_zpow_pos e), zpow_add₀ (by norm_num), zpow_natCast]
    exact mul_le_mul_of_nonneg_right hm' (two_zpow_pos e).le
  have hlog : (2 : ℚ) ^ Int.log 2 |(m : ℚ) * 2 ^ e| ≤ |(m : ℚ) * 2 ^ e| := by
    have h := Int.zpow_log_le_self (b := 2) (by norm_num) hpos
    exact_mod_cast h
  have hle : Int.log 2 |(m : ℚ) * 2 ^ e| ≤ p + e :=
    (zpow_le_zpow_iff_right₀ (by norm_num)).1 (hlog.trans habs)
  rcases hle.eq_or_lt with heq | hlt
  · -- a power of two, one bit longer than the width
    have htop : |(m : ℚ) * 2 ^ e| = 2 ^ ((p : ℤ) + e) := le_antisymm habs (heq ▸ hlog)
    rw [abs_mul, abs_of_pos (two_zpow_pos e), zpow_add₀ (by norm_num), zpow_natCast] at htop
    have hmabs : |(m : ℚ)| = 2 ^ p := mul_right_cancel₀ (two_zpow_pos e).ne' htop
    have hm2 : |m| = 2 ^ p := by exact_mod_cast hmabs
    obtain ⟨k, rfl⟩ : ∃ k, p = k + 1 := ⟨p - 1, by omega⟩
    obtain ⟨s, hs⟩ : ∃ s : ℤ, m = s * 2 := by
      rcases abs_choice m with h | h
      · exact ⟨2 ^ k, by rw [← h, hm2]; ring⟩
      · exact ⟨-2 ^ k, by rw [h] at hm2; rw [← neg_neg m, hm2]; ring⟩
    refine round_of_dvd (m := s) (e := e + 1) ?_ ?_
    · rw [hs, zpow_add₀ (by norm_num), zpow_one]
      push_cast
      ring
    · unfold lastBit
      omega
  · exact round_of_dvd rfl (by unfold lastBit; omega)

theorem representable_intCast {n : ℤ} (h : |n| ≤ 2 ^ p) (he : emin ≤ 0) :
    Representable p emin n := ⟨n, 0, by rw [zpow_zero, mul_one], h, he⟩

/-- **Rounding keeps the order** of the non-negative rationals. Two numbers may become one, but
they never change places. -/
theorem round_mono (hp : 1 ≤ p) (hq : 0 ≤ q) (h : q ≤ r) : round p emin q ≤ round p emin r := by
  rcases hq.eq_or_lt with rfl | hpos
  · rw [round_zero]
    exact round_nonneg h
  have hr : 0 < r := hpos.trans_le h
  have hlog : Int.log 2 q ≤ Int.log 2 r := Int.log_mono_right hpos h
  have hbits : lastBit p emin q ≤ lastBit p emin r := by
    unfold lastBit
    rw [abs_of_pos hpos, abs_of_pos hr]
    omega
  unfold round
  -- rounded at one last bit, the two are scaled alike
  rcases hbits.eq_or_lt with heq | hlt
  · rw [heq]
    have hscaled : q / 2 ^ lastBit p emin r ≤ r / 2 ^ lastBit p emin r :=
      div_le_div_of_nonneg_right h (two_zpow_pos _).le
    exact mul_le_mul_of_nonneg_right (by exact_mod_cast roundEven_mono hscaled)
      (two_zpow_pos _).le
  · -- a power of two lies between them
    have hlast : lastBit p emin r = Int.log 2 r + 1 - p := by
      unfold lastBit at hlt ⊢
      rw [abs_of_pos hr] at hlt ⊢
      omega
    have hlow : |roundEven (q / 2 ^ lastBit p emin q)| ≤ (2 ^ p : ℕ) := by
      refine roundEven_abs_le ?_
      push_cast
      exact (scaled_lt q).le
    have hupper : ((2 ^ (p - 1) : ℕ) : ℤ) ≤ roundEven (r / 2 ^ lastBit p emin r) := by
      have hpow : (2 : ℚ) ^ Int.log 2 r ≤ r := by
        have hle := Int.zpow_log_le_self (b := 2) (by norm_num) hr
        exact_mod_cast hle
      have hge : (((2 ^ (p - 1) : ℕ) : ℤ) : ℚ) ≤ r / 2 ^ lastBit p emin r := by
        rw [le_div_iff₀ (two_zpow_pos _), hlast]
        push_cast
        rw [← zpow_natCast, ← zpow_add₀ (by norm_num)]
        have hexp : ((p - 1 : ℕ) : ℤ) + (Int.log 2 r + 1 - p) = Int.log 2 r := by omega
        rw [hexp]
        exact hpow
      have hmono := roundEven_mono hge
      rwa [roundEven_intCast] at hmono
    -- the smaller one has at most `p` bits, the larger one at least the top one of its `p`
    calc (roundEven (q / 2 ^ lastBit p emin q) : ℚ) * 2 ^ lastBit p emin q
        ≤ 2 ^ p * 2 ^ lastBit p emin q := by
          refine mul_le_mul_of_nonneg_right ?_ (two_zpow_pos _).le
          have hle := (abs_le.1 hlow).2
          exact_mod_cast hle
      _ ≤ 2 ^ (p - 1) * 2 ^ lastBit p emin r := by
          rw [← zpow_natCast, ← zpow_natCast, ← zpow_add₀ (by norm_num), ← zpow_add₀ (by norm_num)]
          exact zpow_le_zpow_right₀ (by norm_num) (by omega)
      _ ≤ roundEven (r / 2 ^ lastBit p emin r) * 2 ^ lastBit p emin r := by
          refine mul_le_mul_of_nonneg_right ?_ (two_zpow_pos _).le
          exact_mod_cast hupper

/-! ## The error -/

theorem round_error (q : ℚ) : |round p emin q - q| ≤ 2 ^ lastBit p emin q / 2 := by
  have h := roundEven_error (q / 2 ^ lastBit p emin q)
  have hpos := two_zpow_pos (lastBit p emin q)
  have hsplit : round p emin q - q =
      (roundEven (q / 2 ^ lastBit p emin q) - q / 2 ^ lastBit p emin q) *
        2 ^ lastBit p emin q := by
    rw [round, sub_mul, div_mul_cancel₀ _ hpos.ne']
  rw [hsplit, abs_mul, abs_of_pos hpos]
  linarith [mul_le_mul_of_nonneg_right h hpos.le]

/-- In the normal range the error is at most half of the last bit, relative to the value. -/
theorem round_relative (h : 2 ^ (emin + p - 1) ≤ |q|) :
    |round p emin q - q| ≤ |q| / 2 ^ p := by
  have hq : 0 < |q| := (two_zpow_pos _).trans_le h
  have hlog : emin + p - 1 ≤ Int.log 2 |q| := by
    have hle := (Int.zpow_le_iff_le_log (b := 2) (x := emin + p - 1) (by norm_num) hq).1
    exact hle (by exact_mod_cast h)
  have hbit : lastBit p emin q = Int.log 2 |q| + 1 - p := by
    unfold lastBit
    omega
  have hpow : (2 : ℚ) ^ Int.log 2 |q| ≤ |q| := by
    have h := Int.zpow_log_le_self (b := 2) (by norm_num) hq
    exact_mod_cast h
  refine (round_error q).trans ?_
  rw [hbit, zpow_sub₀ (by norm_num), zpow_add₀ (by norm_num), zpow_one, zpow_natCast]
  have h2 : (0 : ℚ) < 2 ^ p := by positivity
  have hhalf : (2 : ℚ) ^ Int.log 2 |q| * 2 / 2 ^ p / 2 = 2 ^ Int.log 2 |q| / 2 ^ p := by ring
  rw [hhalf]
  exact div_le_div_of_nonneg_right hpow h2.le

end Rounding
