import Signbox.Spec.Parse
import Mathlib.Tactic.Ring

/-!
# Reading strings and numbers back

`JSON.parse` inverts `JSON.stringify` on the two kinds of text that are not made of other
values: string literals, unit by unit, and number literals, in each of the four layouts of
`Number::toString`.

* `readChars_escapeUnits`: the escaped body of a string, up to its closing quote.
* `readNumber_toText`: the text of a decimal, up to the end of the value.
-/

namespace Signbox

namespace JsonText

/-! ## Strings -/

theorem hexValue?_hexDigit {n : ℕ} (h : n < 16) : hexValue? (hexDigit n) = some n := by
  have hall : ∀ m, m < 16 → hexValue? (hexDigit m) = some m := by decide
  exact hall n h

/-- The four digits of an escape give the unit back. -/
theorem hex4_digits (u : UInt16) :
    hex4 (hexDigit (u.toNat / 4096 % 16)) (hexDigit (u.toNat / 256 % 16))
      (hexDigit (u.toNat / 16 % 16)) (hexDigit (u.toNat % 16)) = some u := by
  have hlt := u.toNat_lt
  have hvalue : u.toNat / 4096 % 16 * 4096 + u.toNat / 256 % 16 * 256 + u.toNat / 16 % 16 * 16
      + u.toNat % 16 = u.toNat := by omega
  unfold hex4
  rw [hexValue?_hexDigit (by omega), hexValue?_hexDigit (by omega), hexValue?_hexDigit (by omega),
    hexValue?_hexDigit (by omega)]
  simp only [Option.bind_eq_bind, Option.bind_some, Option.pure_def, hvalue]
  exact congrArg some UInt16.ofNat_toNat

/-- A literal that starts with a unit: the unit and the rest of the literal. -/
def pushUnit (u : UInt16) (p : JsString × JsString) : JsString × JsString := (u :: p.1, p.2)

theorem readChars_plain {u : UInt16} (hquote : u ≠ unit '"') (hback : u ≠ unit '\\')
    (hctrl : ¬ u < 0x20) (us : JsString) :
    readChars (u :: us) = (readChars us).map (pushUnit u) := by
  rw [readChars.eq_def]
  simp only [hquote, hback, hctrl, if_false]
  cases readChars us <;> rfl

theorem readChars_simple {e x : UInt16} (hx : simpleEscape e = some x) (he : e ≠ unit 'u')
    (us : JsString) :
    readChars (unit '\\' :: e :: us) = (readChars us).map (pushUnit x) := by
  have hq : unit '\\' ≠ unit '"' := by decide
  rw [readChars.eq_def]
  simp only [hq, he, hx, if_false, if_true, Option.bind_eq_bind, Option.bind_some]
  cases readChars us <;> rfl

theorem readChars_unicode (u : UInt16) (us : JsString) :
    readChars (unicodeEscape u ++ us) = (readChars us).map (pushUnit u) := by
  have hq : unit '\\' ≠ unit '"' := by decide
  have hjs : js "\\u" = [unit '\\', unit 'u'] := by decide
  unfold unicodeEscape
  rw [hjs, readChars.eq_def]
  simp only [List.cons_append, List.nil_append, hq, hex4_digits, if_false, if_true,
    Option.bind_eq_bind, Option.bind_some]
  cases readChars us <;> rfl

/-- Each escape reads back as its unit. -/
theorem readChars_escapeUnit (u : UInt16) (us : JsString) :
    readChars (escapeUnit u ++ us) = (readChars us).map (pushUnit u) := by
  have two : ∀ {e : Char} {x : UInt16} {s : String}, js s = [unit '\\', unit e] →
      simpleEscape (unit e) = some x → unit e ≠ unit 'u' →
      readChars (js s ++ us) = (readChars us).map (pushUnit x) := by
    intro e x s hs hx he
    rw [hs]
    exact readChars_simple hx he us
  unfold escapeUnit
  by_cases h : u = unit '"'
  · rw [if_pos h, h]
    exact two (e := '"') (by decide) (by decide) (by decide)
  rw [if_neg h]
  by_cases hb : u = unit '\\'
  · rw [if_pos hb, hb]
    exact two (e := '\\') (by decide) (by decide) (by decide)
  rw [if_neg hb]
  by_cases h8 : u = 0x08
  · rw [if_pos h8, h8]
    exact two (e := 'b') (by decide) (by decide) (by decide)
  rw [if_neg h8]
  by_cases h9 : u = 0x09
  · rw [if_pos h9, h9]
    exact two (e := 't') (by decide) (by decide) (by decide)
  rw [if_neg h9]
  by_cases hA : u = 0x0A
  · rw [if_pos hA, hA]
    exact two (e := 'n') (by decide) (by decide) (by decide)
  rw [if_neg hA]
  by_cases hC : u = 0x0C
  · rw [if_pos hC, hC]
    exact two (e := 'f') (by decide) (by decide) (by decide)
  rw [if_neg hC]
  by_cases hD : u = 0x0D
  · rw [if_pos hD, hD]
    exact two (e := 'r') (by decide) (by decide) (by decide)
  rw [if_neg hD]
  -- what is left is written as `\uXXXX`, or as itself
  by_cases hesc : (u < 0x20 || isHighSurrogate u || isLowSurrogate u) = true
  · rw [if_pos hesc]
    exact readChars_unicode u us
  · rw [if_neg hesc]
    have hctrl : ¬ u < 0x20 := by
      intro hlt
      simp [hlt] at hesc
    exact readChars_plain h hb hctrl us

theorem surrogate_plain {u : UInt16} (h : isHighSurrogate u = true ∨ isLowSurrogate u = true) :
    u ≠ unit '"' ∧ u ≠ unit '\\' ∧ ¬ u < 0x20 := by
  have hge : 0xD800 ≤ u.toNat := by
    rcases h with h | h
    · have := (Bool.and_eq_true_iff.1 h).1
      simpa [UInt16.le_iff_toNat_le] using this
    · have := (Bool.and_eq_true_iff.1 h).1
      have : 0xDC00 ≤ u.toNat := by simpa [UInt16.le_iff_toNat_le] using this
      omega
  refine ⟨?_, ?_, ?_⟩
  · rintro rfl
    exact absurd hge (by decide)
  · rintro rfl
    exact absurd hge (by decide)
  · intro hlt
    have : u.toNat < 0x20 := by simpa [UInt16.lt_iff_toNat_lt] using hlt
    omega

/-- **The escaped body of a string reads back as the string**, up to its closing quote. Each unit
is taken off the front with its escape, lone surrogates included. -/
theorem readChars_escapeUnits (s rest : JsString) :
    readChars (escapeUnits s ++ unit '"' :: rest) = some (s, rest) := by
  fun_induction escapeUnits s with
  | case1 =>
    rw [List.nil_append, readChars.eq_def]
    simp
  | case2 u =>
    rw [readChars_escapeUnit, readChars.eq_def]
    simp [pushUnit]
  | case3 u v us hpair ih =>
    -- a surrogate pair is written as it is
    obtain ⟨hu, hv⟩ := Bool.and_eq_true_iff.1 hpair
    obtain ⟨hu₁, hu₂, hu₃⟩ := surrogate_plain (.inl hu)
    obtain ⟨hv₁, hv₂, hv₃⟩ := surrogate_plain (.inr hv)
    rw [List.cons_append, List.cons_append, readChars_plain hu₁ hu₂ hu₃,
      readChars_plain hv₁ hv₂ hv₃, ih]
    rfl
  | case4 u v us hpair ih =>
    rw [List.append_assoc, readChars_escapeUnit, ih]
    rfl

/-! ## Digits -/

theorem isDigit_unit_digitChar {d : ℕ} (h : d < 10) :
    isDigit (unit d.digitChar) = true ∧ (unit d.digitChar).toNat - (unit '0').toNat = d := by
  have hall : ∀ m, m < 10 → isDigit (unit m.digitChar) = true ∧
      (unit m.digitChar).toNat - (unit '0').toNat = m := by decide
  exact hall d h

/-- One digit more. -/
theorem natOfDigits_append_singleton (ds : JsString) (u : UInt16) :
    natOfDigits (ds ++ [u]) = natOfDigits ds * 10 + (u.toNat - (unit '0').toNat) := by
  unfold natOfDigits
  rw [List.foldl_append]
  rfl

/-- Zeros at the end multiply by ten each. -/
theorem natOfDigits_append_zeros (ds : JsString) : ∀ z : ℕ,
    natOfDigits (ds ++ List.replicate z (unit '0')) = natOfDigits ds * 10 ^ z
  | 0 => by simp
  | z + 1 => by
    have ih := natOfDigits_append_zeros ds z
    rw [List.replicate_succ', ← List.append_assoc, natOfDigits_append_singleton, ih, pow_succ,
      Nat.sub_self]
    ring

/-- Zeros in front change nothing. -/
theorem natOfDigits_zeros_append (ds : JsString) (z : ℕ) :
    natOfDigits (List.replicate z (unit '0') ++ ds) = natOfDigits ds := by
  have hzero : natOfDigits (List.replicate z (unit '0')) = 0 := by
    simpa [natOfDigits] using natOfDigits_append_zeros [] z
  unfold natOfDigits at hzero ⊢
  rw [List.foldl_append, hzero]

/-- The digits of a number: their value, and the first one. -/
structure DigitsOf (n : ℕ) (ds : JsString) : Prop where
  digits : ∀ u ∈ ds, isDigit u = true
  value : natOfDigits ds = n
  nonempty : ds ≠ []
  head : n ≠ 0 → ds.head? ≠ some (unit '0')

theorem digitsOf_spec (n : ℕ) : DigitsOf n (digitsOf n) := by
  induction n using Nat.strong_induction_on with
  | _ n ih =>
    by_cases hlt : n < 10
    · have hds : digitsOf n = [unit n.digitChar] := by
        unfold digitsOf
        rw [Nat.toDigits_of_lt_base hlt]
        rfl
      obtain ⟨hd, hv⟩ := isDigit_unit_digitChar hlt
      rw [hds]
      refine ⟨by simpa using hd, by simpa [natOfDigits] using hv, by simp, ?_⟩
      intro hne hhead
      rw [List.head?_cons, Option.some.injEq] at hhead
      rw [hhead, Nat.sub_self] at hv
      exact hne hv.symm
    · have hds : digitsOf n = digitsOf (n / 10) ++ [unit (n % 10).digitChar] := by
        unfold digitsOf
        rw [Nat.toDigits_eq_if (by omega), if_neg hlt, List.map_append]
        rfl
      have hq := ih (n / 10) (by omega)
      obtain ⟨hd, hv⟩ := isDigit_unit_digitChar (show n % 10 < 10 by omega)
      rw [hds]
      refine ⟨?_, ?_, by simp, ?_⟩
      · intro u hu
        rcases List.mem_append.1 hu with hu | hu
        · exact hq.digits u hu
        · rwa [List.mem_singleton.1 hu]
      · rw [natOfDigits_append_singleton, hq.value, hv]
        omega
      · intro _ hhead
        have hne : n / 10 ≠ 0 := by omega
        apply hq.head hne
        rwa [List.head?_append_of_ne_nil _ hq.nonempty] at hhead

/-! ## Decimals -/

/-- Stripping removes the zeros that were added, and counts them. -/
theorem strip_mul {c : ℕ} (hc : c % 10 ≠ 0) : ∀ (z fuel : ℕ) (e : ℤ), z < fuel →
    (Decimal.strip fuel (c * 10 ^ z) e).coeff = c ∧
      (Decimal.strip fuel (c * 10 ^ z) e).exp = e + z
  | _, 0, _, h => absurd h (Nat.not_lt_zero _)
  | 0, fuel + 1, e, _ => by
    rw [pow_zero, Nat.mul_one, Decimal.strip, dif_pos hc]
    exact ⟨rfl, by simp⟩
  | z + 1, fuel + 1, e, h => by
    have hmul : c * 10 ^ (z + 1) = c * 10 ^ z * 10 := by ring
    have hlast : ¬ c * 10 ^ (z + 1) % 10 ≠ 0 := by omega
    have hdiv : c * 10 ^ (z + 1) / 10 = c * 10 ^ z := by omega
    obtain ⟨ihc, ihe⟩ := strip_mul hc z fuel (e + 1) (by omega)
    rw [Decimal.strip, dif_neg hlast, hdiv]
    refine ⟨ihc, ?_⟩
    rw [ihe]
    push_cast
    ring

theorem Decimal.ext' {d d' : Decimal} (hneg : d.neg = d'.neg) (hcoeff : d.coeff = d'.coeff)
    (hexp : d.exp = d'.exp) : d = d' := by
  cases d
  cases d'
  simp_all

/-- However many zeros a literal writes out, it denotes the decimal. -/
theorem ofParts_eq (d : Decimal) (z : ℕ) :
    Decimal.ofParts d.neg (d.coeff * 10 ^ z) (d.exp - z) = d := by
  rcases d.normal with hc | ⟨hzero, hneg, hexp⟩
  · have hpos : 1 ≤ d.coeff := by omega
    have hlt : z < d.coeff * 10 ^ z :=
      (Nat.lt_pow_self (by omega)).trans_le (Nat.le_mul_of_pos_left _ hpos)
    obtain ⟨hcoeff, hplace⟩ := strip_mul hc z (d.coeff * 10 ^ z) (d.exp - z) hlt
    unfold Decimal.ofParts
    rw [dif_pos (by rwa [hcoeff])]
    exact Decimal.ext' rfl hcoeff (by rw [hplace]; omega)
  · have hparts : Decimal.ofParts d.neg (d.coeff * 10 ^ z) (d.exp - z) =
        ⟨false, 0, 0, .inr ⟨rfl, rfl, rfl⟩⟩ := by
      rw [hzero, Nat.zero_mul, Decimal.ofParts, dif_neg]
      simp [Decimal.strip]
    rw [hparts]
    exact Decimal.ext' hneg.symm hzero.symm hexp.symm

/-! ## Number literals -/

/-- The end of a value: nothing more, the unit that follows an element, or white space. -/
def Stops (rest : JsString) : Prop :=
  ∀ u us, rest = u :: us → u = unit ',' ∨ u = unit ']' ∨ u = unit '\x7d' ∨ isSpace u = true

theorem isSpace_cases {u : UInt16} (h : isSpace u = true) :
    u = 0x20 ∨ u = 0x09 ∨ u = 0x0A ∨ u = 0x0D := by
  simpa only [isSpace, Bool.or_eq_true, decide_eq_true_eq, or_assoc] using h

def NoDigitHead (s : JsString) : Prop := ∀ u us, s = u :: us → isDigit u = false

theorem noDigitHead_cons {u : UInt16} {us : JsString} (h : isDigit u = false) :
    NoDigitHead (u :: us) := by
  intro v vs heq
  cases heq
  exact h

theorem Stops.noDigitHead {rest : JsString} (h : Stops rest) : NoDigitHead rest := by
  intro u us heq
  rcases h u us heq with rfl | rfl | rfl | hspace
  · decide
  · decide
  · decide
  · rcases isSpace_cases hspace with rfl | rfl | rfl | rfl <;> decide

theorem takeWhile_digits {ds s : JsString} (hds : ∀ u ∈ ds, isDigit u = true)
    (hs : NoDigitHead s) : (ds ++ s).takeWhile isDigit = ds := by
  rw [List.takeWhile_append_of_pos hds]
  cases s with
  | nil => simp
  | cons u us => simp [hs u us rfl]

theorem dropWhile_digits {ds s : JsString} (hds : ∀ u ∈ ds, isDigit u = true)
    (hs : NoDigitHead s) : (ds ++ s).dropWhile isDigit = s := by
  rw [List.dropWhile_append_of_pos hds]
  cases s with
  | nil => simp
  | cons u us => simp [hs u us rfl]

theorem readFraction_point {frac s : JsString} (hfrac : ∀ u ∈ frac, isDigit u = true)
    (hne : frac ≠ []) (hs : NoDigitHead s) :
    readFraction (unit '.' :: frac ++ s) = some (frac, s) := by
  rw [List.cons_append, readFraction, if_pos rfl, takeWhile_digits hfrac hs,
    dropWhile_digits hfrac hs, if_neg hne]

theorem readExponent_text (e : ℤ) {rest : JsString} (hs : NoDigitHead rest) :
    readExponent (unit 'e' :: (if e < 0 then unit '-' else unit '+') :: digitsOf e.natAbs ++ rest)
      = some (e, rest) := by
  have hds := digitsOf_spec e.natAbs
  have hplus : unit '+' ≠ unit '-' := by decide
  by_cases hneg : e < 0
  · rw [if_pos hneg, List.cons_append, readExponent, if_pos (.inl rfl)]
    simp only [List.cons_append, readSign, if_true, takeWhile_digits hds.digits hs,
      dropWhile_digits hds.digits hs, hds.nonempty, if_false, hds.value]
    rw [show -(e.natAbs : ℤ) = e by omega]
  · rw [if_neg hneg, List.cons_append, readExponent, if_pos (.inl rfl)]
    simp only [List.cons_append, readSign, hplus, if_true, if_false, true_and,
      takeWhile_digits hds.digits hs, dropWhile_digits hds.digits hs, hds.nonempty, hds.value]
    rw [show (e.natAbs : ℤ) = e by omega]
    simp

/-- No fraction and no exponent. -/
theorem Stops.readFraction {rest : JsString} (h : Stops rest) :
    JsonText.readFraction rest = some ([], rest) := by
  cases rest with
  | nil => rfl
  | cons u us =>
    have hpoint : u ≠ unit '.' := by
      rcases h u us rfl with rfl | rfl | rfl | hspace
      · decide
      · decide
      · decide
      · rcases isSpace_cases hspace with rfl | rfl | rfl | rfl <;> decide
    rw [JsonText.readFraction, if_neg hpoint]

theorem Stops.readExponent {rest : JsString} (h : Stops rest) :
    JsonText.readExponent rest = some (0, rest) := by
  cases rest with
  | nil => rfl
  | cons u us =>
    have hexp : ¬ (u = unit 'e' ∨ u = unit 'E') := by
      rcases h u us rfl with rfl | rfl | rfl | hspace
      · decide
      · decide
      · decide
      · rcases isSpace_cases hspace with rfl | rfl | rfl | rfl <;> decide
    rw [JsonText.readExponent, if_neg hexp]

/-- The text of a number without its sign: `whole` digits, then a `tail` with the digits `frac`
and the exponent `scale`. It writes `zeros` zeros after the digits of `coeff`. -/
structure Layout (coeff : ℕ) (exp : ℤ) (whole tail frac : JsString) (scale : ℤ) (zeros : ℕ) :
    Prop where
  digits : ∀ u ∈ whole, isDigit u = true
  nonempty : whole ≠ []
  lead : whole.head? = some (unit '0') → whole.length = 1
  noDigit : ∀ rest, Stops rest → NoDigitHead (tail ++ rest)
  fraction : ∀ rest, Stops rest → ∃ s, JsonText.readFraction (tail ++ rest) = some (frac, s) ∧
    JsonText.readExponent s = some (scale, rest)
  value : natOfDigits (whole ++ frac) = coeff * 10 ^ zeros
  place : scale - frac.length = exp - zeros

/-- A laid out number reads back as its decimal. -/
theorem Layout.read (nearest : Decimal → JsNumber) {d : Decimal} {whole tail frac : JsString}
    {scale : ℤ} {zeros : ℕ} (h : Layout d.coeff d.exp whole tail frac scale zeros)
    {rest : JsString} (hrest : Stops rest) :
    readNumber nearest ((if d.neg then unit '-' :: (whole ++ tail) else whole ++ tail) ++ rest)
      = some (nearest d, rest) := by
  have hsign : readSign false
      ((if d.neg then unit '-' :: (whole ++ tail) else whole ++ tail) ++ rest) =
        (d.neg, whole ++ (tail ++ rest)) := by
    cases hneg : d.neg with
    | true => simp [readSign]
    | false =>
      obtain ⟨u, us, hwhole⟩ := List.exists_cons_of_ne_nil h.nonempty
      have hdigit : isDigit u = true := h.digits u (by simp [hwhole])
      have hminus : u ≠ unit '-' := by
        rintro rfl
        exact absurd hdigit (by decide)
      simp [hwhole, readSign, hminus]
  obtain ⟨s, hfrac, hexp⟩ := h.fraction rest hrest
  have hdigits := takeWhile_digits h.digits (h.noDigit rest hrest)
  have hdrop := dropWhile_digits h.digits (h.noDigit rest hrest)
  have hguard : whole ≠ [] ∧ (whole.head? = some (unit '0') → whole.length = 1) :=
    ⟨h.nonempty, h.lead⟩
  unfold readNumber
  rw [hsign]
  simp only [hdigits, hdrop, hfrac, hexp, guard, if_pos hguard, Option.bind_eq_bind,
    Option.bind_some, Option.pure_def, h.value, h.place, ofParts_eq]

variable {coeff : ℕ} {ds : JsString}

theorem DigitsOf.lead (hds : DigitsOf coeff ds) (hne : coeff ≠ 0) {tail : JsString}
    (h : (ds ++ tail).head? = some (unit '0')) : (ds ++ tail).length = 1 := by
  rw [List.head?_append_of_ne_nil _ hds.nonempty] at h
  exact absurd h (hds.head hne)

/-- No point: the digits, and zeros up to the units. -/
theorem layout_integer (hds : DigitsOf coeff ds) (hne : coeff ≠ 0) {exp : ℤ} {z : ℕ}
    (hz : exp = z) : Layout coeff exp (ds ++ List.replicate z (unit '0')) [] [] 0 z where
  digits := by
    intro u hu
    rcases List.mem_append.1 hu with hu | hu
    · exact hds.digits u hu
    · rw [List.eq_of_mem_replicate hu]
      decide
  nonempty := by simp [hds.nonempty]
  lead := hds.lead hne
  noDigit rest hrest := by simpa using hrest.noDigitHead
  fraction rest hrest := ⟨rest, by simpa using hrest.readFraction, hrest.readExponent⟩
  value := by rw [List.append_nil, natOfDigits_append_zeros, hds.value]
  place := by
    rw [List.length_nil]
    omega

/-- A point inside the digits. -/
theorem layout_point (hds : DigitsOf coeff ds) (hne : coeff ≠ 0) {exp : ℤ} {n : ℕ}
    (hpos : 0 < n) (hlt : n < ds.length) (hn : (n : ℤ) = exp + ds.length) :
    Layout coeff exp (ds.take n) (unit '.' :: ds.drop n) (ds.drop n) 0 0 where
  digits u hu := hds.digits u (List.mem_of_mem_take hu)
  nonempty := by
    intro hnil
    have := congrArg List.length hnil
    rw [List.length_take, List.length_nil] at this
    omega
  lead h := by
    rw [List.head?_take, if_neg (by omega)] at h
    exact absurd h (hds.head hne)
  noDigit rest _ := noDigitHead_cons (by decide)
  fraction rest hrest := by
    refine ⟨rest, ?_, hrest.readExponent⟩
    refine readFraction_point (fun u hu => hds.digits u (List.mem_of_mem_drop hu)) ?_
      hrest.noDigitHead
    intro hnil
    have := congrArg List.length hnil
    rw [List.length_drop, List.length_nil] at this
    omega
  value := by rw [List.take_append_drop, hds.value, pow_zero, Nat.mul_one]
  place := by
    rw [List.length_drop]
    omega

/-- A point before the digits. -/
theorem layout_small (hds : DigitsOf coeff ds) {exp : ℤ} {z : ℕ} (hz : exp + ds.length = -z) :
    Layout coeff exp [unit '0'] (unit '.' :: (List.replicate z (unit '0') ++ ds))
      (List.replicate z (unit '0') ++ ds) 0 0 where
  digits := by
    intro u hu
    rw [List.mem_singleton.1 hu]
    decide
  nonempty := by simp
  lead _ := rfl
  noDigit rest _ := noDigitHead_cons (by decide)
  fraction rest hrest := by
    refine ⟨rest, readFraction_point ?_ (by simp [hds.nonempty]) hrest.noDigitHead,
      hrest.readExponent⟩
    intro u hu
    rcases List.mem_append.1 hu with hu | hu
    · rw [List.eq_of_mem_replicate hu]
      decide
    · exact hds.digits u hu
  value := by
    have hzeros := natOfDigits_zeros_append ds (z + 1)
    rw [List.replicate_succ] at hzeros
    rw [List.singleton_append, ← List.cons_append, hzeros, hds.value, pow_zero, Nat.mul_one]
  place := by
    rw [List.length_append, List.length_replicate]
    push_cast
    omega

/-- The exponent of a literal. -/
def exponentText (e : ℤ) : JsString :=
  unit 'e' :: (if e < 0 then unit '-' else unit '+') :: digitsOf e.natAbs

/-- The first digit, the others after a point if there are some, and an exponent. -/
theorem layout_scientific {u : UInt16} {us : JsString} (hds : DigitsOf coeff (u :: us))
    {exp e : ℤ} (he : e = exp + us.length) :
    Layout coeff exp [u] ((if us = [] then [] else unit '.' :: us) ++ exponentText e) us e 0 where
  digits := by
    intro v hv
    rw [List.mem_singleton.1 hv]
    exact hds.digits u (by simp)
  nonempty := by simp
  lead _ := rfl
  noDigit rest _ := by
    by_cases hus : us = []
    · rw [if_pos hus, List.nil_append]
      exact noDigitHead_cons (by decide)
    · rw [if_neg hus]
      exact noDigitHead_cons (by decide)
  fraction rest hrest := by
    refine ⟨exponentText e ++ rest, ?_, readExponent_text e hrest.noDigitHead⟩
    have hexp : NoDigitHead (exponentText e ++ rest) := noDigitHead_cons (by decide)
    by_cases hus : us = []
    · have he' : unit 'e' ≠ unit '.' := by decide
      rw [if_pos hus, hus, List.nil_append, exponentText, List.cons_append,
        JsonText.readFraction, if_neg he']
    · rw [if_neg hus, List.append_assoc]
      exact readFraction_point (fun v hv => hds.digits v (by simp [hv])) hus hexp
  value := by rw [List.singleton_append, hds.value, pow_zero, Nat.mul_one]
  place := by
    rw [he]
    push_cast
    omega

/-- **The text of a number reads back as the number**, rounded to the double nearest to it, if what
follows does not continue it. -/
theorem readNumber_toText (nearest : Decimal → JsNumber) (d : Decimal) {rest : JsString}
    (hrest : Stops rest) :
    readNumber nearest ((JsNumber.finite d).toText ++ rest) = some (nearest d, rest) := by
  by_cases hzero : d.coeff = 0
  · have hsign : d.neg = false ∧ d.exp = 0 := by
      rcases d.normal with hc | hc
      · omega
      · exact hc.2
    have hlayout : Layout d.coeff d.exp [unit '0'] [] [] 0 0 := {
      digits := by
        intro u hu
        rw [List.mem_singleton.1 hu]
        decide
      nonempty := by simp
      lead := fun _ => rfl
      noDigit := fun rest hrest => by simpa using hrest.noDigitHead
      fraction := fun rest hrest => ⟨rest, by simpa using hrest.readFraction, hrest.readExponent⟩
      value := by rw [hzero]; decide
      place := by rw [hsign.2]; rfl }
    have hread := hlayout.read nearest hrest
    rw [hsign.1] at hread
    rw [JsNumber.toText, if_pos hzero]
    exact hread
  have hds := digitsOf_spec d.coeff
  have hlen : 0 < (digitsOf d.coeff).length := List.length_pos_of_ne_nil hds.nonempty
  rw [JsNumber.toText, if_neg hzero]
  simp only
  set ds := digitsOf d.coeff with hdef
  -- the four layouts of `Number::toString`
  by_cases hint : (ds.length : ℤ) ≤ d.exp + ds.length ∧ d.exp + ds.length ≤ 21
  · rw [if_pos hint]
    have hz : d.exp = ((d.exp + ds.length - ds.length).toNat : ℤ) := by omega
    have hlayout := layout_integer hds hzero hz
    have hread := hlayout.read nearest hrest
    rwa [List.append_nil] at hread
  rw [if_neg hint]
  by_cases hpoint : 0 < d.exp + ds.length ∧ d.exp + ds.length ≤ 21
  · rw [if_pos hpoint]
    have hn : ((d.exp + ds.length).toNat : ℤ) = d.exp + ds.length := by omega
    have hlayout := layout_point hds hzero (by omega) (by omega) hn
    have hread := hlayout.read nearest hrest
    rwa [List.append_cons] at hread
  rw [if_neg hpoint]
  by_cases hsmall : -6 < d.exp + ds.length ∧ d.exp + ds.length ≤ 0
  · rw [if_pos hsmall]
    have hz : d.exp + ds.length = -((-(d.exp + ds.length)).toNat : ℤ) := by omega
    have hlayout := layout_small hds hz
    have hread := hlayout.read nearest hrest
    have hjs : js "0." = [unit '0', unit '.'] := by decide
    rw [hjs]
    exact hread
  rw [if_neg hsmall]
  obtain ⟨u, us, hcons⟩ := List.exists_cons_of_ne_nil hds.nonempty
  rw [hcons] at hds ⊢
  have hlayout := layout_scientific hds (show d.exp + us.length = d.exp + us.length from rfl)
  have hread := hlayout.read nearest hrest
  have he : d.exp + ((u :: us).length : ℤ) - 1 = d.exp + us.length := by
    rw [List.length_cons]
    push_cast
    omega
  rw [he]
  cases us with
  | nil => exact hread
  | cons v vs => exact hread

end JsonText

end Signbox
