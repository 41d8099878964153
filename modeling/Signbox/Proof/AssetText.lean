import Signbox.Guard.Keyed
import Signbox.Guard.ShortCircuit
import Signbox.Proof.ReadText
import Signbox.Proof.TextFields
import Signbox.Spec.Decode
import Signbox.Spec.Dialect
import Mathlib.Algebra.Order.Field.Rat
import Mathlib.Data.List.Induction
import Mathlib.Data.List.TakeWhile
import Mathlib.Order.Compare
import Mathlib.Tactic.FieldSimp

/-!
# Amounts as texts

A written amount is an integer part, perhaps a point and a fraction, and for an asset a space
and a symbol. The decoder and the policy side split it in the same way.

* `matchBareAmount_iff`, `matchAsset_iff`: the two grammars as concatenations.
* `digitsOf_natOfDigits`: the digits of a number are its written ones without leading zeros.
* `formatBareAmount_written`: formatting writes the integer part without them.
* `assetOf_quantity`: a text in `data.quantity` is the same asset to the decoder and to the policy.
* `asset_codec`: the four properties of the codec.
-/

namespace Signbox

open Guard JsonText

variable {s int symbol : JsString} {frac : Option JsString}

/-! ## The grammar -/

/-- An amount as it is written. -/
def bareText (int : JsString) : Option JsString → JsString
  | none => int
  | some frac => int ++ unit '.' :: frac

def Digits (ds : JsString) : Prop := ds ≠ [] ∧ ∀ u ∈ ds, isDigit u = true

/-- The digits after the point. -/
def fraction (frac : Option JsString) : JsString := frac.getD []

theorem takeWhile_stop {p : UInt16 → Bool} {ds rest : JsString} (hds : ∀ u ∈ ds, p u = true)
    (hrest : ∀ u ∈ rest.head?, p u = false) :
    (ds ++ rest).takeWhile p = ds ∧ (ds ++ rest).dropWhile p = rest := by
  have hstop : rest.takeWhile p = [] ∧ rest.dropWhile p = rest := by
    cases rest with
    | nil => exact ⟨rfl, rfl⟩
    | cons u us =>
      have hu : p u = false := hrest u rfl
      simp [hu]
  rw [List.takeWhile_append_of_pos hds, List.dropWhile_append_of_pos hds, hstop.1, hstop.2,
    List.append_nil]
  exact ⟨rfl, rfl⟩

/-- **The grammar of a bare amount**: digits, and perhaps a point and more digits. -/
theorem matchBareAmount_iff : matchBareAmount s = some (int, frac) ↔
    Digits int ∧ (∀ f, frac = some f → Digits f) ∧ s = bareText int frac := by
  have hall : ∀ {ds : JsString}, ds.all isDigit = true ↔ ∀ u ∈ ds, isDigit u = true :=
    List.all_eq_true
  constructor
  · intro h
    have hsplit : s.takeWhile isDigit ++ s.dropWhile isDigit = s := List.takeWhile_append_dropWhile
    have hdigits : ∀ u ∈ s.takeWhile isDigit, isDigit u = true := fun u hu =>
      List.mem_takeWhile_imp hu
    unfold matchBareAmount at h
    generalize s.takeWhile isDigit = ds at h hsplit hdigits
    generalize s.dropWhile isDigit = rest at h hsplit
    cases ds with
    | nil => cases h
    | cons d ds =>
      cases rest with
      | nil =>
        cases h
        refine ⟨⟨by simp, hdigits⟩, by simp, ?_⟩
        rw [← hsplit, List.append_nil]
        rfl
      | cons u f =>
        simp only [Option.ite_none_right_eq_some, Option.some.injEq, Prod.mk.injEq] at h
        obtain ⟨⟨rfl, hne, hf⟩, rfl, rfl⟩ := h
        refine ⟨⟨by simp, hdigits⟩, fun g hg => ?_, hsplit.symm⟩
        rw [← Option.some.inj hg]
        exact ⟨hne, hall.1 hf⟩
  · rintro ⟨⟨hne, hdigits⟩, hfrac, rfl⟩
    obtain ⟨d, ds, rfl⟩ := List.exists_cons_of_ne_nil hne
    unfold matchBareAmount
    cases frac with
    | none =>
      have hend : ∀ u ∈ ([] : JsString).head?, isDigit u = false := by simp
      have hsplit := takeWhile_stop hdigits hend
      rw [List.append_nil] at hsplit
      rw [bareText, hsplit.1, hsplit.2]
    | some f =>
      have hpoint : ∀ u ∈ (unit '.' :: f).head?, isDigit u = false := by
        intro u hu
        rw [List.head?_cons, Option.mem_some_iff] at hu
        rw [← hu]
        decide
      obtain ⟨htake, hdrop⟩ := takeWhile_stop hdigits hpoint
      have hf := hfrac f rfl
      rw [bareText, htake, hdrop]
      simp only [true_and, hf.1, ne_eq, not_false_eq_true, hall.2 hf.2, if_true]

/-- No written amount has a space in it. -/
theorem bareText_no_space (hint : Digits int) (hfrac : ∀ f, frac = some f → Digits f) :
    ∀ u ∈ bareText int frac, decide (u ≠ unit ' ') = true := by
  have hdigit : ∀ {u : UInt16}, isDigit u = true → decide (u ≠ unit ' ') = true := by
    intro u hu
    have hspace : isDigit (unit ' ') = false := by decide
    refine decide_eq_true fun heq => ?_
    rw [heq, hspace] at hu
    cases hu
  intro u hu
  cases frac with
  | none => exact hdigit (hint.2 u hu)
  | some f =>
    rcases List.mem_append.1 hu with hu | hu
    · exact hdigit (hint.2 u hu)
    rcases List.mem_cons.1 hu with rfl | hu
    · decide
    · exact hdigit ((hfrac f rfl).2 u hu)

/-- **The grammar of an asset**: a bare amount, one blank, and a symbol of one to seven capital
letters. -/
theorem matchAsset_iff : matchAsset s = some (int, frac, symbol) ↔
    Digits int ∧ (∀ f, frac = some f → Digits f) ∧ matchesClass isUpper 1 7 symbol = true ∧
      s = bareText int frac ++ unit ' ' :: symbol := by
  constructor
  · intro h
    have hsplit : s.takeWhile (· ≠ unit ' ') ++ s.dropWhile (· ≠ unit ' ') = s :=
      List.takeWhile_append_dropWhile
    unfold matchAsset at h
    cases hdrop : s.dropWhile (· ≠ unit ' ') with
    | nil =>
      rw [hdrop] at h
      cases h
    | cons u rest =>
      have hu : u = unit ' ' := by
        have hhead := List.head?_dropWhile_not (· ≠ unit ' ') s
        rw [hdrop, List.head?_cons] at hhead
        simpa using hhead
      simp only [hdrop, Option.ite_none_right_eq_some, Option.map_eq_some_iff, Prod.mk.injEq] at h
      obtain ⟨hclass, ⟨i, f⟩, hbare, rfl, rfl, rfl⟩ := h
      obtain ⟨hint, hfrac, htext⟩ := matchBareAmount_iff.1 hbare
      refine ⟨hint, hfrac, hclass, ?_⟩
      rw [hdrop, hu, htext] at hsplit
      exact hsplit.symm
  · rintro ⟨hint, hfrac, hclass, rfl⟩
    have hstop : ∀ u ∈ (unit ' ' :: symbol).head?, decide (u ≠ unit ' ') = false := by
      intro u hu
      rw [List.head?_cons, Option.mem_some_iff] at hu
      rw [← hu]
      decide
    obtain ⟨htake, hdrop⟩ := takeWhile_stop (bareText_no_space hint hfrac) hstop
    unfold matchAsset
    rw [htake, hdrop]
    simp only [hclass, if_true, matchBareAmount_iff.2 ⟨hint, hfrac, rfl⟩, Option.map_some]

/-! ## Digits without leading zeros -/

/-- The digits without redundant leading zeros. -/
def trimZeros (ds : JsString) : JsString :=
  match ds.dropWhile (· = unit '0') with
  | [] => js "0"
  | u :: us => u :: us

theorem natOfDigits_append (as bs : JsString) :
    natOfDigits (as ++ bs) = natOfDigits as * 10 ^ bs.length + natOfDigits bs := by
  induction bs using List.reverseRecOn with
  | nil => simp [natOfDigits]
  | append_singleton bs b ih =>
    rw [← List.append_assoc, natOfDigits_append_singleton, natOfDigits_append_singleton, ih,
      List.length_append, List.length_singleton, pow_succ]
    ring

theorem unit_digit {u : UInt16} (h : isDigit u = true) :
    u.toNat - (unit '0').toNat < 10 ∧ unit (u.toNat - (unit '0').toNat).digitChar = u := by
  simp only [isDigit, Bool.and_eq_true, decide_eq_true_eq, UInt16.le_iff_toNat_le] at h
  have hzero : (unit '0').toNat = 48 := by decide
  have hnine : (unit '9').toNat = 57 := by decide
  rw [hzero, hnine] at h
  have hall : ∀ m, m < 10 → unit m.digitChar = UInt16.ofNat (48 + m) := by decide
  refine ⟨by omega, ?_⟩
  rw [hall _ (by omega), hzero, Nat.add_sub_cancel' h.1]
  exact UInt16.ofNat_toNat

/-- The digits of a positive number are determined by its value. -/
theorem digitsOf_unique {ds : JsString} (hdigits : ∀ u ∈ ds, isDigit u = true) :
    ds ≠ [] → ds.head? ≠ some (unit '0') → digitsOf (natOfDigits ds) = ds := by
  induction ds using List.reverseRecOn with
  | nil => exact fun h => absurd rfl h
  | append_singleton ds u ih =>
    intro _ hhead
    obtain ⟨hlt, hunit⟩ := unit_digit (hdigits u (by simp))
    rw [natOfDigits_append_singleton]
    cases ds with
    | nil =>
      have hzero : natOfDigits [] * 10 + (u.toNat - (unit '0').toNat) =
          u.toNat - (unit '0').toNat := by simp [natOfDigits]
      rw [hzero, digitsOf, Nat.toDigits_of_lt_base hlt, List.map_singleton, hunit]
      rfl
    | cons d ds =>
      have hrec := ih (fun v hv => hdigits v (List.mem_append_left _ hv)) (by simp) (by simpa using hhead)
      have hd : natOfDigits (d :: ds) ≠ 0 := by
        intro hnone
        -- a number without digits is written `0`
        have hfirst : (d :: ds).head? = some (unit '0') := by
          rw [← hrec, hnone]
          decide
        exact hhead (by simpa using hfirst)
      rw [digitsOf, Nat.toDigits_eq_if (by omega), if_neg (by omega), List.map_append]
      have hdiv : (natOfDigits (d :: ds) * 10 + (u.toNat - (unit '0').toNat)) / 10 =
          natOfDigits (d :: ds) := by omega
      have hmod : (natOfDigits (d :: ds) * 10 + (u.toNat - (unit '0').toNat)) % 10 =
          u.toNat - (unit '0').toNat := by omega
      rw [hdiv, hmod, List.map_singleton, hunit]
      exact congrArg (· ++ [u]) hrec

/-- The zeros in front, and what is left. -/
theorem zeros_split (ds : JsString) : ∃ z rest, ds = List.replicate z (unit '0') ++ rest ∧
    rest.head? ≠ some (unit '0') ∧ ds.dropWhile (· = unit '0') = rest := by
  induction ds with
  | nil => exact ⟨0, [], rfl, by simp, rfl⟩
  | cons u ds ih =>
    by_cases hu : u = unit '0'
    · obtain ⟨z, rest, hds, hhead, hdrop⟩ := ih
      refine ⟨z + 1, rest, ?_, hhead, ?_⟩
      · rw [List.replicate_succ, List.cons_append, ← hds, hu]
      · rw [List.dropWhile_cons, if_pos (by simpa using hu), hdrop]
    · refine ⟨0, u :: ds, rfl, by simpa using hu, ?_⟩
      rw [List.dropWhile_cons, if_neg (by simpa using hu)]

/-- **The digits of a number are its written ones without leading zeros.** The one place where
writing a number and reading it back can change a text. -/
theorem digitsOf_natOfDigits {ds : JsString} (hdigits : ∀ u ∈ ds, isDigit u = true) :
    digitsOf (natOfDigits ds) = trimZeros ds := by
  obtain ⟨z, rest, hds, hhead, hdrop⟩ := zeros_split ds
  rw [trimZeros, hdrop, hds, natOfDigits_zeros_append]
  cases rest with
  | nil => decide
  | cons u us =>
    refine digitsOf_unique (fun v hv => hdigits v ?_) (by simp) hhead
    rw [hds]
    exact List.mem_append_right _ hv

/-- Padding puts the zeros back. -/
theorem padStart_trimZeros {ds : JsString} (hne : ds ≠ []) :
    JsString.padStart ds.length (unit '0') (trimZeros ds) = ds := by
  obtain ⟨z, rest, hds, -, hdrop⟩ := zeros_split ds
  rw [trimZeros, hdrop, JsString.padStart]
  cases rest with
  | nil =>
    rw [List.append_nil] at hds
    have hz : z ≠ 0 := by
      rintro rfl
      exact hne hds
    obtain ⟨k, rfl⟩ := Nat.exists_eq_succ_of_ne_zero hz
    have hzero : js "0" = [unit '0'] := by decide
    simp only [hds, List.length_replicate, hzero, List.length_singleton]
    rw [Nat.succ_sub_one, ← List.replicate_succ']
  | cons u us =>
    have hlen : ds.length - (u :: us).length = z := by
      rw [hds, List.length_append, List.length_replicate]
      omega
    rw [hlen, ← hds]

theorem padStart_long {n : ℕ} (h : n ≤ s.length) : JsString.padStart n (unit '0') s = s := by
  have hzero : n - s.length = 0 := by omega
  rw [JsString.padStart, hzero]
  rfl

/-! ## Formatting -/

/-- Splitting off the fraction. -/
theorem formatBareAmount_parts {units precision : ℕ} {int f : JsString}
    (hpad : JsString.padStart (precision + 1) (unit '0') (digitsOf units) = int ++ f)
    (hf : f.length = precision) : formatBareAmount ⟨units, precision⟩ =
      bareText int (if precision = 0 then none else some f) := by
  unfold formatBareAmount
  simp only [hpad]
  by_cases hp : precision = 0
  · have hnil : f = [] := List.eq_nil_of_length_eq_zero (hf.trans hp)
    rw [if_pos hp, if_pos hp, hnil, List.append_nil]
    rfl
  · have hsplit : (int ++ f).length - precision = int.length := by
      rw [List.length_append, hf]
      omega
    rw [if_neg hp, if_neg hp, hsplit, List.take_left, List.drop_left, List.append_assoc]
    rfl

/-- What `toUnits` computes and checks. -/
theorem toUnits_ok {context : JsString} {b : BareAmount} :
    toUnits int frac context = .ok b ↔ (fraction frac).length ≤ MAX_PRECISION ∧
      natOfDigits (int ++ fraction frac) ≤ MAX_ASSET_UNITS ∧
      b = ⟨natOfDigits (int ++ fraction frac), (fraction frac).length⟩ := by
  have hlen : (frac.map List.length).getD 0 = (fraction frac).length := by
    cases frac <;> rfl
  unfold toUnits
  simp only [hlen]
  by_cases hp : (fraction frac).length > MAX_PRECISION
  · rw [if_pos hp]
    simp
    omega
  · rw [if_neg hp]
    by_cases hu : natOfDigits (int ++ frac.getD []) > MAX_ASSET_UNITS
    · rw [if_pos hu]
      simp only [reduceCtorEq, false_iff, fraction]
      omega
    · rw [if_neg hu]
      simp only [Except.ok.injEq, fraction] at hp hu ⊢
      constructor
      · rintro rfl
        exact ⟨by omega, by omega, rfl⟩
      · rintro ⟨-, -, rfl⟩
        rfl

theorem parseBareAmount_ok {b : BareAmount} : parseBareAmount s = .ok b ↔
    ∃ int frac, Digits int ∧ (∀ f, frac = some f → Digits f) ∧ s = bareText int frac ∧
      (fraction frac).length ≤ MAX_PRECISION ∧
      natOfDigits (int ++ fraction frac) ≤ MAX_ASSET_UNITS ∧
      b = ⟨natOfDigits (int ++ fraction frac), (fraction frac).length⟩ := by
  unfold parseBareAmount
  constructor
  · intro h
    cases hm : matchBareAmount s with
    | none =>
      rw [hm] at h
      cases h
    | some m =>
      rw [hm] at h
      obtain ⟨hint, hfrac, hs⟩ := matchBareAmount_iff.1 hm
      exact ⟨m.1, m.2, hint, hfrac, hs, toUnits_ok.1 h⟩
  · rintro ⟨int, frac, hint, hfrac, hs, hunits⟩
    rw [matchBareAmount_iff.2 ⟨hint, hfrac, hs⟩]
    exact toUnits_ok.2 hunits

theorem parseAsset_ok {a : AssetAmount} : parseAsset s = .ok a ↔
    ∃ int frac, Digits int ∧ (∀ f, frac = some f → Digits f) ∧
      matchesClass isUpper 1 7 a.symbol = true ∧
      s = bareText int frac ++ unit ' ' :: a.symbol ∧ (fraction frac).length ≤ MAX_PRECISION ∧
      natOfDigits (int ++ fraction frac) ≤ MAX_ASSET_UNITS ∧
      a.units = natOfDigits (int ++ fraction frac) ∧ a.precision = (fraction frac).length := by
  unfold parseAsset
  constructor
  · intro h
    cases hm : matchAsset s with
    | none =>
      rw [hm] at h
      cases h
    | some m =>
      obtain ⟨int, frac, symbol⟩ := m
      rw [hm] at h
      simp only [bind_ok, pure_eq, Except.ok.injEq] at h
      obtain ⟨bare, hbare, rfl⟩ := h
      obtain ⟨hint, hfrac, hclass, hs⟩ := matchAsset_iff.1 hm
      obtain ⟨hp, hu, rfl⟩ := toUnits_ok.1 hbare
      exact ⟨int, frac, hint, hfrac, hclass, hs, hp, hu, rfl, rfl⟩
  · rintro ⟨int, frac, hint, hfrac, hclass, hs, hp, hu, hunits, hprecision⟩
    rw [matchAsset_iff.2 ⟨hint, hfrac, hclass, hs⟩]
    simp only [bind_ok, pure_eq, Except.ok.injEq]
    refine ⟨_, toUnits_ok.2 ⟨hp, hu, rfl⟩, ?_⟩
    rw [← hunits, ← hprecision]

/-! ## The two ways around -/

theorem fraction_written (hfrac : ∀ f, frac = some f → Digits f) :
    (if (fraction frac).length = 0 then none else some (fraction frac)) = frac := by
  cases frac with
  | none => rfl
  | some f => exact if_neg fun hlen => (hfrac f rfl).1 (List.eq_nil_of_length_eq_zero hlen)

theorem fraction_digits (hfrac : ∀ f, frac = some f → Digits f) :
    ∀ u ∈ fraction frac, isDigit u = true := by
  cases frac with
  | none => simp [fraction]
  | some f => exact (hfrac f rfl).2

/-- **Parsing what is formatted** gives the asset back, for every amount and precision in the range
of the source and every symbol it accepts. -/
theorem parseAsset_formatAsset {a : AssetAmount} (hunits : a.units ≤ MAX_ASSET_UNITS)
    (hprecision : a.precision ≤ MAX_PRECISION) (hclass : matchesClass isUpper 1 7 a.symbol = true) :
    parseAsset (formatAsset a) = .ok a := by
  have hspec := digitsOf_spec a.units
  -- the digits, padded so that at least one stands before the point
  set ds := JsString.padStart (a.precision + 1) (unit '0') (digitsOf a.units) with hds
  have hlen : a.precision + 1 ≤ ds.length := by
    rw [hds, JsString.padStart, List.length_append, List.length_replicate]
    omega
  have hdigits : ∀ u ∈ ds, isDigit u = true := by
    intro u hu
    rw [hds, JsString.padStart] at hu
    rcases List.mem_append.1 hu with hu | hu
    · rw [List.eq_of_mem_replicate hu]
      decide
    · exact hspec.digits u hu
  have hvalue : natOfDigits ds = a.units := by
    rw [hds, JsString.padStart, natOfDigits_zeros_append, hspec.value]
  -- the point goes where the precision says, and both parts are digits again
  have hparts := ds.take_append_drop (ds.length - a.precision)
  set int := ds.take (ds.length - a.precision) with hint
  set f := ds.drop (ds.length - a.precision) with hf
  have hflen : f.length = a.precision := by
    rw [hf, List.length_drop]
    omega
  have hintlen : int.length ≠ 0 := by
    rw [hint, List.length_take]
    omega
  have hfdigits : ∀ u ∈ f, isDigit u = true := fun u hu => hdigits u (List.mem_of_mem_drop hu)
  have hfraction : fraction (if a.precision = 0 then none else some f) = f := by
    by_cases hp : a.precision = 0
    · rw [if_pos hp, List.eq_nil_of_length_eq_zero (hflen.trans hp)]
      rfl
    · rw [if_neg hp]
      rfl
  -- the text is of the form the parser asks for, and it reads back the units
  refine parseAsset_ok.2 ⟨int, if a.precision = 0 then none else some f,
    ⟨List.ne_nil_of_length_pos (Nat.pos_of_ne_zero hintlen),
      fun u hu => hdigits u (List.mem_of_mem_take hu)⟩, ?_, hclass, ?_, ?_, ?_, ?_, ?_⟩
  · intro g hg
    by_cases hp : a.precision = 0
    · rw [if_pos hp] at hg
      cases hg
    · rw [if_neg hp, Option.some.injEq] at hg
      rw [← hg]
      exact ⟨List.ne_nil_of_length_pos (by omega), hfdigits⟩
  · rw [formatAsset, formatBareAmount_parts (hds.symm.trans hparts.symm) hflen, List.append_assoc]
    rfl
  · rwa [hfraction, hflen]
  · rwa [hfraction, hparts, hvalue]
  · rw [hfraction, hparts, hvalue]
  · rw [hfraction, hflen]

theorem trimZeros_cases (ds : JsString) :
    trimZeros ds = js "0" ∨ trimZeros ds ≠ [] ∧ (trimZeros ds).head? ≠ some (unit '0') := by
  obtain ⟨z, rest, -, hhead, hdrop⟩ := zeros_split ds
  rw [trimZeros, hdrop]
  cases rest with
  | nil => exact Or.inl rfl
  | cons u us => exact Or.inr ⟨by simp, hhead⟩

theorem natOfDigits_trimZeros (ds : JsString) : natOfDigits (trimZeros ds) = natOfDigits ds := by
  obtain ⟨z, rest, hds, -, hdrop⟩ := zeros_split ds
  rw [trimZeros, hdrop, hds, natOfDigits_zeros_append]
  cases rest with
  | nil => decide
  | cons u us => rfl

theorem trimZeros_digits {ds : JsString} (h : ∀ u ∈ ds, isDigit u = true) :
    ∀ u ∈ trimZeros ds, isDigit u = true := by
  rw [← digitsOf_natOfDigits h]
  exact (digitsOf_spec _).digits

/-- **Formatting what is written**: the integer part loses its redundant zeros. The fraction is
kept digit for digit, since its length is the precision. -/
theorem formatBareAmount_written (hint : Digits int) (hfrac : ∀ f, frac = some f → Digits f) :
    formatBareAmount ⟨natOfDigits (int ++ fraction frac), (fraction frac).length⟩ =
      bareText (trimZeros int) frac := by
  set f := fraction frac with hf
  have hdigits : ∀ u ∈ trimZeros int ++ f, isDigit u = true := by
    intro u hu
    rcases List.mem_append.1 hu with hu | hu
    · exact trimZeros_digits hint.2 u hu
    · exact fraction_digits hfrac u hu
  have hvalue : natOfDigits (int ++ f) = natOfDigits (trimZeros int ++ f) := by
    rw [natOfDigits_append, natOfDigits_append, natOfDigits_trimZeros]
  have hpad : JsString.padStart (f.length + 1) (unit '0') (digitsOf (natOfDigits (int ++ f))) =
      trimZeros int ++ f := by
    rw [hvalue, digitsOf_natOfDigits hdigits]
    rcases trimZeros_cases int with hzero | ⟨hne, hhead⟩
    · -- the one zero before the point is padding
      have hone : js "0" = [unit '0'] := by decide
      have hlen : f.length + 1 = (js "0" ++ f).length := by
        rw [hone, List.length_append, List.length_singleton]
        omega
      rw [hzero, hlen]
      exact padStart_trimZeros (by rw [hone]; simp)
    · obtain ⟨u, us, hcons⟩ := List.exists_cons_of_ne_nil hne
      have hkept : trimZeros (trimZeros int ++ f) = trimZeros int ++ f := by
        rw [hcons] at hhead ⊢
        have hu : ¬ u = unit '0' := by simpa using hhead
        rw [List.cons_append, trimZeros, List.dropWhile_cons, if_neg (by simpa using hu)]
      have hlong : f.length + 1 ≤ (trimZeros int ++ f).length := by
        rw [hcons, List.length_append, List.length_cons]
        omega
      rw [hkept]
      exact padStart_long hlong
  rw [formatBareAmount_parts hpad rfl, hf, fraction_written hfrac]

/-! ## Values -/

/-- The value of a written decimal. -/
def decimalValue (s : JsString) : ℚ :=
  match JsString.split (unit '.') s with
  | [] => 0
  | [int] => natOfDigits int
  | int :: frac :: _ => natOfDigits int + natOfDigits frac / 10 ^ frac.length

theorem decimalValue_bareText (hint : Digits int) (hfrac : ∀ f, frac = some f → Digits f) :
    decimalValue (bareText int frac) =
      (natOfDigits (int ++ fraction frac) : ℚ) / 10 ^ (fraction frac).length := by
  have hpoint : ∀ {ds : JsString}, Digits ds → unit '.' ∉ ds := by
    intro ds hds hmem
    have hdigit := hds.2 _ hmem
    revert hdigit
    decide
  cases frac with
  | none => simp [decimalValue, bareText, fraction, split_plain (hpoint hint)]
  | some f =>
    have hsplit : JsString.split (unit '.') (bareText int (some f)) = [int, f] := by
      rw [bareText, split_append (hpoint hint), split_plain (hpoint (hfrac f rfl))]
    have hpow : (10 : ℚ) ^ f.length ≠ 0 := by positivity
    rw [decimalValue, hsplit]
    simp only [fraction, Option.getD_some]
    rw [natOfDigits_append]
    push_cast
    field_simp

/-- **Amounts of one precision compare as their values.** Of different precisions the source
refuses to compare. -/
theorem compareBareAmounts_value {t : JsString} {a b : BareAmount} (ha : parseBareAmount s = .ok a)
    (hb : parseBareAmount t = .ok b) (h : a.precision = b.precision) :
    compareBareAmounts a b = .ok (cmp (decimalValue s) (decimalValue t)) := by
  obtain ⟨int, frac, hint, hfrac, rfl, -, -, rfl⟩ := parseBareAmount_ok.1 ha
  obtain ⟨int', frac', hint', hfrac', rfl, -, -, rfl⟩ := parseBareAmount_ok.1 hb
  have hmono : StrictMono fun n : ℕ => (n : ℚ) / 10 ^ (fraction frac).length := by
    intro m n hmn
    have hcast : (m : ℚ) < n := by exact_mod_cast hmn
    exact div_lt_div_of_pos_right hcast (by positivity)
  have hlen : (fraction frac).length = (fraction frac').length := h
  rw [compareBareAmounts, if_neg (not_not.2 h), decimalValue_bareText hint hfrac,
    decimalValue_bareText hint' hfrac', ← hlen]
  exact congrArg Except.ok ((hmono.cmp_map_eq _ _).trans (cmp_eq_compare _ _)).symm

/-! ## The quantity of an action -/

theorem normalizeMembers_lookup {depth : ℕ} (key : JsString) :
    ∀ {ms ns : List (JsString × Json)}, normalizeMembers depth ms = .ok ns →
      Option.Rel (fun v w => normalizeValue (depth + 1) v = .ok w) (ms.lookup key) (ns.lookup key)
  | [], ns, hnorm => by
    obtain rfl : [] = ns := Except.ok.inj hnorm
    exact .none
  | (k, u) :: ms, ns, hnorm => by
    rw [normalizeMembers] at hnorm
    split at hnorm
    · cases hnorm
    · simp only [bind_ok, pure_eq, Except.ok.injEq] at hnorm
      obtain ⟨w, hw, ws, hws, rfl⟩ := hnorm
      rw [List.lookup_cons, List.lookup_cons]
      cases key == k with
      | true => exact .some hw
      | false => exact normalizeMembers_lookup key hws

theorem toInt?_ofNat {n : ℕ} (h : n ≤ MAX_PRECISION) :
    (JsNumber.finite (.ofNat n)).toInt? = some (n : ℤ) := by
  have hall : ∀ m, m < 19 → (JsNumber.finite (.ofNat m)).toInt? = some (m : ℤ) := by decide
  exact hall n (by unfold MAX_PRECISION at h; omega)

theorem expandAssetString_asset (h : matchAsset s = some (int, frac, symbol)) :
    expandAssetString s = .obj .ordinary [(js "amount", .str (bareText int frac)),
      (js "symbol", .str symbol),
      (js "precision", .num (.finite (.ofNat (fraction frac).length)))] := by
  rw [expandAssetString, h]
  cases frac with
  | none => rfl
  | some f =>
    have hpoint : int ++ js "." ++ f = bareText int (some f) := List.append_assoc ..
    simp only [hpoint]
    rfl

theorem assetOf_object {action : DecodedAction} {p : Proto} {amount : JsString} {n : JsNumber}
    (h : action.field? (js "quantity") = some (.obj p [(js "amount", .str amount),
      (js "symbol", .str symbol), (js "precision", .num n)])) :
    xprDialect.assetOf action = parseBareAmount amount >>= fun bare =>
      if n.toInt? = some (bare.precision : ℤ) then .ok ⟨bare.units, symbol, bare.precision⟩
      else .error (.ambiguous (js "normalized quantity precision mismatch")) := by
  unfold xprDialect.assetOf
  rw [h]
  rfl

/-- **A text in `data.quantity`** is the asset that the policy side reads from it, or none. The
normalizer expands the text into an object first, so this goes through what the object reads as. -/
theorem assetOf_quantity {raw : XprActionJson} {action : DecodedAction}
    (hraw : raw.data.lookup (js "quantity") = some (.str s)) (hnorm : normalizeAction raw = .ok action)
    (a : AssetAmount) : xprDialect.assetOf action = .ok a ↔ parseAsset s = .ok a := by
  simp only [normalizeAction, bind_ok, pure_eq, Except.ok.injEq] at hnorm
  obtain ⟨data, hdata, rfl⟩ := hnorm
  -- the normalizer has put the expanded text in the place of the text
  have hlook : data.lookup (js "quantity") = some (expandAssetString s) := by
    have hrel := normalizeMembers_lookup (js "quantity") hdata
    rw [hraw] at hrel
    cases hlook : data.lookup (js "quantity") with
    | none =>
      rw [hlook] at hrel
      cases hrel
    | some w =>
      rw [hlook] at hrel
      cases hrel with
      | some hw => exact congrArg some (Except.ok.inj hw).symm
  cases hm : matchAsset s with
  -- a text that is no asset is left as it is, and neither side reads it
  | none =>
    rw [expandAssetString, hm] at hlook
    simp [xprDialect.assetOf, DecodedAction.field?, hlook, parseAsset, hm]
  | some m =>
    obtain ⟨int, frac, symbol⟩ := m
    obtain ⟨hint, hfrac, hclass, rfl⟩ := matchAsset_iff.1 hm
    rw [expandAssetString_asset hm] at hlook
    have hfield : (DecodedAction.mk raw.account raw.name raw.authorization data).field?
        (js "quantity") = _ := hlook
    rw [assetOf_object hfield, bind_ok]
    constructor
    -- both sides cut the text at the same places, because the grammar leaves no choice
    · rintro ⟨bare, hbare, h⟩
      obtain ⟨int', frac', hint', hfrac', htext, hp, hu, rfl⟩ := parseBareAmount_ok.1 hbare
      have hparts : some (int, frac) = some (int', frac') := by
        rw [← matchBareAmount_iff.2 ⟨hint, hfrac, rfl⟩, htext,
          matchBareAmount_iff.2 ⟨hint', hfrac', rfl⟩]
      obtain ⟨rfl, rfl⟩ := Prod.mk.inj (Option.some.inj hparts)
      rw [if_pos (toInt?_ofNat hp)] at h
      rw [← Except.ok.inj h]
      exact parseAsset_ok.2 ⟨int, frac, hint, hfrac, hclass, rfl, hp, hu, rfl, rfl⟩
    · intro h
      obtain ⟨int', frac', hint', hfrac', hclass', htext, hp, hu, hunits, hprecision⟩ :=
        parseAsset_ok.1 h
      have hparts : some (int, frac, symbol) = some (int', frac', a.symbol) := by
        rw [← hm, htext, matchAsset_iff.2 ⟨hint', hfrac', hclass', rfl⟩]
      obtain ⟨rfl, hrest⟩ := Prod.mk.inj (Option.some.inj hparts)
      obtain ⟨rfl, rfl⟩ := Prod.mk.inj hrest
      refine ⟨_, parseBareAmount_ok.2 ⟨int, frac, hint, hfrac, rfl, hp, hu, rfl⟩, ?_⟩
      rw [if_pos (toInt?_ofNat hp), ← hunits, ← hprecision]

/-- **The asset codec.** An asset that is formatted parses back; a text that is parsed and
formatted loses only the redundant zeros of its integer part; amounts of one precision compare as
the rationals they denote; and what the policy reads from a decoded quantity is what the text
parses to. -/
theorem asset_codec :
    (∀ a : AssetAmount, a.units ≤ MAX_ASSET_UNITS → a.precision ≤ MAX_PRECISION →
      matchesClass isUpper 1 7 a.symbol = true → parseAsset (formatAsset a) = .ok a) ∧
    (∀ s a, parseAsset s = .ok a → ∃ int rest, s = int ++ rest ∧ Digits int ∧
      (∀ u ∈ rest.head?, isDigit u = false) ∧ formatAsset a = trimZeros int ++ rest) ∧
    (∀ s t a b, parseBareAmount s = .ok a → parseBareAmount t = .ok b →
      a.precision = b.precision →
      compareBareAmounts a b = .ok (cmp (decimalValue s) (decimalValue t))) ∧
    (∀ s raw action, raw.data.lookup (js "quantity") = some (.str s) →
      normalizeAction raw = .ok action →
      ∀ a, xprDialect.assetOf action = .ok a ↔ parseAsset s = .ok a) := by
  refine ⟨fun a => parseAsset_formatAsset, ?_, fun s t a b => compareBareAmounts_value,
    fun s raw action hraw hnorm a => assetOf_quantity hraw hnorm a⟩
  intro s a h
  obtain ⟨int, frac, hint, hfrac, -, rfl, -, -, hunits, hprecision⟩ := parseAsset_ok.1 h
  have hformat : formatAsset a = bareText (trimZeros int) frac ++ unit ' ' :: a.symbol := by
    rw [formatAsset, hunits, hprecision, formatBareAmount_written hint hfrac, List.append_assoc]
    rfl
  rw [hformat]
  cases frac with
  | none =>
    refine ⟨int, unit ' ' :: a.symbol, rfl, hint, ?_, rfl⟩
    intro u hu
    rw [List.head?_cons, Option.mem_some_iff] at hu
    rw [← hu]
    decide
  | some f =>
    refine ⟨int, unit '.' :: (f ++ unit ' ' :: a.symbol), ?_, hint, ?_, ?_⟩
    · simp [bareText]
    · intro u hu
      rw [List.head?_cons, Option.mem_some_iff] at hu
      rw [← hu]
      decide
    · simp [bareText]

/-! A transfer of `012.0500 XPR`. -/

namespace WrittenAmount

def amount : AssetAmount := ⟨120500, js "XPR", 4⟩

def raw : XprActionJson := ⟨js "eosio.token", js "transfer", [⟨js "bot", js "active"⟩],
  [(js "quantity", .str (js "012.0500 XPR"))]⟩

def action : DecodedAction := ⟨js "eosio.token", js "transfer", [⟨js "bot", js "active"⟩],
  [(js "quantity", expandAssetString (js "012.0500 XPR"))]⟩

/-- The amount of a transfer: `12.0500 XPR` round-trips, the text `012.0500 XPR` loses its leading
zero, and the policy reads the same amount from the decoded quantity as from the text. -/
theorem asset_codec_transfer :
    parseAsset (formatAsset amount) = .ok amount ∧
    (∃ int rest, js "012.0500 XPR" = int ++ rest ∧ Digits int ∧
      (∀ u ∈ rest.head?, isDigit u = false) ∧ formatAsset amount = trimZeros int ++ rest) ∧
    compareBareAmounts ⟨15, 1⟩ ⟨20, 1⟩ =
      .ok (cmp (decimalValue (js "1.5")) (decimalValue (js "2.0"))) ∧
    (xprDialect.assetOf action = .ok amount ↔ parseAsset (js "012.0500 XPR") = .ok amount) := by
  obtain ⟨hformat, hparse, hcompare, hquantity⟩ := asset_codec
  exact ⟨hformat amount (by decide) (by decide) (by decide), hparse _ amount (by decide),
    hcompare _ _ _ _ (by decide) (by decide) rfl, hquantity _ raw action rfl rfl amount⟩

end WrittenAmount

end Signbox
