import Signbox.Proof.Canonical

/-!
# The bytes of a text

The UTF-8 bytes of a well-formed string determine it: `decodeUtf8` reads them back. The text of
a value is well-formed whatever its strings are, because a lone surrogate is escaped.

* `decode_utf8`, `utf8_inj`: the bytes of a well-formed string read back as the string.
* `wellFormed_of_decode`: those of no other string do.
* `wellFormed_render`, `wellFormed_stringify`: the text of a value is well-formed.
-/

namespace Signbox

/-- No lone surrogates. -/
inductive WellFormed : JsString → Prop
  | nil : WellFormed []
  | unit {u : UInt16} {us : JsString} (hhigh : isHighSurrogate u = false)
      (hlow : isLowSurrogate u = false) (h : WellFormed us) : WellFormed (u :: us)
  | pair {u v : UInt16} {us : JsString} (hhigh : isHighSurrogate u = true)
      (hlow : isLowSurrogate v = true) (h : WellFormed us) : WellFormed (u :: v :: us)

/-! ## Bytes -/

/-- A number below 256 fits in a byte. -/
theorem toNat_toUInt8 {n : ℕ} (h : n < 0x100) : n.toUInt8.toNat = n :=
  Nat.mod_eq_of_lt h

variable {a b c d : UInt8} {bs : List UInt8}

/-- A byte that starts a longer sequence is remembered. -/
theorem utf8Read_start {p : Utf8State} (h : utf8Start a.toNat = ([], some p)) :
    utf8Read none (a :: bs) = utf8Read (some p) bs := by
  rw [utf8Read, h, List.nil_append]

/-- A byte within its bounds that is not the last of its character. -/
theorem utf8Read_more {x n lo hi k : ℕ} (hb : lo ≤ b.toNat ∧ b.toNat ≤ hi) (hn : 1 < n)
    (hk : x * 0x40 + (b.toNat - 0x80) = k) :
    utf8Read (some ⟨x, n, lo, hi⟩) (b :: bs) = utf8Read (some ⟨k, n - 1, 0x80, 0xBF⟩) bs := by
  rw [utf8Read, if_pos hb]
  simp only [Nat.not_le.2 hn, if_false, hk]

/-- The last byte of a character. -/
theorem utf8Read_last {x lo hi k : ℕ} (hb : lo ≤ b.toNat ∧ b.toNat ≤ hi)
    (hk : x * 0x40 + (b.toNat - 0x80) = k) :
    utf8Read (some ⟨x, 1, lo, hi⟩) (b :: bs) = unitsOfPoint k ++ utf8Read none bs := by
  rw [utf8Read, if_pos hb]
  simp only [Nat.le_refl, if_true, hk]

/-- A point in one byte. -/
theorem utf8Read_one {k : ℕ} (hk : k < 0x80) (ha : a.toNat = k) :
    utf8Read none (a :: bs) = k.toUInt16 :: utf8Read none bs := by
  have hstart : utf8Start a.toNat = ([k.toUInt16], none) := by
    rw [ha, utf8Start, if_pos hk]
  rw [utf8Read, hstart]
  rfl

/-- A point in two bytes. -/
theorem utf8Read_two {k : ℕ} (hk : 0x80 ≤ k) (hk' : k < 0x800) (ha : a.toNat = 0xC0 + k / 0x40)
    (hb : b.toNat = 0x80 + k % 0x40) :
    utf8Read none (a :: b :: bs) = unitsOfPoint k ++ utf8Read none bs := by
  have hstart : utf8Start a.toNat = ([], some ⟨a.toNat - 0xC0, 1, 0x80, 0xBF⟩) := by
    rw [utf8Start, if_neg (by omega), if_neg (by omega), if_pos (by omega)]
  have hlast : 0x80 ≤ b.toNat ∧ b.toNat ≤ 0xBF := by omega
  have hpoint : (a.toNat - 0xC0) * 0x40 + (b.toNat - 0x80) = k := by omega
  rw [utf8Read_start hstart, utf8Read_last hlast hpoint]

/-- A point in three bytes: not a surrogate, and not one of two bytes. -/
theorem utf8Read_three {k : ℕ} (hk : 0x800 ≤ k) (hk' : k < 0x10000)
    (hsurrogate : ¬ (0xD800 ≤ k ∧ k ≤ 0xDFFF)) (ha : a.toNat = 0xE0 + k / 0x1000)
    (hb : b.toNat = 0x80 + k / 0x40 % 0x40) (hc : c.toNat = 0x80 + k % 0x40) :
    utf8Read none (a :: b :: c :: bs) = unitsOfPoint k ++ utf8Read none bs := by
  have hstart : utf8Start a.toNat = ([], some ⟨a.toNat - 0xE0, 2,
      if a.toNat = 0xE0 then 0xA0 else 0x80, if a.toNat = 0xED then 0x9F else 0xBF⟩) := by
    rw [utf8Start, if_neg (by omega), if_neg (by omega), if_neg (by omega), if_pos (by omega)]
  have hsecond : (if a.toNat = 0xE0 then 0xA0 else 0x80) ≤ b.toNat ∧
      b.toNat ≤ (if a.toNat = 0xED then 0x9F else 0xBF) := by
    constructor <;> split <;> omega
  have hlast : 0x80 ≤ c.toNat ∧ c.toNat ≤ 0xBF := by omega
  have hpoint : ((a.toNat - 0xE0) * 0x40 + (b.toNat - 0x80)) * 0x40 + (c.toNat - 0x80) = k := by
    omega
  rw [utf8Read_start hstart, utf8Read_more hsecond (by decide) rfl,
    utf8Read_last hlast hpoint]

/-- A point in four bytes. -/
theorem utf8Read_four {k : ℕ} (hk : 0x10000 ≤ k) (hk' : k < 0x110000)
    (ha : a.toNat = 0xF0 + k / 0x40000) (hb : b.toNat = 0x80 + k / 0x1000 % 0x40)
    (hc : c.toNat = 0x80 + k / 0x40 % 0x40) (hd : d.toNat = 0x80 + k % 0x40) :
    utf8Read none (a :: b :: c :: d :: bs) = unitsOfPoint k ++ utf8Read none bs := by
  have hstart : utf8Start a.toNat = ([], some ⟨a.toNat - 0xF0, 3,
      if a.toNat = 0xF0 then 0x90 else 0x80, if a.toNat = 0xF4 then 0x8F else 0xBF⟩) := by
    rw [utf8Start, if_neg (by omega), if_neg (by omega), if_neg (by omega), if_neg (by omega),
      if_pos (by omega)]
  have hsecond : (if a.toNat = 0xF0 then 0x90 else 0x80) ≤ b.toNat ∧
      b.toNat ≤ (if a.toNat = 0xF4 then 0x8F else 0xBF) := by
    constructor <;> split <;> omega
  have hthird : 0x80 ≤ c.toNat ∧ c.toNat ≤ 0xBF := by omega
  have hlast : 0x80 ≤ d.toNat ∧ d.toNat ≤ 0xBF := by omega
  have hpoint : (((a.toNat - 0xF0) * 0x40 + (b.toNat - 0x80)) * 0x40 + (c.toNat - 0x80)) * 0x40 +
      (d.toNat - 0x80) = k := by omega
  rw [utf8Read_start hstart, utf8Read_more hsecond (by decide) rfl,
    utf8Read_more hthird (by decide) rfl, utf8Read_last hlast hpoint]

/-- The bounds of a surrogate. -/
theorem toNat_of_high {u : UInt16} (h : isHighSurrogate u = true) :
    0xD800 ≤ u.toNat ∧ u.toNat ≤ 0xDBFF := by
  simpa [isHighSurrogate, UInt16.le_iff_toNat_le] using h

/-- The range of the low surrogates. -/
theorem toNat_of_low {u : UInt16} (h : isLowSurrogate u = true) :
    0xDC00 ≤ u.toNat ∧ u.toNat ≤ 0xDFFF := by
  simpa [isLowSurrogate, UInt16.le_iff_toNat_le] using h

/-- What is no surrogate lies outside both ranges. -/
theorem toNat_of_neither {u : UInt16} (hhigh : isHighSurrogate u = false)
    (hlow : isLowSurrogate u = false) : ¬ (0xD800 ≤ u.toNat ∧ u.toNat ≤ 0xDFFF) := by
  have hhigh' : ¬ (0xD800 ≤ u.toNat ∧ u.toNat ≤ 0xDBFF) := by
    simpa [isHighSurrogate, UInt16.le_iff_toNat_le] using hhigh
  have hlow' : ¬ (0xDC00 ≤ u.toNat ∧ u.toNat ≤ 0xDFFF) := by
    simpa [isLowSurrogate, UInt16.le_iff_toNat_le] using hlow
  omega

/-- One unit that is no surrogate, in one, two or three bytes. -/
theorem decode_utf8Single {u : UInt16} (hhigh : isHighSurrogate u = false)
    (hlow : isLowSurrogate u = false) (bs : List UInt8) :
    utf8Read none (utf8.single u ++ bs) = u :: utf8Read none bs := by
  have hlt := u.toNat_lt
  have hunit : u.toNat.toUInt16 = u := UInt16.ofNat_toNat
  have hpoint : unitsOfPoint u.toNat = [u] := by rw [unitsOfPoint, if_pos hlt, hunit]
  unfold utf8.single
  simp only [hhigh, hlow, Bool.or_self, Bool.false_eq_true, if_false]
  by_cases h1 : u.toNat < 0x80
  · have ha := toNat_toUInt8 (n := u.toNat) (by omega)
    rw [if_pos h1, List.singleton_append, utf8Read_one h1 ha, hunit]
  rw [if_neg h1]
  by_cases h2 : u.toNat < 0x800
  · have ha := toNat_toUInt8 (n := 0xC0 + u.toNat / 0x40) (by omega)
    have hb := toNat_toUInt8 (n := 0x80 + u.toNat % 0x40) (by omega)
    rw [if_pos h2, List.cons_append, List.singleton_append, utf8Read_two (by omega) h2 ha hb, hpoint]
    rfl
  rw [if_neg h2]
  have ha := toNat_toUInt8 (n := 0xE0 + u.toNat / 0x1000) (by omega)
  have hb := toNat_toUInt8 (n := 0x80 + u.toNat / 0x40 % 0x40) (by omega)
  have hc := toNat_toUInt8 (n := 0x80 + u.toNat % 0x40) (by omega)
  have hsurrogate := toNat_of_neither hhigh hlow
  rw [List.cons_append, List.cons_append, List.singleton_append,
    utf8Read_three (by omega) hlt hsurrogate ha hb hc, hpoint]
  rfl

/-- A surrogate pair, in four bytes. -/
theorem decode_utf8Pair {u v : UInt16} (hhigh : isHighSurrogate u = true)
    (hlow : isLowSurrogate v = true) (us : JsString) :
    utf8Read none (utf8 (u :: v :: us)) = u :: v :: utf8Read none (utf8 us) := by
  obtain ⟨hu, hu'⟩ := toNat_of_high hhigh
  obtain ⟨hv, hv'⟩ := toNat_of_low hlow
  obtain ⟨k, hk⟩ : ∃ k, 0x10000 + (u.toNat - 0xD800) * 0x400 + (v.toNat - 0xDC00) = k := ⟨_, rfl⟩
  have huk : 0xD800 + (k - 0x10000) / 0x400 = u.toNat := by omega
  have hvk : 0xDC00 + (k - 0x10000) % 0x400 = v.toNat := by omega
  have ha := toNat_toUInt8 (n := 0xF0 + k / 0x40000) (by omega)
  have hb := toNat_toUInt8 (n := 0x80 + k / 0x1000 % 0x40) (by omega)
  have hc := toNat_toUInt8 (n := 0x80 + k / 0x40 % 0x40) (by omega)
  have hd := toNat_toUInt8 (n := 0x80 + k % 0x40) (by omega)
  have hu16 : u.toNat.toUInt16 = u := UInt16.ofNat_toNat
  have hv16 : v.toNat.toUInt16 = v := UInt16.ofNat_toNat
  have hunits : unitsOfPoint k = [u, v] := by
    rw [unitsOfPoint, if_neg (by omega), huk, hvk, hu16, hv16]
  rw [utf8, hhigh, hlow, Bool.and_self, if_pos rfl]
  simp only [hk]
  rw [List.cons_append, List.cons_append, List.cons_append, List.singleton_append,
    utf8Read_four (by omega) (by omega) ha hb hc hd, hunits]
  rfl

/-- A unit that does not start a surrogate pair is written on its own. -/
theorem utf8_single {u : UInt16} {us : JsString}
    (h : ∀ v vs, us = v :: vs → (isHighSurrogate u && isLowSurrogate v) = false) :
    utf8 (u :: us) = utf8.single u ++ utf8 us := by
  cases us with
  | nil => simp [utf8]
  | cons v vs => rw [utf8, h v vs rfl, if_neg (by decide)]

/-- A lone surrogate is written as U+FFFD, and reads back as it. -/
theorem decode_utf8Lone {u : UInt16} (h : (isHighSurrogate u || isLowSurrogate u) = true)
    (bs : List UInt8) : utf8Read none (utf8.single u ++ bs) = 0xFFFD :: utf8Read none bs := by
  have hsingle : utf8.single u = [0xEF, 0xBF, 0xBD] := by
    unfold utf8.single
    rw [if_pos h]
    rfl
  have hpoint : unitsOfPoint 0xFFFD = [0xFFFD] := rfl
  rw [hsingle, List.cons_append, List.cons_append, List.singleton_append,
    utf8Read_three (k := 0xFFFD) (by decide) (by decide) (by decide) rfl rfl rfl, hpoint,
    List.singleton_append]

/-- **The bytes of a well-formed string read back as the string.** A pair of surrogates becomes
four bytes and comes back as the pair. -/
theorem decode_utf8 {s : JsString} (h : WellFormed s) : decodeUtf8 (utf8 s) = s := by
  unfold decodeUtf8
  induction h with
  | nil => rfl
  | @unit u us hhigh hlow _ ih =>
    have hsingle : utf8 (u :: us) = utf8.single u ++ utf8 us :=
      utf8_single fun v vs _ => by rw [hhigh, Bool.false_and]
    rw [hsingle, decode_utf8Single hhigh hlow, ih]
  | @pair u v us hhigh hlow _ ih => rw [decode_utf8Pair hhigh hlow, ih]

/-- A first unit that reads back is no surrogate, and the rest reads back too. -/
theorem plain_of_decode {u : UInt16} {us : JsString}
    (hsingle : utf8 (u :: us) = utf8.single u ++ utf8 us)
    (h : decodeUtf8 (utf8 (u :: us)) = u :: us) :
    isHighSurrogate u = false ∧ isLowSurrogate u = false ∧ decodeUtf8 (utf8 us) = us := by
  rw [decodeUtf8, hsingle] at h
  by_cases hlone : (isHighSurrogate u || isLowSurrogate u) = true
  · -- U+FFFD is read in its place, which is no surrogate
    rw [decode_utf8Lone hlone, List.cons.injEq] at h
    rw [← h.1] at hlone
    exact absurd hlone (by decide)
  · rw [Bool.or_eq_true, not_or, Bool.not_eq_true, Bool.not_eq_true] at hlone
    rw [decode_utf8Single hlone.1 hlone.2, List.cons.injEq] at h
    exact ⟨hlone.1, hlone.2, h.2⟩

/-- **No other string reads back as it was**: only a well-formed one does. A lone surrogate is
encoded as the replacement character and comes back as that. -/
theorem wellFormed_of_decode : ∀ {s : JsString}, decodeUtf8 (utf8 s) = s → WellFormed s
  | [], _ => .nil
  | [u], h => by
    have hsingle : utf8 [u] = utf8.single u ++ utf8 [] :=
      utf8_single fun _ _ hnil => absurd hnil.symm (List.cons_ne_nil _ _)
    obtain ⟨hhigh, hlow, -⟩ := plain_of_decode hsingle h
    exact .unit hhigh hlow .nil
  | u :: v :: us, h => by
    by_cases hpair : (isHighSurrogate u && isLowSurrogate v) = true
    · obtain ⟨hu, hv⟩ := Bool.and_eq_true_iff.1 hpair
      rw [decodeUtf8, decode_utf8Pair hu hv, List.cons.injEq, List.cons.injEq] at h
      exact .pair hu hv (wellFormed_of_decode h.2.2)
    · have hsingle : utf8 (u :: v :: us) = utf8.single u ++ utf8 (v :: us) := by
        refine utf8_single fun w ws hw => ?_
        rw [← (List.cons.inj hw).1]
        exact Bool.eq_false_iff.2 hpair
      obtain ⟨hhigh, hlow, hrest⟩ := plain_of_decode hsingle h
      exact .unit hhigh hlow (wellFormed_of_decode hrest)

/-- Two well-formed strings with the same bytes are the same string. -/
theorem utf8_inj {s t : JsString} (hs : WellFormed s) (ht : WellFormed t)
    (h : utf8 s = utf8 t) : s = t := by
  rw [← decode_utf8 hs, h, decode_utf8 ht]

/-! ## Texts without lone surrogates -/

/-- Well-formed texts may be joined: no pair is cut at the seam. -/
theorem WellFormed.append {s t : JsString} (hs : WellFormed s) (ht : WellFormed t) :
    WellFormed (s ++ t) := by
  induction hs with
  | nil => exact ht
  | unit hhigh hlow _ ih => exact .unit hhigh hlow ih
  | pair hhigh hlow _ ih => exact .pair hhigh hlow ih

/-- Not a surrogate. -/
def Plain (u : UInt16) : Prop := isHighSurrogate u = false ∧ isLowSurrogate u = false

/-- Whether a unit is plain is decided by its range. -/
instance (u : UInt16) : Decidable (Plain u) :=
  inferInstanceAs (Decidable (isHighSurrogate u = false ∧ isLowSurrogate u = false))

/-- A literal of the source is checked unit by unit. -/
theorem plain_literal {s : JsString} (h : s.all (Plain ·) = true) : ∀ u ∈ s, Plain u := by
  intro u hu
  simpa using List.all_eq_true.1 h u hu

/-- A text without surrogates is well formed. -/
theorem wellFormed_of_plain {s : JsString} (h : ∀ u ∈ s, Plain u) : WellFormed s := by
  induction s with
  | nil => exact .nil
  | cons u us ih =>
    have hu := h u (by simp)
    exact .unit hu.1 hu.2 (ih fun v hv => h v (by simp [hv]))

/-- So a literal is, by evaluation. -/
theorem wellFormed_literal {s : JsString} (h : s.all (Plain ·) = true) : WellFormed s :=
  wellFormed_of_plain (plain_literal h)

/-- The digits of an escape are plain letters. -/
theorem plain_hexDigit (n : ℕ) : Plain (hexDigit (n % 16)) := by
  have hall : ∀ m, m < 16 → Plain (hexDigit m) := by decide
  exact hall _ (Nat.mod_lt _ (by omega))

/-- An escaped unit is well formed, since a lone surrogate is written as an escape. -/
theorem wellFormed_escapeUnit (u : UInt16) : WellFormed (escapeUnit u) := by
  unfold escapeUnit
  by_cases h1 : u = unit '"'
  · rw [if_pos h1]
    exact wellFormed_literal (by decide)
  rw [if_neg h1]
  by_cases h2 : u = unit '\\'
  · rw [if_pos h2]
    exact wellFormed_literal (by decide)
  rw [if_neg h2]
  by_cases h3 : u = 0x08
  · rw [if_pos h3]
    exact wellFormed_literal (by decide)
  rw [if_neg h3]
  by_cases h4 : u = 0x09
  · rw [if_pos h4]
    exact wellFormed_literal (by decide)
  rw [if_neg h4]
  by_cases h5 : u = 0x0A
  · rw [if_pos h5]
    exact wellFormed_literal (by decide)
  rw [if_neg h5]
  by_cases h6 : u = 0x0C
  · rw [if_pos h6]
    exact wellFormed_literal (by decide)
  rw [if_neg h6]
  by_cases h7 : u = 0x0D
  · rw [if_pos h7]
    exact wellFormed_literal (by decide)
  rw [if_neg h7]
  by_cases h8 : (u < 0x20 || isHighSurrogate u || isLowSurrogate u) = true
  · rw [if_pos h8, unicodeEscape]
    refine (wellFormed_literal (by decide)).append (wellFormed_of_plain ?_)
    intro v hv
    simp only [List.mem_cons, List.not_mem_nil, or_false] at hv
    rcases hv with rfl | rfl | rfl | rfl <;> exact plain_hexDigit _
  · rw [if_neg h8]
    simp only [Bool.or_eq_true, not_or, Bool.not_eq_true] at h8
    exact .unit h8.1.2 h8.2 .nil

/-- So is every escaped text: the pairs of surrogates are kept together. -/
theorem wellFormed_escapeUnits (s : JsString) : WellFormed (escapeUnits s) := by
  fun_induction escapeUnits s with
  | case1 => exact .nil
  | case2 u => exact wellFormed_escapeUnit u
  | case3 u v us hpair ih =>
    obtain ⟨hu, hv⟩ := Bool.and_eq_true_iff.1 hpair
    exact .pair hu hv ih
  | case4 u v us hpair ih => exact (wellFormed_escapeUnit u).append ih

/-- And so is every quoted one. -/
theorem wellFormed_quote (s : JsString) : WellFormed (quote s) := by
  have hquote : Plain (unit '"') := by decide
  exact .unit hquote.1 hquote.2 ((wellFormed_escapeUnits s).append (.unit hquote.1 hquote.2 .nil))

/-- Digits are plain, -/
theorem plain_of_isDigit {u : UInt16} (h : isDigit u = true) : Plain u := by
  have hle : u.toNat ≤ (unit '9').toNat := by
    have := (Bool.and_eq_true_iff.1 h).2
    simpa [UInt16.le_iff_toNat_le] using this
  have hnine : (unit '9').toNat = 0x39 := by decide
  constructor
  · by_contra hhigh
    rw [Bool.not_eq_false] at hhigh
    have := toNat_of_high hhigh
    omega
  · by_contra hlow
    rw [Bool.not_eq_false] at hlow
    have := toNat_of_low hlow
    omega

/-- so are the digits of a number -/
theorem plain_digitsOf (n : ℕ) : ∀ u ∈ digitsOf n, Plain u := fun u hu =>
  plain_of_isDigit ((JsonText.digitsOf_spec n).digits u hu)

/-- and the zeros after it. -/
theorem plain_zeros (z : ℕ) : ∀ u ∈ List.replicate z (unit '0'), Plain u := by
  intro u hu
  rw [List.eq_of_mem_replicate hu]
  decide

theorem plain_append {s t : JsString} (hs : ∀ u ∈ s, Plain u) (ht : ∀ u ∈ t, Plain u) :
    ∀ u ∈ s ++ t, Plain u := by
  intro u hu
  rcases List.mem_append.1 hu with hu | hu
  · exact hs u hu
  · exact ht u hu

theorem plain_cons {u : UInt16} {s : JsString} (hu : Plain u) (hs : ∀ u ∈ s, Plain u) :
    ∀ v ∈ u :: s, Plain v := by
  intro v hv
  rcases List.mem_cons.1 hv with rfl | hv
  · exact hu
  · exact hs v hv

/-- The text of a number has plain units only. -/
theorem plain_toText (d : Decimal) : ∀ u ∈ (JsNumber.finite d).toText, Plain u := by
  have hds := plain_digitsOf d.coeff
  have hsign : ∀ body : JsString, (∀ u ∈ body, Plain u) →
      ∀ u ∈ (if d.neg then unit '-' :: body else body), Plain u := by
    intro body hbody
    cases d.neg with
    | true => exact plain_cons (by decide) hbody
    | false => exact hbody
  by_cases hzero : d.coeff = 0
  · rw [JsNumber.toText, if_pos hzero]
    exact plain_literal (by decide)
  rw [JsNumber.toText, if_neg hzero]
  simp only
  refine hsign _ ?_
  by_cases hint : ((digitsOf d.coeff).length : ℤ) ≤ d.exp + (digitsOf d.coeff).length ∧
      d.exp + (digitsOf d.coeff).length ≤ 21
  · rw [if_pos hint]
    exact plain_append hds (plain_zeros _)
  rw [if_neg hint]
  by_cases hpoint : 0 < d.exp + (digitsOf d.coeff).length ∧ d.exp + (digitsOf d.coeff).length ≤ 21
  · rw [if_pos hpoint]
    refine plain_append (plain_append (fun u hu => hds u (List.mem_of_mem_take hu))
      (plain_literal (by decide))) ?_
    exact fun u hu => hds u (List.mem_of_mem_drop hu)
  rw [if_neg hpoint]
  by_cases hsmall : -6 < d.exp + (digitsOf d.coeff).length ∧ d.exp + (digitsOf d.coeff).length ≤ 0
  · rw [if_pos hsmall]
    exact plain_append (plain_append (plain_literal (by decide)) (plain_zeros _)) hds
  rw [if_neg hsmall]
  have hexp : ∀ v ∈ JsonText.exponentText (d.exp + (digitsOf d.coeff).length - 1), Plain v := by
    refine plain_cons (by decide) (plain_cons ?_ (plain_digitsOf _))
    split <;> decide
  rcases hcases : digitsOf d.coeff with _ | ⟨u, us⟩
  · rw [hcases] at hexp
    exact hexp
  · rw [hcases] at hds hexp
    have hu := hds u (by simp)
    cases us with
    | nil => exact plain_cons hu hexp
    | cons v vs =>
      have hvs : ∀ w ∈ v :: vs, Plain w := fun w hw => hds w (List.mem_cons_of_mem _ hw)
      exact plain_cons hu (plain_cons (by decide) (plain_append hvs hexp))

/-- So has white space. -/
theorem plain_white {w : JsString} (h : JsonText.White w) : ∀ u ∈ w, Plain u := by
  intro u hu
  rcases JsonText.isSpace_cases (h u hu) with rfl | rfl | rfl | rfl <;> decide

/-- The text of a value that is no array and no object. -/
theorem wellFormed_leaf : ∀ v : Json, (∀ items, v ≠ .arr items) → (∀ p ms, v ≠ .obj p ms) →
    WellFormed v.stringify
  | .null, _, _ => wellFormed_literal (by decide)
  | .bool true, _, _ => wellFormed_literal (by decide)
  | .bool false, _, _ => wellFormed_literal (by decide)
  | .num (.finite d), _, _ => wellFormed_of_plain (plain_toText d)
  | .num (.infinite _), _, _ => show WellFormed (js "null") from wellFormed_literal (by decide)
  | .str s, _, _ => wellFormed_quote s
  | .arr items, h, _ => absurd rfl (h items)
  | .obj p ms, _, h => absurd rfl (h p ms)

/-- Joined texts are well formed when the separator and the parts are. -/
theorem wellFormed_join {sep : JsString} (hsep : WellFormed sep) : ∀ {parts : List JsString},
    (∀ t ∈ parts, WellFormed t) → WellFormed (JsString.join sep parts)
  | [], _ => .nil
  | [t], h => h t (by simp)
  | t :: t' :: ts, h => by
    rw [JsString.join]
    exact ((h t (by simp)).append hsep).append
      (wellFormed_join hsep fun u hu => h u (List.mem_cons_of_mem t hu))

/-- So is what stands between brackets. -/
theorem wellFormed_body {p : Spacing} (hp : JsonText.Spacing.Blank p) (depth : ℕ)
    {parts : List JsString} (h : ∀ t ∈ parts, WellFormed t) : WellFormed (p.body depth parts) := by
  have hline := fun depth => wellFormed_of_plain (plain_white (hp.line depth))
  have hsep : WellFormed (unit ',' :: p.line (depth + 1)) :=
    .unit (by decide) (by decide) (hline (depth + 1))
  unfold Spacing.body
  split
  · exact .nil
  · exact ((hline _).append (wellFormed_join hsep h)).append (hline depth)

mutual
/-- **The text of a value is well-formed**, however it is spaced, since lone surrogates are escaped
in it. -/
theorem wellFormed_render {p : Spacing} (hp : JsonText.Spacing.Blank p) :
    ∀ (v : Json) (depth : ℕ), WellFormed (v.render p depth)
  | .arr items, depth => by
    rw [Json.render]
    exact WellFormed.append (.unit (by decide) (by decide)
      (wellFormed_body hp depth (wellFormed_items hp items (depth + 1)))) (wellFormed_literal (by decide))
  | .obj _ ms, depth => by
    rw [Json.render]
    exact WellFormed.append (.unit (by decide) (by decide)
      (wellFormed_body hp depth (wellFormed_members hp ms (depth + 1)))) (wellFormed_literal (by decide))
  | .null, _ => wellFormed_leaf .null nofun nofun
  | .bool b, _ => wellFormed_leaf (.bool b) nofun nofun
  | .num x, _ => wellFormed_leaf (.num x) nofun nofun
  | .str s, _ => wellFormed_leaf (.str s) nofun nofun

/-- The texts of the entries are well formed, by recursion into each. -/
theorem wellFormed_items {p : Spacing} (hp : JsonText.Spacing.Blank p) :
    ∀ (vs : List Json) (depth : ℕ), ∀ t ∈ renderItems p depth vs, WellFormed t
  | [], _, _, ht => absurd ht List.not_mem_nil
  | v :: vs, depth, t, ht => by
    rw [renderItems] at ht
    rcases List.mem_cons.1 ht with rfl | ht
    · exact wellFormed_render hp v depth
    · exact wellFormed_items hp vs depth t ht

/-- So are those of the members. -/
theorem wellFormed_members {p : Spacing} (hp : JsonText.Spacing.Blank p) :
    ∀ (ms : List (JsString × Json)) (depth : ℕ), ∀ t ∈ renderMembers p depth ms, WellFormed t
  | [], _, _, ht => absurd ht List.not_mem_nil
  | (k, v) :: ms, depth, t, ht => by
    rw [renderMembers] at ht
    rcases List.mem_cons.1 ht with rfl | ht
    · have hcolon := wellFormed_of_plain (plain_white hp.colon)
      exact (WellFormed.append (wellFormed_quote k) (.unit (by decide) (by decide) hcolon)).append
        (wellFormed_render hp v depth)
    · exact wellFormed_members hp ms depth t ht
end

/-- The text of any JSON value is well formed, whatever its strings are. -/
theorem wellFormed_stringify (v : Json) : WellFormed v.stringify := by
  rw [← render_compact v 0]
  exact wellFormed_render JsonText.Spacing.compact_blank v 0

end Signbox
