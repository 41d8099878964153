import Signbox.Spec.Base64

/-!
# Base64 texts read back

* `bytesOfSextets_of`: the groups of six bits of some bytes are the groups of those bytes only.
* `fromBase64_to`: the text of some bytes reads back as those bytes.
-/

namespace Signbox

/-! ## Groups of six bits -/

theorem sextetsOf_lt (bytes : List UInt8) : ∀ n ∈ sextetsOf bytes, n < 64 := by
  fun_induction sextetsOf bytes with
  | case1 => simp
  | case2 a =>
    have ha := a.toNat_lt
    simp only [List.mem_cons, List.not_mem_nil, or_false]
    rintro n (rfl | rfl) <;> omega
  | case3 a b =>
    have ha := a.toNat_lt
    have hb := b.toNat_lt
    simp only [List.mem_cons, List.not_mem_nil, or_false]
    rintro n (rfl | rfl | rfl) <;> omega
  | case4 a b c rest ih =>
    have ha := a.toNat_lt
    have hb := b.toNat_lt
    have hc := c.toNat_lt
    simp only [List.mem_cons]
    rintro n (rfl | rfl | rfl | rfl | hn)
    · omega
    · omega
    · omega
    · omega
    · exact ih n hn

theorem toUInt8_eq {n : ℕ} {a : UInt8} (h : n = a.toNat) : n.toUInt8 = a := by
  rw [h]
  exact UInt8.ofNat_toNat

theorem bytesOfSextets_of (bytes : List UInt8) : bytesOfSextets (sextetsOf bytes) = some bytes := by
  fun_induction sextetsOf bytes with
  | case1 => rfl
  | case2 a =>
    have ha := a.toNat_lt
    have hfirst : (a.toNat / 4 * 4 + a.toNat % 4 * 16 / 16).toUInt8 = a := toUInt8_eq (by omega)
    rw [bytesOfSextets, hfirst]
  | case3 a b =>
    have ha := a.toNat_lt
    have hb := b.toNat_lt
    have hfirst : (a.toNat / 4 * 4 + (a.toNat % 4 * 16 + b.toNat / 16) / 16).toUInt8 = a :=
      toUInt8_eq (by omega)
    have hsecond : ((a.toNat % 4 * 16 + b.toNat / 16) % 16 * 16 + b.toNat % 16 * 4 / 4).toUInt8 = b :=
      toUInt8_eq (by omega)
    rw [bytesOfSextets, hfirst, hsecond]
  | case4 a b c rest ih =>
    have ha := a.toNat_lt
    have hb := b.toNat_lt
    have hc := c.toNat_lt
    have hfirst : (a.toNat / 4 * 4 + (a.toNat % 4 * 16 + b.toNat / 16) / 16).toUInt8 = a :=
      toUInt8_eq (by omega)
    have hsecond : ((a.toNat % 4 * 16 + b.toNat / 16) % 16 * 16 +
        (b.toNat % 16 * 4 + c.toNat / 64) / 4).toUInt8 = b := toUInt8_eq (by omega)
    have hthird : ((b.toNat % 16 * 4 + c.toNat / 64) % 4 * 64 + c.toNat % 64).toUInt8 = c :=
      toUInt8_eq (by omega)
    rw [bytesOfSextets, ih, hfirst, hsecond, hthird]
    rfl

/-! ## Digits -/

/-- A digit has its value, and is neither white space nor padding. -/
theorem base64Digit_spec {n : ℕ} (h : n < 64) : base64Value? (base64Digit n) = some n ∧
    JsonText.isSpace (base64Digit n) = false ∧ base64Digit n ≠ unit '=' := by
  have hall : ∀ m < 64, base64Value? (base64Digit m) = some m ∧
      JsonText.isSpace (base64Digit m) = false ∧ base64Digit m ≠ unit '=' := by decide
  exact hall n h

theorem mapM_base64Value {ns : List ℕ} (h : ∀ n ∈ ns, n < 64) :
    (ns.map base64Digit).mapM base64Value? = some ns := by
  induction ns with
  | nil => rfl
  | cons n ns ih =>
    have hn := (base64Digit_spec (h n List.mem_cons_self)).1
    have hrest := ih fun m hm => h m (List.mem_cons_of_mem n hm)
    rw [List.map_cons, List.mapM_cons, hn, hrest]
    rfl

theorem base64Padding_spec (bytes : List UInt8) : (base64Padding bytes).length ≤ 2 ∧
    ∀ u ∈ base64Padding bytes, u = unit '=' := by
  have hone : js "=" = [unit '='] := rfl
  have htwo : js "==" = [unit '=', unit '='] := rfl
  unfold base64Padding
  split_ifs
  · simp [htwo]
  · simp [hone]
  · simp

/-- **The text of some bytes reads back as those bytes**, with the padding that their number asks
for. -/
theorem fromBase64_to (bytes : List UInt8) : fromBase64? (toBase64 bytes) = some bytes := by
  have hlt := sextetsOf_lt bytes
  obtain ⟨hlength, hpadding⟩ := base64Padding_spec bytes
  have hdigit : ∀ u ∈ (sextetsOf bytes).map base64Digit,
      JsonText.isSpace u = false ∧ u ≠ unit '=' := by
    intro u hu
    obtain ⟨n, hn, rfl⟩ := List.mem_map.1 hu
    exact (base64Digit_spec (hlt n hn)).2
  have hblank : (toBase64 bytes).filter (fun u => !JsonText.isSpace u) = toBase64 bytes := by
    rw [List.filter_eq_self]
    intro u hu
    rcases List.mem_append.1 hu with hu | hu
    · rw [(hdigit u hu).1]
      rfl
    · rw [hpadding u hu]
      decide
  have htake : (toBase64 bytes).takeWhile (· ≠ unit '=') = (sextetsOf bytes).map base64Digit := by
    rw [toBase64, List.takeWhile_append_of_pos (fun u hu => by simpa using (hdigit u hu).2)]
    cases hp : base64Padding bytes with
    | nil => simp
    | cons u us =>
      have hu := hpadding u (by rw [hp]; exact List.mem_cons_self)
      simp [hu]
  have hdrop : (toBase64 bytes).dropWhile (· ≠ unit '=') = base64Padding bytes := by
    rw [toBase64, List.dropWhile_append_of_pos (fun u hu => by simpa using (hdigit u hu).2)]
    cases hp : base64Padding bytes with
    | nil => simp
    | cons u us =>
      have hu := hpadding u (by rw [hp]; exact List.mem_cons_self)
      simp [hu]
  have hfill : (base64Padding bytes).length ≤ 2 ∧
      (base64Padding bytes).all (· = unit '=') = true := by
    refine ⟨hlength, List.all_eq_true.2 fun u hu => ?_⟩
    rw [hpadding u hu]
    decide
  simp only [fromBase64?, hblank, htake, hdrop, if_pos hfill, mapM_base64Value hlt]
  exact bytesOfSextets_of bytes

end Signbox
