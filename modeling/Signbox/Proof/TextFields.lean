import Signbox.Proof.RoundTrip
import Signbox.Spec.Compile
import Signbox.Spec.Decompile

/-!
# Lists and names in a text field

A list is written to a text field with commas between its texts and read back at the commas.
The id of a compiled rule is made from the texts of its Route If.

* `listOf_joinList`: a list of texts without commas and outer white space reads back.
* `slug_valid`: the id of a rule is one the daemon accepts.
-/

namespace Signbox

/-! ## Lists -/

/-- A text that comes back from a comma-separated list: it has no comma and no white space
around it. -/
def Listable (s : JsString) : Prop := unit ',' ∉ s ∧ JsString.trim s = s

instance (s : JsString) : Decidable (Listable s) := inferInstanceAs (Decidable (_ ∧ _))

theorem split_plain {sep : UInt16} {s : JsString} (h : sep ∉ s) : JsString.split sep s = [s] := by
  induction s with
  | nil => rfl
  | cons u us ih =>
    rw [List.mem_cons, not_or] at h
    have hne : u ≠ sep := fun heq => h.1 heq.symm
    simp only [JsString.split, ih h.2, if_neg hne]

theorem split_append {sep : UInt16} {s t : JsString} (h : sep ∉ s) :
    JsString.split sep (s ++ sep :: t) = s :: JsString.split sep t := by
  induction s with
  | nil =>
    rw [List.nil_append, JsString.split]
    cases hsplit : JsString.split sep t with
    | nil =>
      -- a split is never empty
      cases t with
      | nil => simp [JsString.split] at hsplit
      | cons v vs =>
        rw [JsString.split] at hsplit
        split at hsplit
        · simp at hsplit
        · split at hsplit <;> simp at hsplit
    | cons seg segs => simp only [if_true]
  | cons u us ih =>
    rw [List.mem_cons, not_or] at h
    have hne : u ≠ sep := fun heq => h.1 heq.symm
    rw [List.cons_append, JsString.split, ih h.2]
    simp only [if_neg hne]

theorem trim_space (s : JsString) : JsString.trim (unit ' ' :: s) = JsString.trim s := by
  have hstart : JsString.trimStart (unit ' ' :: s) = JsString.trimStart s := by
    have hwhite : isWhite (unit ' ') = true := by decide
    rw [JsString.trimStart, List.dropWhile_cons, if_pos hwhite]
    rfl
  rw [JsString.trim, hstart]
  rfl

theorem joinItems_strs (ss : List JsString) : joinItems (ss.map .str) = .ok ss := by
  induction ss with
  | nil => rfl
  | cons s ss ih =>
    rw [List.map_cons, joinItems, ih]
    · rfl
    · intro hnull
      cases hnull

theorem parts_join {ss : List JsString} (h : ∀ s ∈ ss, Listable s) (hne : ss ≠ []) :
    (JsString.split (unit ',') (JsString.join (js ", ") ss)).map JsString.trim = ss := by
  induction ss with
  | nil => exact absurd rfl hne
  | cons s ss ih =>
    obtain ⟨hcomma, htrim⟩ := h s (by simp)
    cases ss with
    | nil => rw [JsString.join, split_plain hcomma, List.map_singleton, htrim]
    | cons t ts =>
      have hrest := ih (fun u hu => h u (List.mem_cons_of_mem s hu)) (by simp)
      have hsep : js ", " = [unit ',', unit ' '] := by decide
      have hjoin : JsString.join (js ", ") (s :: t :: ts) =
          s ++ unit ',' :: (unit ' ' :: JsString.join (js ", ") (t :: ts)) := by
        rw [JsString.join, hsep, List.append_assoc]
        rfl
      rw [hjoin, split_append hcomma, List.map_cons, htrim]
      congr 1
      -- the blank after the comma belongs to the next part, where it is trimmed away
      cases hsplit : JsString.split (unit ',') (JsString.join (js ", ") (t :: ts)) with
      | nil =>
        rw [hsplit] at hrest
        simp at hrest
      | cons seg segs =>
        rw [hsplit, List.map_cons] at hrest
        have hblank : unit ' ' ≠ unit ',' := by decide
        rw [JsString.split, hsplit]
        simp only [if_neg hblank, List.map_cons, trim_space]
        exact hrest

/-- **A list through a text field**: joined with commas and cut again it is the list it was, if no
entry has a comma or blanks at its ends. -/
theorem listOf_joinList {ss : List JsString} (h : ∀ s ∈ ss, Listable s) (hne : ss ≠ [])
    (htexts : ∀ s ∈ ss, s ≠ []) : listOf (joinList (ss.map .str)) = ss := by
  have hjoin : joinList (ss.map .str) = JsString.join (js ", ") ss := by
    rw [joinList, joinItems_strs]
  rw [hjoin, listOf, parts_join h hne, List.filter_eq_self]
  intro s hs
  simpa using htexts s hs

/-! ## Names -/

/-- `[a-z0-9-]`. -/
def isSlug (u : UInt16) : Bool := isLower u || isDigit u || u == unit '-'

theorem dashRuns_slug : ∀ (inRun : Bool) (s : JsString), ∀ u ∈ dashRuns inRun s, isSlug u = true
  | _, [], u, hu => by simp [dashRuns] at hu
  | inRun, v :: vs, u, hu => by
    have ih := fun b => dashRuns_slug b vs u
    rw [dashRuns] at hu
    split at hu
    next hclass =>
      rcases List.mem_cons.1 hu with rfl | hu
      · rw [isSlug, hclass, Bool.true_or]
      · exact ih false hu
    next =>
      split at hu
      · exact ih true hu
      · rcases List.mem_cons.1 hu with rfl | hu
        · rfl
        · exact ih true hu

/-- A name that starts with a letter keeps it. -/
theorem slug_cons {u : UInt16} (hu : isLower u = true) (s : JsString) (parts : List JsString) :
    ∃ t, slug ((u :: s) :: parts) = u :: t ∧ t.length ≤ 39 ∧ ∀ v ∈ t, isSlug v = true := by
  have hupper : isUpper u = false := by
    unfold isLower at hu
    unfold isUpper
    simp only [Bool.and_eq_true, decide_eq_true_eq] at hu
    have hlow : ¬ u ≤ unit 'Z' := fun hle => absurd (UInt16.le_trans hu.1 hle) (by decide)
    simp [hlow]
  have hkelvin : u ≠ 0x212A := by
    rintro rfl
    revert hu
    decide
  have hdotted : u ≠ 0x0130 := by
    rintro rfl
    revert hu
    decide
  have hdash : u ≠ unit '-' := by
    rintro rfl
    revert hu
    decide
  obtain ⟨r, hjoin⟩ : ∃ r, JsString.join (js "-") ((u :: s) :: parts) = u :: r := by
    cases parts with
    | nil => exact ⟨s, rfl⟩
    | cons t ts => exact ⟨s ++ js "-" ++ JsString.join (js "-") (t :: ts), rfl⟩
  have hlower : JsString.toLowerCase (u :: r) = u :: JsString.toLowerCase r := by
    rw [JsString.toLowerCase, List.flatMap_cons, if_neg (by simp [hupper]), if_neg hkelvin, if_neg hdotted]
    rfl
  have hruns : dashRuns false (u :: JsString.toLowerCase r) = u :: dashRuns false (JsString.toLowerCase r) := by
    rw [dashRuns, if_pos (by rw [hu, Bool.true_or])]
  have hclass := dashRuns_slug false (JsString.toLowerCase r)
  generalize dashRuns false (JsString.toLowerCase r) = w at hruns hclass
  -- only a dash at the end is taken away
  obtain ⟨t, htrim, ht⟩ : ∃ t, trimDashes (u :: w) = u :: t ∧ ∀ v ∈ t, isSlug v = true := by
    rw [trimDashes]
    simp only [if_neg hdash]
    split_ifs with hlast
    · cases w with
      | nil =>
        exact absurd (Option.some.inj hlast) hdash
      | cons v vs =>
        refine ⟨(v :: vs).dropLast, List.dropLast_cons_cons, ?_⟩
        exact fun x hx => hclass x (List.mem_of_mem_dropLast hx)
    · exact ⟨w, rfl, hclass⟩
  have hslug : slug ((u :: s) :: parts) = u :: t.take 39 := by
    rw [slug, hjoin, hlower, hruns, htrim]
    rfl
  refine ⟨t.take 39, hslug, ?_, fun v hv => ht v (List.mem_of_mem_take hv)⟩
  rw [List.length_take]
  omega

/-- **The id of a compiled rule is valid**, when the text it is made from starts with a lower-case
letter: what the pattern does not allow was replaced. -/
theorem slug_valid {u : UInt16} (hu : isLower u = true) (s : JsString) (parts : List JsString) :
    ruleIdPattern (slug ((u :: s) :: parts)) = true := by
  obtain ⟨t, heq, hlen, ht⟩ := slug_cons hu s parts
  have hall : t.all (fun c => isLower c || isDigit c || c == unit '-') = true :=
    List.all_eq_true.2 ht
  rw [heq, ruleIdPattern, hu, matchesClass, hall]
  simp only [Bool.true_or, Bool.true_and, Bool.and_true, Bool.and_eq_true, decide_eq_true_eq]
  omega

end Signbox
