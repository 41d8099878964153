import Signbox.Proof.Assigned
import Signbox.Proof.ReadText

/-!
# `JSON.parse` inverts `JSON.stringify`

A value is sound when it is one of JSON over the doubles: the keys of every object are
distinct, and every number is the double that its text denotes.

* `readValue_render`: the reader takes the text of a sound value off the front of its input, with
  as much fuel as the text is long, whatever white space stands between its tokens.
* `parse_render`, `parse_stringify`: `JSON.parse` returns the value, its objects with the ordinary
  prototype.
-/

namespace Signbox

mutual
/-- Distinct keys at every level, and numbers that read back as themselves. An infinity does not:
its text is `null`. -/
def Json.Sound (nearest : Decimal → JsNumber) : Json → Prop
  | .num (.finite d) => nearest d = .finite d
  | .num (.infinite _) => False
  | .arr items => SoundItems nearest items
  | .obj _ ms => (ms.map Prod.fst).Nodup ∧ SoundMembers nearest ms
  | _ => True

/-- Every entry is sound. -/
def SoundItems (nearest : Decimal → JsNumber) : List Json → Prop
  | [] => True
  | v :: vs => v.Sound nearest ∧ SoundItems nearest vs

/-- Every member's value is sound. -/
def SoundMembers (nearest : Decimal → JsNumber) : List (JsString × Json) → Prop
  | [] => True
  | (_, v) :: ms => v.Sound nearest ∧ SoundMembers nearest ms
end

mutual
/-- The value with ordinary objects only, as `JSON.parse` builds it. Nothing else is lost on the
way through a text. -/
def Json.ordinary : Json → Json
  | .arr items => .arr (ordinaryItems items)
  | .obj _ ms => .obj .ordinary (ordinaryMembers ms)
  | v => v

/-- The entries with ordinary objects only. -/
def ordinaryItems : List Json → List Json
  | [] => []
  | v :: vs => v.ordinary :: ordinaryItems vs

/-- The members with ordinary objects only, under their own keys. -/
def ordinaryMembers : List (JsString × Json) → List (JsString × Json)
  | [] => []
  | (k, v) :: ms => (k, v.ordinary) :: ordinaryMembers ms
end

/-- The members are rebuilt one by one. -/
theorem ordinaryMembers_eq (ms : List (JsString × Json)) :
    ordinaryMembers ms = ms.map fun m => (m.1, m.2.ordinary) := by
  induction ms with
  | nil => rfl
  | cons m ms ih => simp [ordinaryMembers, ih]

/-- The keys stay as they are and in their order. -/
theorem keys_ordinaryMembers (ms : List (JsString × Json)) :
    (ordinaryMembers ms).map Prod.fst = ms.map Prod.fst := by
  rw [ordinaryMembers_eq, List.map_map]
  rfl

namespace JsonText

/-! ## Members -/

/-- Defining distinct keys one after the other just lists them. -/
theorem defineAll_nodup {ms : List (JsString × Json)} (h : (ms.map Prod.fst).Nodup) :
    defineAll ms = ms := @foldl_mapSet _ ms [] h

/-! ## Heads -/

/-- At a unit that is no white space nothing is skipped. -/
theorem skipSpace_cons {u : UInt16} (h : isSpace u = false) (us : JsString) :
    skipSpace (u :: us) = u :: us := by
  simp [skipSpace, h]

/-- The unit asked for is taken off the front. -/
theorem readUnit_cons {c : Char} (h : isSpace (unit c) = false) (us : JsString) :
    readUnit c (unit c :: us) = some us := by
  rw [readUnit, skipSpace_cons h]
  simp

/-- Any other unit is refused. -/
theorem readUnit_other {c : Char} {u : UInt16} (h : isSpace u = false) (hne : u ≠ unit c)
    (us : JsString) : readUnit c (u :: us) = none := by
  rw [readUnit, skipSpace_cons h]
  simp [hne]

/-- A closing bracket ends the list. -/
theorem readEnd_close {c : Char} (h : isSpace (unit c) = false) (us : JsString) :
    readEnd c (unit c :: us) = some (false, us) := by
  rw [readEnd, skipSpace_cons h]
  simp

/-- A comma announces another entry. -/
theorem readEnd_comma {c : Char} (hne : unit ',' ≠ unit c) (us : JsString) :
    readEnd c (unit ',' :: us) = some (true, us) := by
  rw [readEnd, skipSpace_cons (by decide)]
  simp [hne]

/-- A word is taken off the front of a text that starts with it. -/
theorem readWord_append (word us : JsString) : readWord word (word ++ us) = some us := by
  unfold readWord
  rw [if_pos]
  · simp
  · exact List.isPrefixOf_iff_prefix.2 (List.prefix_append word us)

/-- What a number starts with: a digit, or a minus. -/
theorem toText_cons (d : Decimal) : ∃ u us, (JsNumber.finite d).toText = u :: us ∧
    (isDigit u = true ∨ u = unit '-') := by
  have hstops : Stops [] := by
    intro u us h
    simp at h
  have hread := readNumber_toText JsNumber.finite d hstops
  rw [List.append_nil] at hread
  cases htext : (JsNumber.finite d).toText with
  | nil =>
    rw [htext] at hread
    simp [readNumber, readSign] at hread
  | cons u us =>
    refine ⟨u, us, rfl, ?_⟩
    rw [htext] at hread
    by_cases hminus : u = unit '-'
    · exact .inr hminus
    · refine .inl ?_
      by_contra hdigit
      simp [readNumber, readSign, hminus, hdigit, guard] at hread

/-! ## White space -/

/-- White space only. -/
def White (w : JsString) : Prop := ∀ u ∈ w, isSpace u = true

/-- White space in front is skipped whole. -/
theorem skipSpace_white {w : JsString} (hw : White w) (s : JsString) :
    skipSpace (w ++ s) = skipSpace s :=
  List.dropWhile_append_of_pos hw

/-- So each reader gives the same with white space in front: the one for units, -/
theorem readUnit_white {w : JsString} (hw : White w) (c : Char) (s : JsString) :
    readUnit c (w ++ s) = readUnit c s := by
  rw [readUnit, readUnit, skipSpace_white hw]

/-- for the end of a list, -/
theorem readEnd_white {w : JsString} (hw : White w) (c : Char) (s : JsString) :
    readEnd c (w ++ s) = readEnd c s := by
  rw [readEnd, readEnd, skipSpace_white hw]

/-- for values, -/
theorem readValue_white {nearest : Decimal → JsNumber} {w : JsString} (hw : White w) (n : ℕ)
    (s : JsString) : readValue nearest n (w ++ s) = readValue nearest n s := by
  cases n with
  | zero => rfl
  | succ n => rw [readValue, readValue, skipSpace_white hw]

/-- for entries -/
theorem readItems_white {nearest : Decimal → JsNumber} {w : JsString} (hw : White w) (n : ℕ)
    (s : JsString) : readItems nearest n (w ++ s) = readItems nearest n s := by
  cases n with
  | zero => rfl
  | succ n => rw [readItems, readItems, readValue_white hw]

/-- and for members. -/
theorem readMembers_white {nearest : Decimal → JsNumber} {w : JsString} (hw : White w) (n : ℕ)
    (s : JsString) : readMembers nearest n (w ++ s) = readMembers nearest n s := by
  cases n with
  | zero => rfl
  | succ n => rw [readMembers, readMembers, readUnit_white hw]

/-- Spacing puts nothing but white space between tokens. -/
structure Spacing.Blank (p : Spacing) : Prop where
  line : ∀ depth, White (p.line depth)
  colon : White p.colon

/-- Compact spacing puts nothing between tokens. -/
theorem Spacing.compact_blank : Spacing.Blank .compact :=
  ⟨fun _ _ hu => absurd hu List.not_mem_nil, fun _ hu => absurd hu List.not_mem_nil⟩

/-- Indented spacing puts line breaks and blanks between them. -/
theorem Spacing.indented_blank (n : ℕ) : Spacing.Blank (.indented n) := by
  refine ⟨fun depth u hu => ?_, fun u hu => ?_⟩
  · rcases List.mem_cons.1 hu with rfl | hu
    · decide
    · rw [List.eq_of_mem_replicate hu]
      decide
  · rw [List.mem_singleton.1 hu]
    decide

/-- The text of a value starts with a unit that neither closes an array nor is white space. -/
theorem render_cons {nearest : Decimal → JsNumber} {v : Json} (h : v.Sound nearest) (p : Spacing)
    (depth : ℕ) : ∃ u us, v.render p depth = u :: us ∧ isSpace u = false ∧ u ≠ unit ']' := by
  cases v with
  | null =>
    have htext : Json.null.stringify = unit 'n' :: js "ull" := by decide
    exact ⟨unit 'n', js "ull", htext, by decide, by decide⟩
  | bool b =>
    cases b with
    | true =>
      have htext : (Json.bool true).stringify = unit 't' :: js "rue" := by decide
      exact ⟨unit 't', js "rue", htext, by decide, by decide⟩
    | false =>
      have htext : (Json.bool false).stringify = unit 'f' :: js "alse" := by decide
      exact ⟨unit 'f', js "alse", htext, by decide, by decide⟩
  | num x =>
    cases x with
    | infinite neg => exact absurd h (by simp [Json.Sound])
    | finite d =>
      obtain ⟨u, us, htext, hu⟩ := toText_cons d
      refine ⟨u, us, by rw [Json.render, Json.stringify, htext] <;> nofun, ?_, ?_⟩
      · by_contra hspace
        rw [Bool.not_eq_false] at hspace
        rcases isSpace_cases hspace with rfl | rfl | rfl | rfl <;> revert hu <;> decide
      · rintro rfl
        revert hu
        decide
  | str s => exact ⟨unit '"', _, rfl, by decide, by decide⟩
  | arr items => exact ⟨unit '[', _, by rw [Json.render]; rfl, by decide, by decide⟩
  | obj q ms => exact ⟨unit '\x7b', _, by rw [Json.render]; rfl, by decide, by decide⟩

/-- The text of a value is not empty, so it costs fuel to read it. -/
theorem render_length_pos {nearest : Decimal → JsNumber} {v : Json} (h : v.Sound nearest)
    (p : Spacing) (depth : ℕ) : 0 < (v.render p depth).length := by
  obtain ⟨u, us, htext, -, -⟩ := render_cons h p depth
  rw [htext, List.length_cons]
  omega

/-! ## Values -/

/-- A number ends before a comma or a closing bracket. -/
theorem stops_close {c : Char} {rest : JsString} (h : c = ',' ∨ c = ']' ∨ c = '\x7d') :
    Stops (unit c :: rest) := by
  intro u us heq
  cases heq
  rcases h with rfl | rfl | rfl <;> simp

/-- It also ends before white space that stands in front of one of these. -/
theorem stops_white {w rest : JsString} (hw : White w) (hrest : Stops rest) : Stops (w ++ rest) := by
  intro u us heq
  cases w with
  | nil => exact hrest u us heq
  | cons v w =>
    obtain ⟨rfl, -⟩ := List.cons.inj heq
    exact Or.inr (Or.inr (Or.inr (hw v List.mem_cons_self)))

/-- A number is read to the double nearest to it, if what follows does not continue it. -/
theorem readValue_number {nearest : Decimal → JsNumber} (n : ℕ) (d : Decimal) {rest : JsString}
    (hrest : Stops rest) :
    readValue nearest (n + 1) ((JsNumber.finite d).toText ++ rest) =
      some (.num (nearest d), rest) := by
  have hread := readNumber_toText nearest d hrest
  obtain ⟨u, us, htext, hu⟩ := toText_cons d
  rw [htext, List.cons_append] at hread ⊢
  -- no other kind of value starts with a digit or a minus
  have hother : ∀ c : Char, isDigit (unit c) = false → unit c ≠ unit '-' → u ≠ unit c := by
    rintro c hdigit hminus rfl
    rcases hu with hu | hu
    · rw [hdigit] at hu
      exact absurd hu (by decide)
    · exact hminus hu
  have hspace : isSpace u = false := by
    by_contra hspace
    rw [Bool.not_eq_false] at hspace
    rcases isSpace_cases hspace with rfl | rfl | rfl | rfl <;> revert hu <;> decide
  rw [readValue, skipSpace_cons hspace]
  simp only
  rw [if_neg (hother '"' (by decide) (by decide)), if_neg (hother '[' (by decide) (by decide)),
    if_neg (hother '\x7b' (by decide) (by decide)), if_neg (hother 'n' (by decide) (by decide)),
    if_neg (hother 't' (by decide) (by decide)), if_neg (hother 'f' (by decide) (by decide)), hread]
  rfl

/-- An element, with what stands between it and the next one. -/
theorem join_cons₂ (line t t' : JsString) (ts : List JsString) :
    JsString.join (unit ',' :: line) (t :: t' :: ts) =
      t ++ unit ',' :: (line ++ JsString.join (unit ',' :: line) (t' :: ts)) := by
  rw [JsString.join, List.append_assoc]
  rfl

/-- Joined texts start with the first of them. -/
theorem join_head (sep t : JsString) (ts : List JsString) :
    ∃ tail, JsString.join sep (t :: ts) = t ++ tail := by
  cases ts with
  | nil => exact ⟨[], by simp [JsString.join]⟩
  | cons t' ts => exact ⟨sep ++ JsString.join sep (t' :: ts), by simp [JsString.join]⟩

/-- What stands between the brackets of a list that is not empty: line breaks before each entry and
after the last. -/
theorem body_cons (p : Spacing) (depth : ℕ) (t : JsString) (ts : List JsString) :
    p.body depth (t :: ts) =
      p.line (depth + 1) ++ JsString.join (unit ',' :: p.line (depth + 1)) (t :: ts) ++
        p.line depth := by
  rw [Spacing.body, if_neg (List.cons_ne_nil t ts)]

/-- The text of a member, as the reader meets it: a quote, the key, a quote, a colon. -/
theorem render_member (p : Spacing) (k t rest : JsString) :
    quote k ++ unit ':' :: p.colon ++ t ++ rest =
      unit '"' :: (escapeUnits k ++ unit '"' :: unit ':' :: (p.colon ++ (t ++ rest))) := by
  rw [quote]
  simp

mutual
/-- **The text of a sound value reads back as the value**, however it is spaced, and what follows
the text is left for the reader that comes next. -/
theorem readValue_render (nearest : Decimal → JsNumber) {p : Spacing} (hp : Spacing.Blank p) :
    ∀ (v : Json) (depth n : ℕ) (rest : JsString), v.Sound nearest →
      (v.render p depth).length ≤ n → Stops rest →
      readValue nearest n (v.render p depth ++ rest) = some (v.ordinary, rest)
  -- no text is empty, so there is always fuel for one more turn
  | v, depth, 0, rest, hv, hn, _ => by
    have := render_length_pos hv p depth
    omega
  -- the words: the reader tells them apart by their first letter
  | .null, _, n + 1, rest, _, _, _ => by
    have htext : Json.null.stringify = unit 'n' :: js "ull" := by decide
    have hword := readWord_append (js "null") rest
    rw [show js "null" = unit 'n' :: js "ull" by decide, List.cons_append] at hword
    rw [Json.render, htext, List.cons_append, readValue, skipSpace_cons (by decide)]
    · simp only
      rw [if_neg (by decide), if_neg (by decide), if_neg (by decide), if_true,
        show js "null" = unit 'n' :: js "ull" by decide, hword]
      rfl
    all_goals nofun
  | .bool true, _, n + 1, rest, _, _, _ => by
    have htext : (Json.bool true).stringify = unit 't' :: js "rue" := by decide
    have hword := readWord_append (js "true") rest
    rw [show js "true" = unit 't' :: js "rue" by decide, List.cons_append] at hword
    rw [Json.render, htext, List.cons_append, readValue, skipSpace_cons (by decide)]
    · simp only
      rw [if_neg (by decide), if_neg (by decide), if_neg (by decide), if_neg (by decide),
        if_true, show js "true" = unit 't' :: js "rue" by decide, hword]
      rfl
    all_goals nofun
  | .bool false, _, n + 1, rest, _, _, _ => by
    have htext : (Json.bool false).stringify = unit 'f' :: js "alse" := by decide
    have hword := readWord_append (js "false") rest
    rw [show js "false" = unit 'f' :: js "alse" by decide, List.cons_append] at hword
    rw [Json.render, htext, List.cons_append, readValue, skipSpace_cons (by decide)]
    · simp only
      rw [if_neg (by decide), if_neg (by decide), if_neg (by decide), if_neg (by decide),
        if_neg (by decide), if_true, show js "false" = unit 'f' :: js "alse" by decide, hword]
      rfl
    all_goals nofun
  | .num (.finite d), _, n + 1, rest, hv, _, hrest => by
    have hd : nearest d = .finite d := hv
    rw [Json.render, Json.stringify, readValue_number n d hrest, hd, Json.ordinary]
    all_goals nofun
  | .num (.infinite _), _, n + 1, rest, hv, _, _ => by
    simp [Json.Sound] at hv
  -- a string is read up to its closing quote, whatever stands in it
  | .str s, _, n + 1, rest, _, _, _ => by
    have hspace : isSpace (unit '"') = false := by decide
    have htext : (Json.str s).render p 0 ++ rest =
        unit '"' :: (escapeUnits s ++ unit '"' :: rest) := by
      rw [Json.render, Json.stringify, quote]
      · simp
      all_goals nofun
    rw [Json.render] at htext ⊢
    · rw [htext, readValue, skipSpace_cons hspace]
      simp only [if_true, readChars_escapeUnits, Option.map_some]
      rfl
    all_goals nofun
  | .arr [], _, n + 1, rest, _, _, _ => by
    rw [Json.render, renderItems, Spacing.body, if_pos rfl, List.cons_append, List.cons_append,
      readValue, skipSpace_cons (by decide)]
    simp only
    rw [if_neg (by decide), if_true, List.nil_append, List.cons_append, readUnit_cons (by decide)]
    rfl
  -- an entry after the bracket, so the list is not taken for an empty one
  | .arr (v :: vs), depth, n + 1, rest, hv, hn, _ => by
    obtain ⟨tail, htail⟩ := join_head (unit ',' :: p.line (depth + 1)) (v.render p (depth + 1))
      (renderItems p (depth + 1) vs)
    obtain ⟨u, us, htext, hspace, hclose⟩ := render_cons (v := v) hv.1 p (depth + 1)
    rw [Json.render, renderItems, body_cons] at hn ⊢
    rw [← renderItems] at hn htail ⊢
    simp only [List.length_append, List.length_cons] at hn
    -- the fuel left covers the text of the entries
    have hitems := readItems_render nearest hp (v :: vs) (depth + 1) n (p.line depth) rest hv
      (by simp) (hp.line depth) (by omega)
    have hopen : readUnit ']' (JsString.join (unit ',' :: p.line (depth + 1))
        (renderItems p (depth + 1) (v :: vs)) ++ (p.line depth ++ unit ']' :: rest)) = none := by
      rw [htail, htext]
      exact readUnit_other hspace hclose _
    rw [List.cons_append, List.cons_append, readValue, skipSpace_cons (by decide)]
    simp only [List.append_assoc, List.cons_append, List.nil_append]
    rw [if_neg (by decide), if_true, readUnit_white (hp.line (depth + 1)), hopen]
    simp only
    rw [readItems_white (hp.line (depth + 1)), hitems]
    rfl
  | .obj _ [], _, n + 1, rest, _, _, _ => by
    rw [Json.render, renderMembers, Spacing.body, if_pos rfl, List.cons_append, List.cons_append,
      readValue, skipSpace_cons (by decide)]
    simp only
    rw [if_neg (by decide), if_neg (by decide), if_true, List.nil_append, List.cons_append,
      readUnit_cons (by decide)]
    rfl
  -- likewise with keys, which the parser then defines one after the other
  | .obj q ((k, v) :: ms), depth, n + 1, rest, hv, hn, _ => by
    obtain ⟨tail, htail⟩ := join_head (unit ',' :: p.line (depth + 1))
      (quote k ++ unit ':' :: p.colon ++ v.render p (depth + 1)) (renderMembers p (depth + 1) ms)
    rw [Json.render, renderMembers, body_cons] at hn ⊢
    rw [← renderMembers] at hn htail ⊢
    simp only [List.length_append, List.length_cons] at hn
    have hmembers := readMembers_render nearest hp ((k, v) :: ms) (depth + 1) n (p.line depth) rest
      hv.2 (by simp) (hp.line depth) (by omega)
    have hopen : readUnit '\x7d' (JsString.join (unit ',' :: p.line (depth + 1))
        (renderMembers p (depth + 1) ((k, v) :: ms)) ++ (p.line depth ++ unit '\x7d' :: rest)) =
          none := by
      rw [htail, quote]
      exact readUnit_other (by decide) (by decide) _
    -- the keys are distinct, so defining them changes nothing
    have hdefine : defineAll (ordinaryMembers ((k, v) :: ms)) = ordinaryMembers ((k, v) :: ms) :=
      defineAll_nodup (by rw [keys_ordinaryMembers]; exact hv.1)
    rw [List.cons_append, List.cons_append, readValue, skipSpace_cons (by decide)]
    simp only [List.append_assoc, List.cons_append, List.nil_append]
    rw [if_neg (by decide), if_neg (by decide), if_true, readUnit_white (hp.line (depth + 1)), hopen]
    simp only
    rw [readMembers_white (hp.line (depth + 1)), hmembers]
    simp only [Option.map_some, hdefine]
    rfl

/-- The reader takes the entries off the front of their text. The induction is on the list, and the
fuel covers the length of what is left. -/
theorem readItems_render (nearest : Decimal → JsNumber) {p : Spacing} (hp : Spacing.Blank p) :
    ∀ (vs : List Json) (depth n : ℕ) (w rest : JsString), SoundItems nearest vs → vs ≠ [] →
    White w → (JsString.join (unit ',' :: p.line depth) (renderItems p depth vs)).length + 1 ≤ n →
    readItems nearest n (JsString.join (unit ',' :: p.line depth) (renderItems p depth vs) ++
      (w ++ unit ']' :: rest)) = some (ordinaryItems vs, rest)
  | [], _, _, _, _, _, hne, _, _ => absurd rfl hne
  | _ :: _, _, 0, _, _, _, _, _, hn => by omega
  | [v], depth, n + 1, w, rest, hv, _, hw, hn => by
    simp only [renderItems, JsString.join] at hn ⊢
    have hvalue := readValue_render nearest hp v depth n (w ++ unit ']' :: rest) hv.1 (by omega)
      (stops_white hw (stops_close (by decide)))
    rw [readItems, hvalue]
    simp only [Option.bind_eq_bind, Option.bind_some, readEnd_white hw,
      readEnd_close (c := ']') (by decide)]
    rfl
  | v :: x :: vs, depth, n + 1, w, rest, hv, _, hw, hn => by
    have hpos := render_length_pos hv.1 p depth
    rw [renderItems, renderItems, join_cons₂] at hn ⊢
    rw [← renderItems] at hn ⊢
    simp only [List.length_append, List.length_cons] at hn
    have hvalue := readValue_render nearest hp v depth n
      (unit ',' :: (p.line depth ++ (JsString.join (unit ',' :: p.line depth)
        (renderItems p depth (x :: vs)) ++ (w ++ unit ']' :: rest)))) hv.1 (by omega)
      (stops_close (by decide))
    have hitems := readItems_render nearest hp (x :: vs) depth n w rest hv.2 (by simp) hw (by omega)
    simp only [List.append_assoc, List.cons_append]
    rw [readItems, hvalue]
    simp only [Option.bind_eq_bind, Option.bind_some, readEnd_comma (c := ']') (by decide),
      if_true, readItems_white (hp.line depth), hitems]
    rfl

/-- The same for members, whose keys are read in between. -/
theorem readMembers_render (nearest : Decimal → JsNumber) {p : Spacing} (hp : Spacing.Blank p) :
    ∀ (ms : List (JsString × Json)) (depth n : ℕ) (w rest : JsString), SoundMembers nearest ms →
    ms ≠ [] → White w →
    (JsString.join (unit ',' :: p.line depth) (renderMembers p depth ms)).length + 1 ≤ n →
    readMembers nearest n (JsString.join (unit ',' :: p.line depth) (renderMembers p depth ms) ++
      (w ++ unit '\x7d' :: rest)) = some (ordinaryMembers ms, rest)
  | [], _, _, _, _, _, hne, _, _ => absurd rfl hne
  | _ :: _, _, 0, _, _, _, _, _, hn => by omega
  | [(k, v)], depth, n + 1, w, rest, hv, _, hw, hn => by
    simp only [renderMembers, JsString.join] at hn ⊢
    simp only [List.length_append] at hn
    have hvalue := readValue_render nearest hp v depth n (w ++ unit '\x7d' :: rest) hv.1 (by omega)
      (stops_white hw (stops_close (by decide)))
    rw [render_member, readMembers, readUnit_cons (by decide)]
    simp only [Option.bind_eq_bind, Option.bind_some, readChars_escapeUnits]
    rw [readUnit_cons (by decide)]
    simp only [Option.bind_some, readValue_white hp.colon, hvalue, readEnd_white hw,
      readEnd_close (c := '\x7d') (by decide)]
    rfl
  | (k, v) :: (k', v') :: ms, depth, n + 1, w, rest, hv, _, hw, hn => by
    have hpos := render_length_pos hv.1 p depth
    rw [renderMembers, renderMembers, join_cons₂] at hn ⊢
    rw [← renderMembers] at hn ⊢
    simp only [List.length_append, List.length_cons] at hn
    have hvalue := readValue_render nearest hp v depth n
      (unit ',' :: (p.line depth ++ (JsString.join (unit ',' :: p.line depth)
        (renderMembers p depth ((k', v') :: ms)) ++ (w ++ unit '\x7d' :: rest)))) hv.1 (by omega)
      (stops_close (by decide))
    have hmembers := readMembers_render nearest hp ((k', v') :: ms) depth n w rest hv.2 (by simp) hw
      (by omega)
    rw [List.append_assoc, render_member, readMembers, readUnit_cons (by decide)]
    simp only [Option.bind_eq_bind, Option.bind_some, readChars_escapeUnits]
    rw [readUnit_cons (by decide)]
    simp only [Option.bind_some, List.append_assoc, List.cons_append, readValue_white hp.colon,
      hvalue, readEnd_comma (c := '\x7d') (by decide), if_true, readMembers_white (hp.line depth),
      hmembers]
    rfl
end

end JsonText

/-- Compact text has the entries separated by commas alone. -/
theorem body_compact (depth : ℕ) (parts : List JsString) :
    Spacing.body .compact depth parts = JsString.join (js ",") parts := by
  have hcomma : js "," = [unit ','] := by decide
  unfold Spacing.body
  split
  case isTrue h => rw [h, JsString.join]
  case isFalse => simp [Spacing.compact, hcomma]

mutual
/-- Without white space the text is that of `JSON.stringify`. -/
theorem render_compact : ∀ (v : Json) (depth : ℕ), v.render .compact depth = v.stringify
  | .null, _ => rfl
  | .bool _, _ => rfl
  | .num _, _ => rfl
  | .str _, _ => rfl
  | .arr items, depth => by
    rw [Json.render, Json.stringify, body_compact, renderItems_compact items (depth + 1)]
    rfl
  | .obj _ ms, depth => by
    rw [Json.render, Json.stringify, body_compact, renderMembers_compact ms (depth + 1)]
    rfl

/-- Compact entries are the stringified ones, -/
theorem renderItems_compact : ∀ (vs : List Json) (depth : ℕ),
    renderItems .compact depth vs = stringifyItems vs
  | [], _ => rfl
  | v :: vs, depth => by
    rw [renderItems, stringifyItems, render_compact v, renderItems_compact vs]

/-- and so are compact members. -/
theorem renderMembers_compact : ∀ (ms : List (JsString × Json)) (depth : ℕ),
    renderMembers .compact depth ms = stringifyMembers ms
  | [], _ => rfl
  | (k, v) :: ms, depth => by
    have hcolon : js ":" = [unit ':'] := by decide
    rw [renderMembers, stringifyMembers, render_compact v, renderMembers_compact ms, hcolon]
    rfl
end

/-- `JSON.parse` of a text with white space after it. -/
theorem parse_render {nearest : Decimal → JsNumber} {p : Spacing} (hp : JsonText.Spacing.Blank p)
    {v : Json} (h : v.Sound nearest) (depth : ℕ) {w : JsString} (hw : JsonText.White w) :
    Json.parse nearest (v.render p depth ++ w) = some v.ordinary := by
  have hnil : JsonText.Stops [] := by
    intro u us heq
    simp at heq
  have hstops : JsonText.Stops w := by
    rw [← List.append_nil w]
    exact JsonText.stops_white hw hnil
  have hread := JsonText.readValue_render nearest hp v depth ((v.render p depth ++ w).length + 1) w h
    (by rw [List.length_append]; omega) hstops
  have hskip : JsonText.skipSpace w = [] := by
    have hskip := JsonText.skipSpace_white hw []
    rwa [List.append_nil] at hskip
  rw [Json.parse, hread]
  simp only [hskip, if_true]

/-- **`JSON.parse` returns what `JSON.stringify` wrote**, with ordinary objects throughout. -/
theorem parse_stringify {nearest : Decimal → JsNumber} {v : Json} (h : v.Sound nearest) :
    Json.parse nearest v.stringify = some v.ordinary := by
  have hnil : JsonText.White [] := fun _ hu => absurd hu List.not_mem_nil
  have hparse := parse_render JsonText.Spacing.compact_blank h 0 hnil
  rwa [List.append_nil, render_compact] at hparse

end Signbox
