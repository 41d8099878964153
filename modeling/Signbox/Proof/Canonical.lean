import Signbox.Guard.Keyed
import Signbox.Guard.ShortCircuit
import Signbox.Proof.RoundTrip

/-!
# The canonical form

`canonicalize` prints the value whose objects list their members in key order: `canonical`.

* `canonicalize_ok`: the canonical form is the text of that value.
* `canonical_eq_iff`: two values have the same one exactly when they are the same value of
  JSON, objects as maps.
* `canonicalize_inj`: so they print the same text exactly then.
* `parse_canonicalize`: the text reads back as a value that prints the same text.
-/

namespace Signbox

open Guard

/-- Equality of JSON values: an object is the map of its members. Neither their order nor the
prototype counts. -/
inductive Json.Same : Json → Json → Prop
  | null : Same .null .null
  | bool (b : Bool) : Same (.bool b) (.bool b)
  | num (x : JsNumber) : Same (.num x) (.num x)
  | str (s : JsString) : Same (.str s) (.str s)
  | arr {us vs : List Json} : List.Forall₂ Same us vs → Same (.arr us) (.arr vs)
  | obj {p q : Proto} {ms ns : List (JsString × Json)} :
      (∀ k, Option.Rel Same (ms.lookup k) (ns.lookup k)) → Same (.obj p ms) (.obj q ns)

/-- Under every key the two objects both hold nothing, or hold values that are the same. -/
theorem Json.Same.rel {p q : Proto} {ms ns : List (JsString × Json)}
    (h : (Json.obj p ms).Same (.obj q ns)) (k : JsString) :
    Option.Rel Json.Same (ms.lookup k) (ns.lookup k) := by
  cases h with
  | obj hmembers => exact hmembers k

/-- Equal objects have equal values under a key. -/
theorem Json.Same.at {p q : Proto} {ms ns : List (JsString × Json)} {k : JsString} {u v : Json}
    (h : (Json.obj p ms).Same (.obj q ns)) (hu : ms.lookup k = some u)
    (hv : ns.lookup k = some v) : u.Same v := by
  have hrel := h.rel k
  rw [hu, hv] at hrel
  cases hrel with
  | some hsame => exact hsame

/-- A key of one of two equal objects is one of the other. -/
theorem Json.Same.exists_lookup {p q : Proto} {ms ns : List (JsString × Json)} {k : JsString}
    {v : Json} (h : (Json.obj p ms).Same (.obj q ns)) (hv : ns.lookup k = some v) :
    ∃ u, ms.lookup k = some u ∧ u.Same v := by
  have hrel := h.rel k
  rw [hv] at hrel
  cases hu : ms.lookup k with
  | none =>
    rw [hu] at hrel
    cases hrel
  | some u => exact ⟨u, rfl, h.at hu hv⟩

/-- The same number is one number. -/
theorem Json.Same.num_eq {x y : JsNumber} (h : (Json.num x).Same (.num y)) : x = y := by
  cases h
  rfl

/-- The same string is one string. -/
theorem Json.Same.str_eq {s t : JsString} (h : (Json.str s).Same (.str t)) : s = t := by
  cases h
  rfl

/-! ## The order of keys -/

/-- The order of keys, by their units and not by code points. -/
def keyLe (a b : JsString) : Prop := JsString.le a b = true

/-- The order is decided by comparing the units. -/
instance : DecidableRel keyLe := fun a b => inferInstanceAs (Decidable (JsString.le a b = true))

/-- It is lexicographic. -/
theorem keyLe_cons {u v : UInt16} {us vs : JsString} :
    keyLe (u :: us) (v :: vs) ↔ u < v ∨ u = v ∧ keyLe us vs := by
  simp [keyLe, JsString.le]

/-- Any two keys are ordered, -/
instance : Std.Total keyLe where
  total a := by
    induction a with
    | nil => exact fun b => .inl rfl
    | cons u us ih =>
      intro b
      cases b with
      | nil => exact .inr rfl
      | cons v vs =>
        rw [keyLe_cons, keyLe_cons]
        by_cases h : u = v
        · rcases ih vs with hle | hle
          · exact .inl (.inr ⟨h, hle⟩)
          · exact .inr (.inr ⟨h.symm, hle⟩)
        · rcases UInt16.lt_or_lt_of_ne h with hlt | hlt
          · exact .inl (.inl hlt)
          · exact .inr (.inl hlt)

/-- at most one way, -/
instance : Std.Antisymm keyLe where
  antisymm a := by
    induction a with
    | nil =>
      intro b _ h
      cases b with
      | nil => rfl
      | cons v vs => simp [keyLe, JsString.le] at h
    | cons u us ih =>
      intro b h h'
      cases b with
      | nil => simp [keyLe, JsString.le] at h
      | cons v vs =>
        rw [keyLe_cons] at h h'
        rcases h with h | ⟨rfl, h⟩
        · rcases h' with h' | ⟨heq, -⟩
          · exact absurd (UInt16.lt_trans h h') (UInt16.lt_irrefl u)
          · subst heq
            exact absurd h (UInt16.lt_irrefl _)
        · rcases h' with h' | ⟨-, h'⟩
          · exact absurd h' (UInt16.lt_irrefl u)
          · rw [ih vs h h']

/-- and transitively: sorting by it is well defined. -/
instance : IsTrans JsString keyLe where
  trans a := by
    induction a with
    | nil => exact fun _ _ _ _ => rfl
    | cons u us ih =>
      intro b c h h'
      cases b with
      | nil => simp [keyLe, JsString.le] at h
      | cons v vs =>
        cases c with
        | nil => simp [keyLe, JsString.le] at h'
        | cons w ws =>
          rw [keyLe_cons] at h h' ⊢
          rcases h with h | ⟨rfl, h⟩
          · rcases h' with h' | ⟨rfl, -⟩
            · exact .inl (UInt16.lt_trans h h')
            · exact .inl h
          · rcases h' with h' | ⟨rfl, h'⟩
            · exact .inl h'
            · exact .inr ⟨rfl, ih vs ws h h'⟩

/-! ## The canonical value -/

mutual
/-- The value whose objects list their members in key order. -/
def Json.canonical : Json → Json
  | .arr items => .arr (canonicalItems items)
  | .obj _ ms => .obj .ordinary (sortKeys keyLe (canonicalMembers ms))
  | v => v

/-- The entries in canonical form, their order kept. -/
def canonicalItems : List Json → List Json
  | [] => []
  | v :: vs => v.canonical :: canonicalItems vs

/-- The members' values in canonical form, before the keys are sorted. -/
def canonicalMembers : List (JsString × Json) → List (JsString × Json)
  | [] => []
  | (k, v) :: ms => (k, v.canonical) :: canonicalMembers ms
end

/-- The members are treated one by one. -/
theorem canonicalMembers_eq (ms : List (JsString × Json)) :
    canonicalMembers ms = ms.map fun m => (m.1, m.2.canonical) := by
  induction ms with
  | nil => rfl
  | cons m ms ih => simp [canonicalMembers, ih]

/-- Their keys stay, -/
theorem keys_canonicalMembers (ms : List (JsString × Json)) :
    (canonicalMembers ms).map Prod.fst = ms.map Prod.fst := by
  rw [canonicalMembers_eq, List.map_map]
  rfl

/-- and under each key stands the canonical value. -/
theorem lookup_canonicalMembers (ms : List (JsString × Json)) (k : JsString) :
    (canonicalMembers ms).lookup k = (ms.lookup k).map Json.canonical := by
  rw [canonicalMembers_eq, lookup_map_snd]

/-- The text of the members: each key quoted, a colon and the value's text. -/
theorem stringifyMembers_eq (ms : List (JsString × Json)) :
    stringifyMembers ms = ms.map fun m => quote m.1 ++ js ":" ++ m.2.stringify := by
  induction ms with
  | nil => rfl
  | cons m ms ih => simp [stringifyMembers, ih]

variable {nearest : Decimal → JsNumber}

/-- Members are sound when each value is. -/
theorem soundMembers_iff {ms : List (JsString × Json)} :
    SoundMembers nearest ms ↔ ∀ m ∈ ms, m.2.Sound nearest := by
  induction ms with
  | nil => simp [SoundMembers]
  | cons m ms ih => simp [SoundMembers, ih]

mutual
/-- **The canonical form is the text of the canonical value.** Sorting the serialized members is
the same as serializing the sorted ones, since the order looks at keys only. -/
theorem canonicalize_ok : ∀ v : Json, v.Sound nearest →
    canonicalize v = .ok v.canonical.stringify
  | .null, _ => rfl
  | .bool _, _ => rfl
  | .num (.finite _), _ => rfl
  | .num (.infinite _), h => by simp [Json.Sound] at h
  | .str _, _ => rfl
  | .arr items, h => by
    rw [canonicalize, canonicalizeItems_ok items h]
    rfl
  | .obj _ ms, h => by
    have hsort : sortMembers ((canonicalMembers ms).map fun m => (m.1, m.2.stringify)) =
        (sortKeys keyLe (canonicalMembers ms)).map fun m => (m.1, m.2.stringify) :=
      (sortKeys_map keyLe Json.stringify (canonicalMembers ms)).symm
    rw [canonicalize, canonicalizeMembers_ok ms h.2]
    simp only [ok_bind, pure_eq, hsort, List.map_map, Json.canonical, Json.stringify,
      stringifyMembers_eq]
    rfl

/-- The entries of a sound array are serialized without an error. -/
theorem canonicalizeItems_ok : ∀ vs : List Json, SoundItems nearest vs →
    canonicalizeItems vs = .ok (stringifyItems (canonicalItems vs))
  | [], _ => rfl
  | v :: vs, h => by
    rw [canonicalizeItems, canonicalize_ok v h.1, canonicalizeItems_ok vs h.2]
    rfl

/-- So are the members of a sound object. -/
theorem canonicalizeMembers_ok : ∀ ms : List (JsString × Json), SoundMembers nearest ms →
    canonicalizeMembers ms = .ok ((canonicalMembers ms).map fun m => (m.1, m.2.stringify))
  | [], _ => rfl
  | (k, v) :: ms, h => by
    rw [canonicalizeMembers, canonicalize_ok v h.1, canonicalizeMembers_ok ms h.2]
    rfl
end

mutual
/-- The canonical form of a sound value is sound, so it is itself text that reads back. -/
theorem canonical_sound : ∀ v : Json, v.Sound nearest → v.canonical.Sound nearest
  | .null, _ => trivial
  | .bool _, _ => trivial
  | .num (.finite _), h => h
  | .num (.infinite _), h => h
  | .str _, _ => trivial
  | .arr items, h => canonicalItems_sound items h
  | .obj _ ms, h => by
    have hmembers := soundMembers_iff.1 (canonicalMembers_sound ms h.2)
    refine ⟨nodup_sortKeys keyLe (by rw [keys_canonicalMembers]; exact h.1), ?_⟩
    rw [soundMembers_iff]
    intro m hm
    exact hmembers m ((sortKeys_perm keyLe _).mem_iff.1 hm)

/-- The same for entries -/
theorem canonicalItems_sound : ∀ vs : List Json, SoundItems nearest vs →
    SoundItems nearest (canonicalItems vs)
  | [], _ => trivial
  | v :: vs, h => ⟨canonical_sound v h.1, canonicalItems_sound vs h.2⟩

/-- and for members. -/
theorem canonicalMembers_sound : ∀ ms : List (JsString × Json), SoundMembers nearest ms →
    SoundMembers nearest (canonicalMembers ms)
  | [], _ => trivial
  | (_, v) :: ms, h => ⟨canonical_sound v h.1, canonicalMembers_sound ms h.2⟩
end

mutual
/-- A canonical form has ordinary objects only, -/
theorem canonical_ordinary : ∀ v : Json, v.canonical.ordinary = v.canonical
  | .null => rfl
  | .bool _ => rfl
  | .num _ => rfl
  | .str _ => rfl
  | .arr items => by
    rw [Json.canonical, Json.ordinary, canonicalItems_ordinary items]
  | .obj _ ms => by
    have hmap : (sortKeys keyLe (canonicalMembers ms)).map (fun m => (m.1, m.2.ordinary)) =
        sortKeys keyLe (canonicalMembers ms) := by
      rw [sortKeys_map, ← ordinaryMembers_eq, canonicalMembers_ordinary ms]
    rw [Json.canonical, Json.ordinary, ordinaryMembers_eq, hmap]

/-- in its entries -/
theorem canonicalItems_ordinary : ∀ vs : List Json,
    ordinaryItems (canonicalItems vs) = canonicalItems vs
  | [] => rfl
  | v :: vs => by
    rw [canonicalItems, ordinaryItems, canonical_ordinary v, canonicalItems_ordinary vs]

/-- and under its keys. -/
theorem canonicalMembers_ordinary : ∀ ms : List (JsString × Json),
    ordinaryMembers (canonicalMembers ms) = canonicalMembers ms
  | [] => rfl
  | (k, v) :: ms => by
    rw [canonicalMembers, ordinaryMembers, canonical_ordinary v, canonicalMembers_ordinary ms]
end

/-! ## Equality -/

/-- Two optional values have equal images when both are absent or the images of their values are
equal. -/
theorem option_rel_map_iff {f : Json → Json} {R : Json → Json → Prop} {o o' : Option Json}
    (h : ∀ u v, o = some u → o' = some v → (f u = f v ↔ R u v)) :
    o.map f = o'.map f ↔ Option.Rel R o o' := by
  cases o with
  | none =>
    cases o' with
    | none => exact ⟨fun _ => .none, fun _ => rfl⟩
    | some v => exact ⟨fun heq => by simp at heq, fun hrel => by cases hrel⟩
  | some u =>
    cases o' with
    | none => exact ⟨fun heq => by simp at heq, fun hrel => by cases hrel⟩
    | some v =>
      have huv := h u v rfl rfl
      refine ⟨fun heq => .some (huv.1 (Option.some.inj heq)), fun hrel => ?_⟩
      cases hrel with
      | some hrel => exact congrArg some (huv.2 hrel)

/-- With distinct keys, sorted members are equal exactly when they are the same under every key.
Where they stood before does not matter. -/
theorem canonicalMembers_eq_iff {ms ns : List (JsString × Json)} (hms : (ms.map Prod.fst).Nodup)
    (hns : (ns.map Prod.fst).Nodup)
    (h : ∀ m ∈ ms, ∀ n ∈ ns, (m.2.canonical = n.2.canonical ↔ m.2.Same n.2)) :
    sortKeys keyLe (canonicalMembers ms) = sortKeys keyLe (canonicalMembers ns) ↔
      ∀ k, Option.Rel Json.Same (ms.lookup k) (ns.lookup k) := by
  rw [sortKeys_eq_iff keyLe (by rwa [keys_canonicalMembers]) (by rwa [keys_canonicalMembers])]
  refine forall_congr' fun k => ?_
  rw [lookup_canonicalMembers, lookup_canonicalMembers]
  refine option_rel_map_iff fun u v hu hv => ?_
  exact h (k, u) (mem_of_lookup hu) (k, v) (mem_of_lookup hv)

mutual
/-- **Equal canonical values are equal values**, up to the order of members and the prototypes. The
recursion goes through both values at once. -/
theorem canonical_eq_iff : ∀ u v : Json, u.Sound nearest → v.Sound nearest →
    (u.canonical = v.canonical ↔ u.Same v)
  -- values of different kinds differ in canonical form as well
  | .null, v, _, _ => by
    constructor
    · intro h
      cases v <;> simp only [Json.canonical, reduceCtorEq] at h
      exact .null
    · intro h
      cases h
      rfl
  | .bool b, v, _, _ => by
    constructor
    · intro h
      cases v <;> simp only [Json.canonical, reduceCtorEq, Json.bool.injEq] at h
      rw [h]
      exact .bool _
    · intro h
      cases h
      rfl
  | .num x, v, _, _ => by
    constructor
    · intro h
      cases v <;> simp only [Json.canonical, reduceCtorEq, Json.num.injEq] at h
      rw [h]
      exact .num _
    · intro h
      cases h
      rfl
  | .str s, v, _, _ => by
    constructor
    · intro h
      cases v <;> simp only [Json.canonical, reduceCtorEq, Json.str.injEq] at h
      rw [h]
      exact .str _
    · intro h
      cases h
      rfl
  -- arrays keep their order, so their entries are compared in place
  | .arr us, v, hu, hv => by
    constructor
    · intro h
      cases v <;> simp only [Json.canonical, reduceCtorEq, Json.arr.injEq] at h
      exact .arr ((canonicalItems_eq_iff us _ hu hv).1 h)
    · intro h
      cases h with
      | arr hitems =>
        have heq := (canonicalItems_eq_iff us _ hu hv).2 hitems
        rw [Json.canonical, Json.canonical, heq]
  -- objects are compared under each key, whatever the order of their members
  | .obj p ms, v, hu, hv => by
    constructor
    · intro h
      cases v <;> simp only [Json.canonical, reduceCtorEq, Json.obj.injEq, true_and] at h
      have hiff := canonicalMembers_eq_iff hu.1 hv.1 fun m hm n hn =>
        canonicalMember_eq_iff ms hu.2 m hm n.2 (soundMembers_iff.1 hv.2 n hn)
      exact .obj (hiff.1 h)
    · intro h
      cases h with
      | obj hmembers =>
        have hiff := canonicalMembers_eq_iff hu.1 hv.1 fun m hm n hn =>
          canonicalMember_eq_iff ms hu.2 m hm n.2 (soundMembers_iff.1 hv.2 n hn)
        rw [Json.canonical, Json.canonical, hiff.2 hmembers]

/-- Entries have one canonical form exactly when they are the same entry by entry. -/
theorem canonicalItems_eq_iff : ∀ us vs : List Json, SoundItems nearest us →
    SoundItems nearest vs → (canonicalItems us = canonicalItems vs ↔ List.Forall₂ Json.Same us vs)
  | [], [], _, _ => by simp
  | [], v :: vs, _, _ => by simp [canonicalItems]
  | u :: us, [], _, _ => by simp [canonicalItems]
  | u :: us, v :: vs, hu, hv => by
    rw [canonicalItems, canonicalItems, List.cons.injEq, List.forall₂_cons,
      canonical_eq_iff u v hu.1 hv.1, canonicalItems_eq_iff us vs hu.2 hv.2]

/-- A member's value and another value likewise; this is where the recursion goes into an
object. -/
theorem canonicalMember_eq_iff : ∀ ms : List (JsString × Json), SoundMembers nearest ms →
    ∀ m ∈ ms, ∀ v : Json, v.Sound nearest → (m.2.canonical = v.canonical ↔ m.2.Same v)
  | [], _, _, hm, _, _ => by simp at hm
  | (k, u) :: ms, hu, m, hm, v, hv => by
    rcases List.mem_cons.1 hm with rfl | hm
    · exact canonical_eq_iff u v hu.1 hv
    · exact canonicalMember_eq_iff ms hu.2 m hm v hv
end

mutual
/-- The canonical value is its own canonical value. -/
theorem canonical_canonical : ∀ v : Json, v.canonical.canonical = v.canonical
  | .null => rfl
  | .bool _ => rfl
  | .num _ => rfl
  | .str _ => rfl
  | .arr items => by
    rw [Json.canonical, Json.canonical, canonicalItems_canonical items]
  | .obj _ ms => by
    have hmap : canonicalMembers (sortKeys keyLe (canonicalMembers ms)) =
        sortKeys keyLe (canonicalMembers ms) := by
      rw [canonicalMembers_eq, sortKeys_map, ← canonicalMembers_eq, canonicalMembers_canonical ms]
    rw [Json.canonical, Json.canonical, hmap, sortKeys_sortKeys]

/-- What is canonical stays as it is, in entries -/
theorem canonicalItems_canonical : ∀ vs : List Json,
    canonicalItems (canonicalItems vs) = canonicalItems vs
  | [] => rfl
  | v :: vs => by
    rw [canonicalItems, canonicalItems, canonical_canonical v, canonicalItems_canonical vs]

/-- and under keys. -/
theorem canonicalMembers_canonical : ∀ ms : List (JsString × Json),
    canonicalMembers (canonicalMembers ms) = canonicalMembers ms
  | [] => rfl
  | (k, v) :: ms => by
    rw [canonicalMembers, canonicalMembers, canonical_canonical v, canonicalMembers_canonical ms]
end

/-! ## The text -/

variable {u v : Json}

/-- **Two values have the same canonical form exactly when they are the same value.** The text of a
sound value reads back as the value, so nothing is lost when it is written. -/
theorem canonicalize_eq_iff (hu : u.Sound nearest) (hv : v.Sound nearest) :
    canonicalize u = canonicalize v ↔ u.Same v := by
  rw [canonicalize_ok u hu, canonicalize_ok v hv, Except.ok.injEq, ← canonical_eq_iff u v hu hv]
  constructor
  · intro htext
    -- the text determines the canonical value, because it reads back as it
    have hparse := parse_stringify (canonical_sound u hu)
    rw [htext, parse_stringify (canonical_sound v hv)] at hparse
    simpa only [canonical_ordinary] using (Option.some.inj hparse).symm
  · intro heq
    rw [heq]

/-- **The canonical form reads back as the value in canonical order, which prints the same
text.** -/
theorem parse_canonicalize (hv : v.Sound nearest) :
    ∃ text, canonicalize v = .ok text ∧ Json.parse nearest text = some v.canonical ∧
      canonicalize v.canonical = .ok text := by
  refine ⟨v.canonical.stringify, canonicalize_ok v hv, ?_, ?_⟩
  · rw [parse_stringify (canonical_sound v hv), canonical_ordinary]
  · rw [canonicalize_ok _ (canonical_sound v hv), canonical_canonical v]

end Signbox
