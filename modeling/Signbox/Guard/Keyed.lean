import Mathlib.Data.List.Sort

/-!
# Lists of keyed values

A list of pairs with distinct keys is a finite map in the order of its entries.

* `lookup_iff_mem`, `lookup_perm`: with distinct keys a lookup is membership, whatever the order.
* `perm_of_lookup`: two such lists that agree on every key are permutations.
* `sortKeys_eq_iff`: sorting by key decides whether two such lists are the same map.
-/

namespace Guard

variable {κ α β : Type*}

/-- The entries in the order of their keys. -/
def sortKeys (le : κ → κ → Prop) [DecidableRel le] (l : List (κ × α)) : List (κ × α) :=
  l.insertionSort fun a b => le a.1 b.1

section
variable (le : κ → κ → Prop) [DecidableRel le]

theorem sortKeys_perm (l : List (κ × α)) : (sortKeys le l).Perm l := List.perm_insertionSort _ l

theorem nodup_sortKeys {l : List (κ × α)} (h : (l.map Prod.fst).Nodup) :
    ((sortKeys le l).map Prod.fst).Nodup :=
  ((sortKeys_perm le l).map Prod.fst).nodup_iff.2 h

theorem sortKeys_map (f : α → β) (l : List (κ × α)) :
    (sortKeys le l).map (fun m => (m.1, f m.2)) = sortKeys le (l.map fun m => (m.1, f m.2)) :=
  List.map_insertionSort _ _ _ _ fun _ _ _ _ => Iff.rfl

theorem sortKeys_sortKeys [Std.Total le] [IsTrans κ le] (l : List (κ × α)) :
    sortKeys le (sortKeys le l) = sortKeys le l := by
  let r : κ × α → κ × α → Prop := fun a b => le a.1 b.1
  have htotal : Std.Total r := ⟨fun a b => Std.Total.total a.1 b.1⟩
  have htrans : IsTrans (κ × α) r := ⟨fun a b c => IsTrans.trans a.1 b.1 c.1⟩
  exact (List.pairwise_insertionSort r l).insertionSort_eq

end

/-! ## Lookups -/

theorem lookup_map_snd [BEq κ] (f : α → β) (l : List (κ × α)) (k : κ) :
    (l.map fun m => (m.1, f m.2)).lookup k = (l.lookup k).map f := by
  induction l with
  | nil => rfl
  | cons p l ih =>
    rw [List.map_cons, List.lookup_cons, List.lookup_cons]
    cases hk : k == p.1 with
    | true => rfl
    | false => exact ih

variable [BEq κ] [LawfulBEq κ] {l l' : List (κ × α)} {k : κ} {a : α}

theorem mem_of_lookup (h : l.lookup k = some a) : (k, a) ∈ l := by
  induction l with
  | nil => simp at h
  | cons p l ih =>
    rw [List.lookup_cons] at h
    by_cases hk : k = p.1
    · have heq : (k == p.1) = true := by simpa using hk
      rw [heq] at h
      obtain rfl := Option.some.inj h
      exact List.mem_cons.2 (Or.inl (by rw [hk]))
    · have hne : (k == p.1) = false := by simpa using hk
      rw [hne] at h
      exact List.mem_cons_of_mem _ (ih h)

/-- A selection by key keeps what it keeps of every key. -/
theorem lookup_filter (keep : κ → Bool) (l : List (κ × α)) (k : κ) :
    (l.filter fun m => keep m.1).lookup k = if keep k then l.lookup k else none := by
  induction l with
  | nil => simp
  | cons p l ih =>
    rw [List.filter_cons, List.lookup_cons]
    cases hk : k == p.1 with
    | true =>
      have heq : p.1 = k := (eq_of_beq hk).symm
      by_cases hkeep : keep p.1 = true
      · rw [if_pos hkeep, List.lookup_cons, hk, ← heq, if_pos hkeep]
      · rw [if_neg hkeep, ih, ← heq, if_neg hkeep, if_neg hkeep]
    | false =>
      by_cases hkeep : keep p.1 = true
      · rw [if_pos hkeep, List.lookup_cons, hk, ih]
      · rw [if_neg hkeep, ih]

theorem lookup_iff_mem (h : (l.map Prod.fst).Nodup) : l.lookup k = some a ↔ (k, a) ∈ l := by
  refine ⟨mem_of_lookup, fun hmem => ?_⟩
  induction l with
  | nil => simp at hmem
  | cons p l ih =>
    rw [List.map_cons, List.nodup_cons] at h
    rcases List.mem_cons.1 hmem with rfl | hmem
    · simp
    · have hne : k ≠ p.1 := by
        rintro rfl
        exact h.1 (List.mem_map.2 ⟨_, hmem, rfl⟩)
      have hbeq : (k == p.1) = false := by simpa using hne
      rw [List.lookup_cons, hbeq]
      exact ih h.2 hmem

theorem lookup_perm (hp : l.Perm l') (h : (l.map Prod.fst).Nodup) (k : κ) :
    l.lookup k = l'.lookup k := by
  have h' : (l'.map Prod.fst).Nodup := (hp.map Prod.fst).nodup_iff.1 h
  apply Option.ext
  intro a
  rw [lookup_iff_mem h, lookup_iff_mem h']
  exact hp.mem_iff

/-- Two maps that agree on every key list the same entries. -/
theorem perm_of_lookup (h : (l.map Prod.fst).Nodup) (h' : (l'.map Prod.fst).Nodup)
    (heq : ∀ k, l.lookup k = l'.lookup k) : l.Perm l' := by
  have hnd : l.Nodup := List.Nodup.of_map _ h
  have hnd' : l'.Nodup := List.Nodup.of_map _ h'
  rw [List.perm_ext_iff_of_nodup hnd hnd']
  rintro ⟨k, a⟩
  rw [← lookup_iff_mem h, ← lookup_iff_mem h', heq]

variable (le : κ → κ → Prop) [DecidableRel le]

theorem lookup_sortKeys (h : (l.map Prod.fst).Nodup) (k : κ) :
    (sortKeys le l).lookup k = l.lookup k :=
  lookup_perm (sortKeys_perm le l) (nodup_sortKeys le h) k

/-- **Sorting by key decides equality of maps**: association lists with distinct keys are sorted to
one list exactly when they give every key the same value. -/
theorem sortKeys_eq_iff [Std.Total le] [IsTrans κ le] [Std.Antisymm le]
    (h : (l.map Prod.fst).Nodup) (h' : (l'.map Prod.fst).Nodup) :
    sortKeys le l = sortKeys le l' ↔ ∀ k, l.lookup k = l'.lookup k := by
  constructor
  · intro heq k
    rw [← lookup_sortKeys le h, heq, lookup_sortKeys le h']
  · intro heq
    let r : κ × α → κ × α → Prop := fun a b => le a.1 b.1
    have htotal : Std.Total r := ⟨fun a b => Std.Total.total a.1 b.1⟩
    have htrans : IsTrans (κ × α) r := ⟨fun a b c => IsTrans.trans a.1 b.1 c.1⟩
    have hperm : (sortKeys le l).Perm (sortKeys le l') :=
      (sortKeys_perm le l).trans ((perm_of_lookup h h' heq).trans (sortKeys_perm le l').symm)
    refine hperm.eq_of_pairwise ?_ (List.pairwise_insertionSort r l)
      (List.pairwise_insertionSort r l')
    -- two entries with the same key are the same entry
    rintro ⟨k, a⟩ ⟨k', a'⟩ ha ha' hle hge
    obtain rfl : k = k' := Std.Antisymm.antisymm _ _ hle hge
    have hl := (lookup_iff_mem (nodup_sortKeys le h)).2 ha
    have hl' := (lookup_iff_mem (nodup_sortKeys le h')).2 ha'
    rw [lookup_sortKeys le h] at hl
    rw [lookup_sortKeys le h', ← heq, hl] at hl'
    rw [Option.some.inj hl']

end Guard
