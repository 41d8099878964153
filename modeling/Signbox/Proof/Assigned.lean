import Signbox.Guard.Keyed
import Signbox.Spec.Nonce

/-!
# Assigning to a key

`mapSet` sets one key of a map, and a map that is built by assignments holds, for each key, the
last value assigned to it.

* `lookup_mapSet`, `mem_keys_mapSet`, `length_mapSet_le`: one assignment.
* `foldl_mapSet`, `lookup_foldl_mapSet`: a list of assignments.
-/

namespace Signbox

open Guard

variable {α : Type} {key k : JsString} {value : α} {entries acc ms : List (JsString × α)}

/-! ## One assignment -/

theorem lookup_mapSet (key key' : JsString) (value : α) (entries : List (JsString × α)) :
    (mapSet key value entries).lookup key' =
      if key' = key then some value else entries.lookup key' := by
  induction entries with
  | nil =>
    by_cases h : key' = key
    · simp [mapSet, h]
    · have hne : (key' == key) = false := by simpa using h
      simp [mapSet, List.lookup_cons, hne, h]
  | cons entry entries ih =>
    obtain ⟨k, v⟩ := entry
    unfold mapSet
    by_cases hk : k = key
    · subst hk
      rw [if_pos rfl, List.lookup_cons, List.lookup_cons]
      by_cases h : key' = k
      · simp [h]
      · have hne : (key' == k) = false := by simpa using h
        simp [hne, h]
    · rw [if_neg hk, List.lookup_cons, List.lookup_cons, ih]
      by_cases h : key' = k
      · subst h
        simp [hk]
      · have hne : (key' == k) = false := by simpa using h
        simp [hne]

theorem mem_keys_mapSet :
    k ∈ (mapSet key value entries).map Prod.fst ↔ k = key ∨ k ∈ entries.map Prod.fst := by
  induction entries with
  | nil => simp [mapSet]
  | cons m ms ih =>
    obtain ⟨k', w⟩ := m
    by_cases hk : k' = key
    · rw [mapSet, if_pos hk, hk]
      simp
    · rw [mapSet, if_neg hk, List.map_cons, List.mem_cons, ih, List.map_cons, List.mem_cons]
      tauto

theorem nodup_mapSet (h : (entries.map Prod.fst).Nodup) :
    ((mapSet key value entries).map Prod.fst).Nodup := by
  induction entries with
  | nil => simp [mapSet]
  | cons m ms ih =>
    obtain ⟨k', w⟩ := m
    rw [List.map_cons, List.nodup_cons] at h
    by_cases hk : k' = key
    · rw [mapSet, if_pos hk, List.map_cons, List.nodup_cons, ← hk]
      exact h
    · rw [mapSet, if_neg hk, List.map_cons, List.nodup_cons]
      refine ⟨fun hmem => ?_, ih h.2⟩
      rcases mem_keys_mapSet.1 hmem with heq | hmem
      · exact hk heq
      · exact h.1 hmem

theorem mapSet_ne_nil (key : JsString) (value : α) (entries : List (JsString × α)) :
    mapSet key value entries ≠ [] := by
  cases entries with
  | nil => simp [mapSet]
  | cons m ms =>
    simp only [mapSet]
    split_ifs <;> simp

theorem length_mapSet_le (key : JsString) (value : α) (entries : List (JsString × α)) :
    (mapSet key value entries).length ≤ entries.length + 1 := by
  induction entries with
  | nil => simp [mapSet]
  | cons entry entries ih =>
    unfold mapSet
    split
    · simp
    · simpa using ih

theorem mapSet_new (h : key ∉ entries.map Prod.fst) :
    mapSet key value entries = entries ++ [(key, value)] := by
  induction entries with
  | nil => rfl
  | cons e entries ih =>
    obtain ⟨k, v⟩ := e
    rw [List.map_cons, List.mem_cons, not_or] at h
    have hne : k ≠ key := fun hk => h.1 hk.symm
    rw [mapSet, if_neg hne, ih h.2]
    rfl

/-! ## A list of assignments -/

/-- Distinct keys are defined one after another. -/
theorem foldl_mapSet : ∀ {acc : List (JsString × α)}, ((acc ++ ms).map Prod.fst).Nodup →
    ms.foldl (fun acc m => mapSet m.1 m.2 acc) acc = acc ++ ms := by
  induction ms with
  | nil => simp
  | cons m ms ih =>
    intro acc h
    have hnew : m.1 ∉ acc.map Prod.fst := by
      intro hmem
      rw [List.map_append, List.nodup_append] at h
      exact h.2.2 _ hmem _ (by simp) rfl
    have happ : acc ++ m :: ms = (acc ++ [(m.1, m.2)]) ++ ms := by simp
    rw [List.foldl_cons, mapSet_new hnew, happ]
    exact ih (by rwa [← happ])

theorem nodup_foldl_mapSet (h : (acc.map Prod.fst).Nodup) :
    ((ms.foldl (fun acc m => mapSet m.1 m.2 acc) acc).map Prod.fst).Nodup := by
  induction ms generalizing acc with
  | nil => exact h
  | cons m ms ih => exact ih (nodup_mapSet h)

theorem mem_keys_foldl_mapSet :
    k ∈ (ms.foldl (fun acc m => mapSet m.1 m.2 acc) acc).map Prod.fst ↔
      k ∈ acc.map Prod.fst ∨ k ∈ ms.map Prod.fst := by
  induction ms generalizing acc with
  | nil => simp
  | cons m ms ih =>
    rw [List.foldl_cons, ih, mem_keys_mapSet, List.map_cons, List.mem_cons]
    tauto

/-- **The last value assigned to a key is the one it has**, and a key that is not assigned keeps
the value it had. -/
theorem lookup_foldl_mapSet :
    (ms.foldl (fun acc m => mapSet m.1 m.2 acc) acc).lookup k =
      (ms.reverse.lookup k).or (acc.lookup k) := by
  induction ms generalizing acc with
  | nil => rfl
  | cons m ms ih =>
    rw [List.foldl_cons, ih, lookup_mapSet, List.reverse_cons, List.lookup_append, Option.or_assoc]
    congr 1
    by_cases h : k = m.1
    · rw [if_pos h, h, List.lookup_cons_self]
      rfl
    · have hne : (k == m.1) = false := by simpa using h
      rw [if_neg h, List.lookup_cons, hne]
      rfl

end Signbox
