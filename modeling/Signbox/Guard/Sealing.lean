import Mathlib.Data.List.Basic

/-!
# Ideal authenticated encryption

A ciphertext opens only if it was sealed: the state is the list of what was sealed so far, and
opening looks the ciphertext up, together with its key, its nonce and its additional data.

* `mem_of_opened`: what opens was sealed.
* `Honest.opened_seal`: what was sealed opens to the message that was sealed, if no two messages
  have one ciphertext.
-/

namespace Guard

/-- A message that was sealed, with what it was sealed under. -/
structure Sealing (κ ν α γ μ : Type) where
  key : κ
  nonce : ν
  additional : α
  ciphertext : γ
  message : μ

variable {κ ν α γ μ : Type} [DecidableEq κ] [DecidableEq ν] [DecidableEq α] [DecidableEq γ]
variable {ss ts : List (Sealing κ ν α γ μ)} {s : Sealing κ ν α γ μ}

/-- The message of the first sealing with this key, nonce, additional data and ciphertext. -/
def opened (ss : List (Sealing κ ν α γ μ)) (key : κ) (nonce : ν) (additional : α)
    (ciphertext : γ) : Option μ :=
  (ss.find? fun s => decide (s.key = key ∧ s.nonce = nonce ∧ s.additional = additional ∧
    s.ciphertext = ciphertext)).map Sealing.message

/-- What opens was sealed. -/
theorem mem_of_opened {k : κ} {n : ν} {a : α} {c : γ} {m : μ} (h : opened ss k n a c = some m) :
    ⟨k, n, a, c, m⟩ ∈ ss := by
  obtain ⟨s, hs, rfl⟩ := Option.map_eq_some_iff.1 h
  have hmem := List.mem_of_find?_eq_some hs
  have hmatch := List.find?_some hs
  obtain ⟨rfl, rfl, rfl, rfl⟩ := of_decide_eq_true hmatch
  exact hmem

/-- Something opens, if a sealing has these parts. -/
theorem exists_opened (h : s ∈ ss) :
    ∃ m, opened ss s.key s.nonce s.additional s.ciphertext = some m := by
  cases hfind : opened ss s.key s.nonce s.additional s.ciphertext with
  | some m => exact ⟨m, rfl⟩
  | none =>
    have hnone := List.find?_eq_none.1 (Option.map_eq_none_iff.1 hfind) s h
    simp at hnone

/-- Every ciphertext is the one the cipher gives. -/
def Honest (encrypt : κ → ν → α → μ → γ) (ss : List (Sealing κ ν α γ μ)) : Prop :=
  ∀ s ∈ ss, s.ciphertext = encrypt s.key s.nonce s.additional s.message

variable {encrypt : κ → ν → α → μ → γ}

omit [DecidableEq κ] [DecidableEq ν] [DecidableEq α] [DecidableEq γ] in
theorem honest_nil : Honest encrypt [] := by
  intro s hs
  simp at hs

omit [DecidableEq κ] [DecidableEq ν] [DecidableEq α] [DecidableEq γ] in
theorem Honest.snoc (h : Honest encrypt ss)
    (hs : s.ciphertext = encrypt s.key s.nonce s.additional s.message) :
    Honest encrypt (ss ++ [s]) := by
  intro t ht
  rcases List.mem_append.1 ht with ht | ht
  · exact h t ht
  · obtain rfl := List.mem_singleton.1 ht
    exact hs

/-- **What was sealed opens to its message**, under the same key, nonce and additional data, if the
cipher keeps messages apart. The record of sealings stands in for the cipher: nothing opens that is
not on it. -/
theorem Honest.opened_seal (h : Honest encrypt ss)
    (hinj : ∀ k n a m m', encrypt k n a m = encrypt k n a m' → m = m') (hs : s ∈ ss) :
    opened ss s.key s.nonce s.additional s.ciphertext = some s.message := by
  obtain ⟨m, hm⟩ := exists_opened hs
  -- the sealing found may be another one, of the same ciphertext
  have hfound := h _ (mem_of_opened hm)
  have hcipher : encrypt s.key s.nonce s.additional m =
      encrypt s.key s.nonce s.additional s.message := by
    rw [← h s hs]
    exact hfound.symm
  rw [hm, hinj _ _ _ _ _ hcipher]

end Guard
