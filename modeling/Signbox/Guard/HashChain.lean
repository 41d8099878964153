import Mathlib.Data.List.Basic
import Mathlib.Data.List.Induction
import Mathlib.Data.Int.Notation
import Mathlib.Data.List.Forall2
import Mathlib.Tactic.Tauto

/-!
# Hash chains

A log whose entries are numbered from a first one on, each with the hash of the one before it
and a hash of its own. What a hash covers is a relation: `Hashed seq prev body hash`.

* `Chain`: the entries are numbered and linked, and their hashes are right.
* `chain_snoc`: a chain grows at its end by one entry with the next number and the last hash.
* `Chain.commit`: if a hash determines what it covers, up to a relation between bodies, then the
  last hash of a chain determines the chain, up to that relation.
-/

namespace Guard

structure Link (η β : Type) where
  seq : ℤ
  prev : η
  hash : η
  body : β

variable {η β : Type} {Hashed : ℤ → η → β → η → Prop} {first : η} {n : ℤ} {ls ls' : List (Link η β)}

/-- Numbered from `n` on, and linked to `first`. -/
def Chain (Hashed : ℤ → η → β → η → Prop) : η → ℤ → List (Link η β) → Prop
  | _, _, [] => True
  | prev, n, l :: ls => l.seq = n ∧ l.prev = prev ∧ Hashed l.seq l.prev l.body l.hash ∧
      Chain Hashed l.hash (n + 1) ls

/-- The hash the next entry links to. -/
def lastHash (first : η) (ls : List (Link η β)) : η := (ls.getLast?.map Link.hash).getD first

theorem lastHash_snoc (first : η) (ls : List (Link η β)) (l : Link η β) :
    lastHash first (ls ++ [l]) = l.hash := by
  simp [lastHash]

theorem lastHash_cons (first : η) (l : Link η β) (ls : List (Link η β)) :
    lastHash first (l :: ls) = lastHash l.hash ls := by
  cases ls with
  | nil => rfl
  | cons l' ls => simp [lastHash, List.getLast?_cons]

theorem chain_snoc {l : Link η β} : Chain Hashed first n (ls ++ [l]) ↔
    Chain Hashed first n ls ∧ l.seq = n + ls.length ∧ l.prev = lastHash first ls ∧
      Hashed l.seq l.prev l.body l.hash := by
  induction ls generalizing first n with
  | nil => simp [Chain, lastHash]
  | cons l' ls ih =>
    have hseq : n + 1 + (ls.length : ℤ) = n + ((l' :: ls).length : ℤ) := by
      rw [List.length_cons]
      push_cast
      omega
    rw [List.cons_append, Chain, ih, Chain, lastHash_cons, hseq]
    tauto

/-- **The last hash commits to the chain.** Two chains of one length that end in the same hash
agree link by link, up to what the hash leaves open of a body. The induction goes from the last
link to the first: each link's hash covers the hash before it. -/
theorem Chain.commit {R : β → β → Prop}
    (hinj : ∀ l ∈ ls, ∀ l' ∈ ls', l.hash = l'.hash → Hashed l.seq l.prev l.body l.hash →
      Hashed l'.seq l'.prev l'.body l'.hash → l.seq = l'.seq ∧ l.prev = l'.prev ∧ R l.body l'.body)
    (hc : Chain Hashed first n ls) (hc' : Chain Hashed first n ls')
    (hlast : ls.getLast?.map Link.hash = ls'.getLast?.map Link.hash) :
    List.Forall₂ (fun l l' => l.seq = l'.seq ∧ l.prev = l'.prev ∧ l.hash = l'.hash ∧
      R l.body l'.body) ls ls' := by
  induction ls using List.reverseRecOn generalizing ls' with
  | nil =>
    cases ls' using List.reverseRecOn with
    | nil => exact .nil
    | append_singleton ls' l' => simp at hlast
  | append_singleton ls l ih =>
    cases ls' using List.reverseRecOn with
    | nil => simp at hlast
    | append_singleton ls' l' =>
      have hhash : l.hash = l'.hash := by simpa using hlast
      rw [chain_snoc] at hc hc'
      obtain ⟨hc, hseq, hprev, hl⟩ := hc
      obtain ⟨hc', hseq', hprev', hl'⟩ := hc'
      obtain ⟨hs, hp, hb⟩ := hinj l (by simp) l' (by simp) hhash hl hl'
      -- the numbers are equal, so the chains are equally long
      have hlen : ls.length = ls'.length := by omega
      have hprevious : ls.getLast?.map Link.hash = ls'.getLast?.map Link.hash := by
        rcases List.eq_nil_or_concat ls with rfl | ⟨ks, k, rfl⟩
        · have hnil : ls' = [] := List.eq_nil_of_length_eq_zero hlen.symm
          rw [hnil]
        · rcases List.eq_nil_or_concat ls' with rfl | ⟨ks', k', rfl⟩
          · simp at hlen
          · simp only [List.concat_eq_append] at hprev hprev' ⊢
            rw [hprev, hprev', lastHash_snoc, lastHash_snoc] at hp
            simp [hp]
      have hinit := ih (fun k hk k' hk' => hinj k (List.mem_append_left _ hk) k'
        (List.mem_append_left _ hk')) hc hc' hprevious
      exact List.rel_append hinit (.cons ⟨hs, hp, hhash, hb⟩ .nil)

end Guard
