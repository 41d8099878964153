import Signbox.Proof.Evaluate

/-!
# Comparing two policies on one transaction

When a policy `policy'` allows a transaction, does another policy `policy` allow it too?
`Allowed.transfer` reduces the question to single actions: the rule that governs an action
under `policy` must be related to the one that governs it under `policy'`, and a capped
rule must be related to one rule only, with a cap that is no larger.
-/

namespace Signbox

open Guard

variable {ctx : EvaluationContext} {policy policy' : Policy} {tx : DecodedTransaction}
  {Rel : PolicyRule → PolicyRule → Prop}

theorem governedUnits_cons (p : DecodedAction × PolicyRule) (ps : List (DecodedAction × PolicyRule))
    (r : PolicyRule) : governedUnits ctx (p :: ps) r =
      (if p.2 = r then movedUnits ctx p.1 else 0) + governedUnits ctx ps r := by
  unfold governedUnits
  by_cases h : p.2 = r <;> simp [h]

/-- A rule governs no more units than the one rule it is related to. -/
theorem governedUnits_le {r r' : PolicyRule} (hr : ∀ g', Rel r g' → g' = r')
    {gov gov' : List PolicyRule} (h : List.Forall₂ Rel gov gov') : ∀ (actions : List DecodedAction),
      governedUnits ctx (actions.zip gov) r ≤ governedUnits ctx (actions.zip gov') r' := by
  induction h with
  | nil => intro actions; simp [governedUnits]
  | cons hg _ ih =>
    rename_i g g' gov gov' _
    intro actions
    cases actions with
    | nil => simp [governedUnits]
    | cons a actions =>
      simp only [List.zip_cons_cons, governedUnits_cons]
      have hle := ih actions
      by_cases hgr : g = r
      · subst hgr
        rw [if_pos rfl, if_pos (hr g' hg)]
        omega
      · rw [if_neg hgr]
        omega

/-- The governing rules of the other policy, action by action. -/
theorem exists_governing {actions : List DecodedAction} {gov' : List PolicyRule}
    (hgov : List.Forall₂ (Governs ctx policy') actions gov')
    (hfit : List.Forall₂ (Limitable ctx) actions gov')
    (h : ∀ a ∈ actions, ∀ g', Governs ctx policy' a g' → Limitable ctx a g' →
      ∃ g, Governs ctx policy a g ∧ Limitable ctx a g ∧ Rel g g') :
    ∃ gov, List.Forall₂ (Governs ctx policy) actions gov ∧
      List.Forall₂ (Limitable ctx) actions gov ∧ List.Forall₂ Rel gov gov' := by
  induction hgov with
  | nil => exact ⟨[], .nil, .nil, .nil⟩
  | cons hg _ ih =>
    cases hfit with
    | cons hf hfs =>
      obtain ⟨g, hgg, hfg, hrel⟩ := h _ (by simp) _ hg hf
      obtain ⟨gov, hgovs, hfits, hrels⟩ := ih hfs fun a ha => h a (by simp [ha])
      exact ⟨g :: gov, .cons hgg hgovs, .cons hfg hfits, .cons hrel hrels⟩

/-- **What one policy allows, a related one allows.** The conditions are those under which each
clause carries over: the chain, the count of actions, the deny rules, and a governing rule that is
at least as generous. The laws about edits of a policy are proved through it. -/
theorem Allowed.transfer {gov' : List PolicyRule} (h : Allowed ctx policy' tx gov')
    (hchain : policy.chain.chainId = policy'.chain.chainId)
    (hmax : policy'.maxActionsPerTransaction.getD 1 ≤ policy.maxActionsPerTransaction.getD 1)
    (hdeny : ∀ a ∈ tx.actions, ∀ r ∈ policy.rules, r.effect = .deny → NoMatch ctx a r)
    (hgov : ∀ a ∈ tx.actions, ∀ g', Governs ctx policy' a g' → Limitable ctx a g' →
      ∃ g, Governs ctx policy a g ∧ Limitable ctx a g ∧ Rel g g')
    (hcap : ∀ r ∈ policy.rules, ∀ cap, capOf ctx r = some cap → ∃ r' ∈ policy'.rules,
      (∃ cap', capOf ctx r' = some cap' ∧ cap'.units ≤ cap.units) ∧ ∀ g', Rel r g' → g' = r') :
    ∃ gov, Allowed ctx policy tx gov ∧ List.Forall₂ Rel gov gov' := by
  obtain ⟨gov, hgovs, hfits, hrels⟩ := exists_governing h.governed h.limitable hgov
  refine ⟨gov, ⟨?_, h.nonempty, h.singleAuth, hdeny, ?_, hgovs, hfits, ?_⟩, hrels⟩
  · rw [hchain]
    exact h.chain
  · exact le_trans h.bounded hmax
  · intro r hr cap hc
    obtain ⟨r', hr', ⟨cap', hc', hle⟩, hone⟩ := hcap r hr cap hc
    calc governedUnits ctx (tx.actions.zip gov) r
        ≤ governedUnits ctx (tx.actions.zip gov') r' := governedUnits_le hone hrels tx.actions
      _ ≤ cap'.units := h.capped r' hr' cap' hc'
      _ ≤ cap.units := hle

theorem exists_mem_governing {actions : List DecodedAction} {gov : List PolicyRule}
    (hgov : List.Forall₂ (Governs ctx policy) actions gov)
    (hfit : List.Forall₂ (Limitable ctx) actions gov) :
    ∀ a ∈ actions, ∃ g ∈ gov, Governs ctx policy a g ∧ Limitable ctx a g := by
  induction hgov with
  | nil => simp
  | cons hg _ ih =>
    cases hfit with
    | cons hf hfs =>
      intro a ha
      rcases List.mem_cons.1 ha with rfl | ha
      · exact ⟨_, by simp, hg, hf⟩
      · obtain ⟨g, hmem, hgg⟩ := ih hfs a ha
        exact ⟨g, by simp [hmem], hgg⟩

/-- An action of an allowed transaction has a governing rule it is fit for. -/
theorem Allowed.governing {gov : List PolicyRule} (h : Allowed ctx policy tx gov)
    {a : DecodedAction} (ha : a ∈ tx.actions) :
    ∃ g ∈ gov, Governs ctx policy a g ∧ Limitable ctx a g :=
  exists_mem_governing h.governed h.limitable a ha

theorem demandOf_ruleId {a : DecodedAction} {g : PolicyRule} {d : QuotaDemand}
    (h : demandOf ctx a g = some d) : d.ruleId = g.id := by
  unfold demandOf at h
  obtain ⟨l, -, h⟩ := Option.bind_eq_some_iff.1 h
  split at h
  · obtain ⟨asset, -, rfl⟩ := Option.map_eq_some_iff.1 h
    rfl
  · simp at h

end Signbox
