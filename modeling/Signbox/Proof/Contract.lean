import Signbox.Spec.Contract

/-!
# The rows of the contract

What a history of actions does to the row of one agent. The row never disappears, its version
never falls, and its policy text and hash change only when the version rises.

* `mutate_ok`: what a mutation that was not aborted has checked, and what it leaves.
* `Mutates`: the five mutations of a row, with what each has checked; `apply_row`: an action
  leaves the row of an agent as it was, or mutates it under the signature of its authority.
* `Newer`: the order of the states of a row, by what the policy is.
* `rowAt_newer`: later states of a row are newer; `setpolicy_version`: a published policy
  makes every earlier state older.
-/

namespace Signbox

open Guard

/-! ## The table -/

namespace PolicyTable

variable {policies : PolicyTable} {row : PolicyRow} {agent : Name}

theorem row?_agent (h : policies.row? agent = some row) : row.agent = agent := by
  simpa using List.find?_some h

theorem row?_store : (policies.store row).row? agent =
    (policies.row? agent).or (if row.agent = agent then some row else none) := by
  by_cases h : row.agent = agent <;> simp [row?, store, List.find?_append, h]

theorem row?_update : (policies.update row).row? agent =
    if row.agent = agent then (policies.row? agent).map fun _ => row else policies.row? agent := by
  unfold row? update
  induction policies with
  | nil => simp
  | cons old policies ih =>
    rw [List.map_cons, List.find?_cons, ih, List.find?_cons]
    by_cases ha : row.agent = agent
    · subst ha
      by_cases hold : old.agent = row.agent <;> simp [hold]
    · by_cases hold : old.agent = row.agent
      · simp [hold, ha]
      · by_cases hold' : old.agent = agent
        · subst hold'
          simp [Ne.symm ha, ha]
        · simp [hold, hold', ha]

end PolicyTable

namespace SignboxContract

variable {sha256 : List UInt8 → List UInt8} {ctx : ActionContext} {policies policies' : PolicyTable}
variable {agent : Name} {row row' row'' : PolicyRow}

theorem requireGet_ok : requireGet policies agent = .ok row ↔ policies.row? agent = some row := by
  unfold requireGet
  cases policies.row? agent <;> simp

theorem requireAuth_ok {u : Unit} : requireAuth ctx agent = .ok u ↔ agent ∈ ctx.signers := by
  simp [requireAuth]

theorem check_ok {c : Prop} [Decidable c] {message : String} {u : Unit} :
    check c message = .ok u ↔ c := by
  simp [check]

/-- **A mutation.** The row was there, its authority signed, the checks passed, and the row is
what the mutation sets, with the time of the block. -/
theorem mutate_ok {checks : PolicyRow → Except ContractError Unit} {set : PolicyRow → PolicyRow} :
    mutate ctx policies agent checks set = .ok policies' ↔
      ∃ row, policies.row? agent = some row ∧ row.authority ∈ ctx.signers ∧ checks row = .ok () ∧
        policies' = policies.update { set row with updatedat := ctx.currentTimeMs } := by
  unfold mutate
  simp only [bind_ok, requireGet_ok, requireAuth_ok, pure_eq, Except.ok.injEq]
  constructor
  · rintro ⟨row, hrow, ⟨⟩, hauth, ⟨⟩, hchecks, rfl⟩
    exact ⟨row, hrow, hauth, hchecks, rfl⟩
  · rintro ⟨row, hrow, hauth, hchecks, rfl⟩
    exact ⟨row, hrow, (), hauth, (), hchecks, rfl⟩

/-! ## What an action does to a row -/

/-- The stored text is not empty, and the stored hash is its digest. The contract checks it
whenever a policy is stored. -/
structure Integrity (sha256 : List UInt8 → List UInt8) (policyjson : JsString)
    (policyhash : List UInt8) : Prop where
  nonempty : policyjson ≠ []
  hash : sha256 (utf8 policyjson) = policyhash

theorem integrity_of_assert {policyjson : JsString} {policyhash : List UInt8} {u : Unit}
    (h : assertPolicyIntegrity sha256 policyjson policyhash = .ok u) :
    Integrity sha256 policyjson policyhash := by
  simp only [assertPolicyIntegrity, bind_ok, check_ok] at h
  obtain ⟨-, hpos, -, -, hhash⟩ := h
  exact ⟨List.ne_nil_of_length_pos hpos, hhash⟩

/-- The mutations of a row, before the time of the block is written into it. Each action changes
its own fields. -/
inductive Mutates (sha256 : List UInt8 → List UInt8) (ctx : ActionContext) (row : PolicyRow) :
    ContractAction → PolicyRow → Prop
  | setpolicy {version : UInt32} {policyhash : List UInt8} {policyjson : JsString}
      (hversion : row.version < version) (hintegrity : Integrity sha256 policyjson policyhash) :
      Mutates sha256 ctx row (.setpolicy row.agent version policyhash policyjson)
        { row with version, policyhash, policyjson }
  | disable : Mutates sha256 ctx row (.disable row.agent) { row with enabled := false }
  | enable : Mutates sha256 ctx row (.enable row.agent) { row with enabled := true }
  | setperm {agentperm : Name} :
      Mutates sha256 ctx row (.setperm row.agent agentperm) { row with agentperm }
  | setauthority {newauthority : Name} (hsigned : newauthority ∈ ctx.signers)
      (hne : newauthority ≠ row.authority) :
      Mutates sha256 ctx row (.setauthority row.agent newauthority)
        { row with authority := newauthority }

theorem Mutates.agent_eq (h : Mutates sha256 ctx row action row') : row'.agent = row.agent := by
  cases h <;> rfl

/-- A row after an action: as it was, or mutated under the signature of its authority. Nobody else
can change it. -/
inductive Becomes (sha256 : List UInt8 → List UInt8) (ctx : ActionContext)
    (action : ContractAction) (row : PolicyRow) : PolicyRow → Prop
  | same : Becomes sha256 ctx action row row
  | mutated {row' : PolicyRow} (hsigned : row.authority ∈ ctx.signers)
      (h : Mutates sha256 ctx row action row') :
      Becomes sha256 ctx action row { row' with updatedat := ctx.currentTimeMs }

/-- A mutation reaches the row of its target and no other. -/
theorem mutate_row {target : Name} {checks : PolicyRow → Except ContractError Unit}
    {set : PolicyRow → PolicyRow} (h : mutate ctx policies target checks set = .ok policies')
    (hset : ∀ row, row.agent = target → checks row = .ok () →
      Mutates sha256 ctx row action (set row))
    (hrow : policies.row? agent = some row) :
    ∃ row', policies'.row? agent = some row' ∧ Becomes sha256 ctx action row row' := by
  obtain ⟨old, hold, hauth, hchecks, rfl⟩ := mutate_ok.1 h
  have hmut := hset old (PolicyTable.row?_agent hold) hchecks
  rw [PolicyTable.row?_update]
  by_cases htarget : (set old).agent = agent
  · rw [if_pos htarget, hrow]
    have hsame : target = agent := by
      rw [← PolicyTable.row?_agent hold, ← hmut.agent_eq, htarget]
    rw [hsame, hrow] at hold
    cases hold
    exact ⟨_, rfl, .mutated hauth hmut⟩
  · rw [if_neg htarget]
    exact ⟨row, hrow, .same⟩

theorem mutate_none {target : Name} {checks : PolicyRow → Except ContractError Unit}
    {set : PolicyRow → PolicyRow} (h : mutate ctx policies target checks set = .ok policies')
    (hrow : policies.row? agent = none) :
    policies'.row? agent = none := by
  obtain ⟨old, hold, -, -, rfl⟩ := mutate_ok.1 h
  rw [PolicyTable.row?_update]
  by_cases htarget : (set old).agent = agent
  · rw [if_pos htarget, hrow]
    rfl
  · rw [if_neg htarget, hrow]

/-- What a creation that was not aborted has checked, and what it leaves. -/
theorem createpolicy_ok {target authority agentperm : Name} {version : UInt32}
    {policyhash : List UInt8} {policyjson : JsString}
    (h : createpolicy sha256 ctx policies target authority agentperm version policyhash policyjson =
      .ok policies') :
    authority ∈ ctx.signers ∧ target ∈ ctx.signers ∧ policies.row? target = none ∧ version = 1 ∧
      Integrity sha256 policyjson policyhash ∧
      policies' = policies.store ⟨target, authority, agentperm, version, policyhash, policyjson,
        true, ctx.currentTimeMs, ctx.currentTimeMs⟩ := by
  simp only [createpolicy, bind_ok, check_ok, requireAuth_ok, pure_eq, Except.ok.injEq] at h
  obtain ⟨-, -, -, hauthority, -, hagent, -, -, -, hnone, -, hversion, u, hintegrity, rfl⟩ := h
  exact ⟨hauthority, hagent, hnone, hversion, integrity_of_assert hintegrity, rfl⟩

/-- **The row of an agent stays, or is mutated.** No action removes a row, and an action on another
agent leaves it as it is. -/
theorem apply_row (h : apply sha256 ctx policies action = .ok policies')
    (hrow : policies.row? agent = some row) :
    ∃ row', policies'.row? agent = some row' ∧ Becomes sha256 ctx action row row' := by
  cases action with
  | createpolicy target authority agentperm version policyhash policyjson =>
    obtain ⟨-, -, -, -, -, rfl⟩ := createpolicy_ok h
    refine ⟨row, ?_, .same⟩
    rw [PolicyTable.row?_store, hrow, Option.some_or]
  | setpolicy target version policyhash policyjson =>
    refine mutate_row h (fun row hagent hchecks => ?_) hrow
    simp only [bind_ok, check_ok] at hchecks
    obtain ⟨-, hversion, hintegrity⟩ := hchecks
    rw [← hagent]
    exact .setpolicy hversion (integrity_of_assert hintegrity)
  | disable target => exact mutate_row h (fun row hagent _ => hagent ▸ .disable) hrow
  | enable target => exact mutate_row h (fun row hagent _ => hagent ▸ .enable) hrow
  | setperm target agentperm => exact mutate_row h (fun row hagent _ => hagent ▸ .setperm) hrow
  | setauthority target newauthority =>
    refine mutate_row h (fun row hagent hchecks => ?_) hrow
    simp only [bind_ok, check_ok, requireAuth_ok] at hchecks
    obtain ⟨-, hsigned, -, -, hne⟩ := hchecks
    rw [← hagent]
    exact .setauthority hsigned hne

/-! ## States of a row -/

/-- The policy of `row'` is the one of `row`, or was published later. The other fields may differ
in any way. -/
def Newer (row row' : PolicyRow) : Prop :=
  row.version < row'.version ∨ row'.version = row.version ∧ row'.policyjson = row.policyjson ∧
    row'.policyhash = row.policyhash

theorem Newer.refl (row : PolicyRow) : Newer row row := Or.inr ⟨rfl, rfl, rfl⟩

theorem Newer.trans (h : Newer row row') (h' : Newer row' row'') : Newer row row'' := by
  rcases h with h | ⟨hv, hj, hh⟩ <;> rcases h' with h' | ⟨hv', hj', hh'⟩
  · exact Or.inl (UInt32.lt_trans h h')
  · exact Or.inl (hv' ▸ h)
  · exact Or.inl (hv ▸ h')
  · exact Or.inr ⟨hv'.trans hv, hj'.trans hj, hh'.trans hh⟩

theorem Newer.version (h : Newer row row') : row.version ≤ row'.version := by
  rcases h with h | ⟨hv, -⟩
  · exact UInt32.le_of_lt h
  · rw [hv]
    exact UInt32.le_refl _

theorem Becomes.newer {action : ContractAction} (h : Becomes sha256 ctx action row row') :
    Newer row row' := by
  cases h with
  | same => exact Newer.refl row
  | mutated _ hmut =>
    cases hmut with
    | setpolicy hversion _ => exact Or.inl hversion
    | disable => exact Newer.refl row
    | enable => exact Newer.refl row
    | setperm => exact Newer.refl row
    | setauthority _ _ => exact Newer.refl row

/-- **No action makes a row older**: its version never falls, and under one version the policy
stays. -/
theorem apply_newer {action : ContractAction} (h : apply sha256 ctx policies action = .ok policies')
    (hrow : policies.row? agent = some row) :
    ∃ row', policies'.row? agent = some row' ∧ Newer row row' := by
  obtain ⟨row', hrow', hbecomes⟩ := apply_row h hrow
  exact ⟨row', hrow', hbecomes.newer⟩

theorem step_newer (action : ContractAction × ActionContext) (hrow : policies.row? agent = some row) :
    ∃ row', (step sha256 policies action).row? agent = some row' ∧ Newer row row' := by
  unfold step
  split
  case h_1 policies' h => exact apply_newer h hrow
  case h_2 => exact ⟨row, hrow, Newer.refl row⟩

/-- A published policy has a version above the one before. -/
theorem setpolicy_version {version : UInt32} {policyhash : List UInt8} {policyjson : JsString}
    (h : setpolicy sha256 ctx policies agent version policyhash policyjson = .ok policies') :
    ∃ row row', policies.row? agent = some row ∧ policies'.row? agent = some row' ∧
      row.version < row'.version := by
  obtain ⟨row, hrow, -, hchecks, rfl⟩ := mutate_ok.1 h
  simp only [bind_ok, check_ok] at hchecks
  obtain ⟨-, hversion, -⟩ := hchecks
  refine ⟨row, { row with
      version := version
      policyhash := policyhash
      policyjson := policyjson
      updatedat := ctx.currentTimeMs }, hrow, ?_, hversion⟩
  rw [PolicyTable.row?_update, if_pos (PolicyTable.row?_agent hrow), hrow]
  rfl

/-! ## Histories -/

variable {actions : List (ContractAction × ActionContext)} {i j : ℕ}

/-- The row of an agent after the first `n` actions. -/
def rowAt (sha256 : List UInt8 → List UInt8) (actions : List (ContractAction × ActionContext))
    (agent : Name) (n : ℕ) : Option PolicyRow := (tableAfter sha256 (actions.take n)).row? agent

/-- The action at `k` is a `setpolicy` for the agent, and was not aborted. So it is in the history
of the row. -/
def PublishedAt (sha256 : List UInt8 → List UInt8) (actions : List (ContractAction × ActionContext))
    (agent : Name) (k : ℕ) : Prop :=
  ∃ version policyhash policyjson ctx policies',
    actions[k]? = some (.setpolicy agent version policyhash policyjson, ctx) ∧
    setpolicy sha256 ctx (tableAfter sha256 (actions.take k)) agent version policyhash policyjson =
      .ok policies'

theorem tableAfter_take {k : ℕ} {action : ContractAction × ActionContext}
    (hk : actions[k]? = some action) : tableAfter sha256 (actions.take (k + 1)) =
      step sha256 (tableAfter sha256 (actions.take k)) action := by
  unfold tableAfter
  rw [List.take_add_one, hk, Option.toList_some, List.foldl_append]
  rfl

/-- **Later states of a row are newer.** Along a history, by induction on the actions in
between. -/
theorem rowAt_newer (hij : i ≤ j) (hrow : rowAt sha256 actions agent i = some row) :
    ∃ row', rowAt sha256 actions agent j = some row' ∧ Newer row row' := by
  induction j, hij using Nat.le_induction with
  | base => exact ⟨row, hrow, Newer.refl row⟩
  | succ j hij ih =>
    obtain ⟨row', hrow', hnewer⟩ := ih
    cases hk : actions[j]? with
    | none =>
      refine ⟨row', ?_, hnewer⟩
      have hlen := List.getElem?_eq_none_iff.1 hk
      rw [rowAt, List.take_of_length_le hlen] at hrow'
      rw [rowAt, List.take_of_length_le (hlen.trans (Nat.le_succ j)), hrow']
    | some action =>
      obtain ⟨row'', hrow'', hnewer'⟩ := step_newer action hrow'
      refine ⟨row'', ?_, hnewer.trans hnewer'⟩
      rw [rowAt, tableAfter_take hk, hrow'']

/-- After a published policy the row has a version above every state before. -/
theorem version_lt_of_published {k : ℕ} (hi : rowAt sha256 actions agent i = some row)
    (hj : rowAt sha256 actions agent j = some row') (hik : i ≤ k) (hkj : k < j)
    (hk : PublishedAt sha256 actions agent k) : row.version < row'.version := by
  obtain ⟨version, policyhash, policyjson, ctx, policies', haction, hset⟩ := hk
  obtain ⟨old, new, hold, hnew, hlt⟩ := setpolicy_version hset
  have hafter : rowAt sha256 actions agent (k + 1) = some new := by
    rw [rowAt, tableAfter_take haction, step]
    simp only [apply, hset]
    exact hnew
  obtain ⟨row₁, hrow₁, hnewer₁⟩ := rowAt_newer hik hi
  obtain ⟨row₂, hrow₂, hnewer₂⟩ := rowAt_newer (show k + 1 ≤ j from hkj) hafter
  rw [rowAt, hold] at hrow₁
  cases hrow₁
  rw [hj] at hrow₂
  cases hrow₂
  exact UInt32.lt_of_le_of_lt hnewer₁.version (UInt32.lt_of_lt_of_le hlt hnewer₂.version)

end SignboxContract

end Signbox
