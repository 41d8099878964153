import Signbox.Proof.Contract

/-!
# The policy contract as a state machine

What holds in every table a history of actions can leave, and what one more action can do to
one row, whatever its arguments and signers are.

* `apply_none`: a row that was not there was created by `createpolicy`.
* `TableSound`, `tableAfter_sound`: the invariant of all tables.
* `RowChange`, `RowCreated`: which action may change which field, and who has signed.
* `contract_safety`: these for all histories.
-/

namespace Signbox

open Guard

namespace SignboxContract

variable {sha256 : List UInt8 → List UInt8} {ctx : ActionContext} {policies policies' : PolicyTable}
variable {agent : Name} {row row' : PolicyRow} {action : ContractAction}

/-! ## Creation -/

/-- A new row: both parties have signed, and the version is the first. -/
structure RowCreated (sha256 : List UInt8 → List UInt8) (action : ContractAction × ActionContext)
    (row : PolicyRow) : Prop where
  created : ∃ agentperm version policyhash policyjson, action.1 =
    .createpolicy row.agent row.authority agentperm version policyhash policyjson
  agentSigned : row.agent ∈ action.2.signers
  authoritySigned : row.authority ∈ action.2.signers
  version : row.version = 1
  integrity : Integrity sha256 row.policyjson row.policyhash

/-- **A row that was not there was created by `createpolicy`**, for that agent, under the
signatures of both parties. -/
theorem apply_none (h : apply sha256 ctx policies action = .ok policies')
    (hrow : policies.row? agent = none) (hrow' : policies'.row? agent = some row') :
    RowCreated sha256 (action, ctx) row' := by
  cases action with
  | createpolicy target authority agentperm version policyhash policyjson =>
    obtain ⟨hauthority, hagent, -, hversion, hintegrity, rfl⟩ := createpolicy_ok h
    rw [PolicyTable.row?_store, hrow, Option.none_or, Option.ite_none_right_eq_some,
      Option.some.injEq] at hrow'
    obtain ⟨-, rfl⟩ := hrow'
    exact ⟨⟨agentperm, version, policyhash, policyjson, rfl⟩, hagent, hauthority, hversion,
      hintegrity⟩
  | setpolicy target version policyhash policyjson =>
    rw [mutate_none h hrow] at hrow'
    simp at hrow'
  | disable target =>
    rw [mutate_none h hrow] at hrow'
    simp at hrow'
  | enable target =>
    rw [mutate_none h hrow] at hrow'
    simp at hrow'
  | setperm target agentperm =>
    rw [mutate_none h hrow] at hrow'
    simp at hrow'
  | setauthority target newauthority =>
    rw [mutate_none h hrow] at hrow'
    simp at hrow'

/-! ## The invariant of the table -/

structure RowSound (sha256 : List UInt8 → List UInt8) (row : PolicyRow) : Prop where
  integrity : Integrity sha256 row.policyjson row.policyhash
  version : 1 ≤ row.version

/-- Every row is found under its agent, and is sound. So no agent has two different rows. -/
structure TableSound (sha256 : List UInt8 → List UInt8) (policies : PolicyTable) : Prop where
  keyed : ∀ row ∈ policies, policies.row? row.agent = some row
  rows : ∀ row ∈ policies, RowSound sha256 row

theorem mem_of_row? (h : policies.row? agent = some row) : row ∈ policies := List.mem_of_find?_eq_some h

theorem Becomes.sound (h : Becomes sha256 ctx action row row') (hrow : RowSound sha256 row) :
    RowSound sha256 row' := by
  cases h with
  | same => exact hrow
  | mutated _ hmut =>
    cases hmut with
    | setpolicy hversion hintegrity =>
      exact ⟨hintegrity, UInt32.le_of_lt (UInt32.lt_of_le_of_lt hrow.version hversion)⟩
    | disable => exact ⟨hrow.integrity, hrow.version⟩
    | enable => exact ⟨hrow.integrity, hrow.version⟩
    | setperm => exact ⟨hrow.integrity, hrow.version⟩
    | setauthority _ _ => exact ⟨hrow.integrity, hrow.version⟩

/-- An action touches one row of a keyed table, or adds one. -/
theorem keyed_store (h : ∀ row ∈ policies, policies.row? row.agent = some row)
    (hnone : policies.row? row.agent = none) :
    ∀ r ∈ policies.store row, (policies.store row).row? r.agent = some r := by
  intro r hr
  rw [PolicyTable.row?_store]
  rcases List.mem_append.1 hr with hr | hr
  · rw [h r hr, Option.some_or]
  · rw [List.mem_singleton.1 hr, hnone, Option.none_or, if_pos rfl]

theorem keyed_update (h : ∀ row ∈ policies, policies.row? row.agent = some row) :
    ∀ r ∈ policies.update row, (policies.update row).row? r.agent = some r := by
  intro r hr
  obtain ⟨old, hold, hr⟩ := List.mem_map.1 hr
  rw [PolicyTable.row?_update]
  by_cases heq : old.agent = row.agent
  · rw [if_pos heq] at hr
    subst hr
    rw [if_pos rfl, ← heq, h old hold]
    rfl
  · rw [if_neg heq] at hr
    subst hr
    rw [if_neg (fun hne => heq hne.symm), h old hold]

theorem apply_keyed (h : apply sha256 ctx policies action = .ok policies')
    (hkeyed : ∀ row ∈ policies, policies.row? row.agent = some row) :
    ∀ row ∈ policies', policies'.row? row.agent = some row := by
  have hmutate : ∀ {target checks set}, mutate ctx policies target checks set = .ok policies' →
      ∀ row ∈ policies', policies'.row? row.agent = some row := by
    intro target checks set hm
    obtain ⟨old, -, -, -, rfl⟩ := mutate_ok.1 hm
    exact keyed_update hkeyed
  cases action with
  | createpolicy target authority agentperm version policyhash policyjson =>
    obtain ⟨-, -, hnone, -, -, rfl⟩ := createpolicy_ok h
    exact keyed_store hkeyed hnone
  | setpolicy target version policyhash policyjson => exact hmutate h
  | disable target => exact hmutate h
  | enable target => exact hmutate h
  | setperm target agentperm => exact hmutate h
  | setauthority target newauthority => exact hmutate h

/-- **One action keeps the table sound**: one row for each agent, every hash that of its policy,
every version positive. -/
theorem TableSound.apply (hsound : TableSound sha256 policies)
    (h : SignboxContract.apply sha256 ctx policies action = .ok policies') :
    TableSound sha256 policies' := by
  have hkeyed := apply_keyed h hsound.keyed
  refine ⟨hkeyed, fun row' hrow' => ?_⟩
  have hfound := hkeyed row' hrow'
  cases hbefore : policies.row? row'.agent with
  | none =>
    have hcreated := apply_none h hbefore hfound
    exact ⟨hcreated.integrity, by rw [hcreated.version]; exact UInt32.le_refl _⟩
  | some row =>
    obtain ⟨row'', hrow'', hbecomes⟩ := apply_row h hbefore
    rw [hfound] at hrow''
    cases hrow''
    exact hbecomes.sound (hsound.rows row (mem_of_row? hbefore))

theorem step_snoc (actions : List (ContractAction × ActionContext))
    (action : ContractAction × ActionContext) :
    tableAfter sha256 (actions ++ [action]) = step sha256 (tableAfter sha256 actions) action := by
  unfold tableAfter
  rw [List.foldl_append]
  rfl

/-- **Every table a history leaves is sound**, since refused actions leave the table as it was. -/
theorem tableAfter_sound (actions : List (ContractAction × ActionContext)) :
    TableSound sha256 (tableAfter sha256 actions) := by
  induction actions using List.reverseRecOn with
  | nil => exact ⟨by simp [tableAfter], by simp [tableAfter]⟩
  | append_singleton actions action ih =>
    rw [step_snoc, step]
    split
    case h_1 policies' h => exact ih.apply h
    case h_2 => exact ih

/-! ## Changes of a row -/

/-- What one action may do to a row that is there: one clause for each field, with the action that
can change it. -/
structure RowChange (action : ContractAction × ActionContext) (row row' : PolicyRow) : Prop where
  agent : row'.agent = row.agent
  createdat : row'.createdat = row.createdat
  signed : row' ≠ row → row.authority ∈ action.2.signers
  version : row'.version ≠ row.version → row.version < row'.version ∧
    ∃ policyhash policyjson, action.1 = .setpolicy row.agent row'.version policyhash policyjson
  policyjson : row'.policyjson ≠ row.policyjson → ∃ version policyhash,
    action.1 = .setpolicy row.agent version policyhash row'.policyjson
  policyhash : row'.policyhash ≠ row.policyhash → ∃ version policyjson,
    action.1 = .setpolicy row.agent version row'.policyhash policyjson
  enabled : row'.enabled ≠ row.enabled →
    action.1 = .enable row.agent ∨ action.1 = .disable row.agent
  agentperm : row'.agentperm ≠ row.agentperm → action.1 = .setperm row.agent row'.agentperm
  authority : row'.authority ≠ row.authority →
    action.1 = .setauthority row.agent row'.authority ∧ row'.authority ∈ action.2.signers

theorem RowChange.refl (action : ContractAction × ActionContext) (row : PolicyRow) :
    RowChange action row row := by
  constructor <;> simp

theorem Becomes.change (h : Becomes sha256 ctx action row row') :
    RowChange (action, ctx) row row' := by
  cases h with
  | same => exact RowChange.refl _ _
  | mutated hsigned hmut =>
    cases hmut with
    | setpolicy hversion hintegrity => constructor <;> simp [hsigned, hversion]
    | disable => constructor <;> simp [hsigned]
    | enable => constructor <;> simp [hsigned]
    | setperm => constructor <;> simp [hsigned]
    | setauthority hnew hne => constructor <;> simp [hsigned, hnew]

/-- One more action leaves the row of an agent, or changes it as it may. -/
theorem step_change (action : ContractAction × ActionContext) (hrow : policies.row? agent = some row) :
    ∃ row', (step sha256 policies action).row? agent = some row' ∧ RowChange action row row' := by
  unfold step
  split
  case h_1 policies' h =>
    obtain ⟨row', hrow', hbecomes⟩ := apply_row h hrow
    exact ⟨row', hrow', hbecomes.change⟩
  case h_2 => exact ⟨row, hrow, RowChange.refl _ _⟩

theorem step_created (action : ContractAction × ActionContext) (hrow : policies.row? agent = none)
    (hrow' : (step sha256 policies action).row? agent = some row') :
    RowCreated sha256 action row' := by
  unfold step at hrow'
  split at hrow'
  case h_1 policies' h => exact apply_none h hrow hrow'
  case h_2 =>
    rw [hrow] at hrow'
    simp at hrow'

/-- **The policy contract.** After every history of actions the table is sound. One more action,
with any arguments and signers, keeps the row of every agent and changes it only as it may, or
creates it under the signatures of both parties. A published policy has a version above the
one before, and along a history the row of an agent stays and its version never falls. -/
theorem contract_safety (sha256 : List UInt8 → List UInt8) :
    (∀ actions, TableSound sha256 (tableAfter sha256 actions)) ∧
    (∀ actions action agent row, (tableAfter sha256 actions).row? agent = some row →
      ∃ row', (tableAfter sha256 (actions ++ [action])).row? agent = some row' ∧
        RowChange action row row') ∧
    (∀ actions action agent row', (tableAfter sha256 actions).row? agent = none →
      (tableAfter sha256 (actions ++ [action])).row? agent = some row' →
      RowCreated sha256 action row') ∧
    (∀ actions ctx agent version policyhash policyjson policies',
      setpolicy sha256 ctx (tableAfter sha256 actions) agent version policyhash policyjson =
        .ok policies' →
      ∃ row row', (tableAfter sha256 actions).row? agent = some row ∧
        policies'.row? agent = some row' ∧ row.version < row'.version) ∧
    (∀ actions agent row i j, i ≤ j → rowAt sha256 actions agent i = some row →
      ∃ row', rowAt sha256 actions agent j = some row' ∧ row.version ≤ row'.version) := by
  refine ⟨tableAfter_sound, ?_, ?_, ?_, ?_⟩
  · intro actions action agent row hrow
    rw [step_snoc]
    exact step_change action hrow
  · intro actions action agent row' hrow hrow'
    rw [step_snoc] at hrow'
    exact step_created action hrow hrow'
  · intro actions ctx agent version policyhash policyjson policies' h
    exact setpolicy_version h
  · intro actions agent row i j hij hrow
    obtain ⟨row', hrow', hnewer⟩ := rowAt_newer hij hrow
    exact ⟨row', hrow', hnewer.version⟩

/-! An agent is onboarded, its authority publishes a policy, and hands over. -/

namespace Handover

/-- The bytes stand for their digest. -/
def digest : List UInt8 → List UInt8 := id

def signedBy (signers : List Name) : ActionContext := ⟨signers, fun _ => true, 1000⟩

def created : ContractAction × ActionContext :=
  (.createpolicy (js "bot") (js "boss") (js "agent") 1 (digest (utf8 (js "[]"))) (js "[]"),
    signedBy [js "bot", js "boss"])

def published : ContractAction × ActionContext :=
  (.setpolicy (js "bot") 2 (digest (utf8 (js "[1]"))) (js "[1]"), signedBy [js "boss"])

def handed : ContractAction × ActionContext :=
  (.setauthority (js "bot") (js "owner"), signedBy [js "boss", js "owner"])

def createdRow : PolicyRow :=
  ⟨js "bot", js "boss", js "agent", 1, digest (utf8 (js "[]")), js "[]", true, 1000, 1000⟩

def publishedRow : PolicyRow :=
  { createdRow with version := 2, policyhash := digest (utf8 (js "[1]")), policyjson := js "[1]" }

theorem row_created : (tableAfter digest [created]).row? (js "bot") = some createdRow := by decide

theorem row_published :
    (tableAfter digest [created, published]).row? (js "bot") = some publishedRow := by decide

/-- A policy is created, a second version is published, and the authority is handed over: the table
is sound after each of the three actions, and the version does not fall. -/
theorem contract_safety_handover :
    TableSound digest (tableAfter digest [created, published, handed]) ∧
    (∃ row', (tableAfter digest ([created, published] ++ [handed])).row? (js "bot") = some row' ∧
      RowChange handed publishedRow row') ∧
    RowCreated digest created createdRow ∧
    (∃ row row', (tableAfter digest [created]).row? (js "bot") = some row ∧
      (tableAfter digest [created, published]).row? (js "bot") = some row' ∧
      row.version < row'.version) ∧
    (∃ row', rowAt digest [created, published, handed] (js "bot") 3 = some row' ∧
      createdRow.version ≤ row'.version) := by
  obtain ⟨hsound, hchange, hcreated, hpublished, hrun⟩ := contract_safety digest
  have hset : setpolicy digest (signedBy [js "boss"]) (tableAfter digest [created]) (js "bot") 2
      (digest (utf8 (js "[1]"))) (js "[1]") = .ok (tableAfter digest [created, published]) := rfl
  exact ⟨hsound _, hchange _ _ _ _ row_published, hcreated [] _ _ _ rfl row_created,
    hpublished [created] _ _ _ _ _ _ hset, hrun _ _ _ 1 3 (by decide) row_created⟩

end Handover

end SignboxContract

end Signbox
