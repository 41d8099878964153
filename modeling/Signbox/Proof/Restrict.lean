import Signbox.Proof.Compare
import Signbox.Proof.Journal

/-!
# Restrictive edits

A policy is edited restrictively when deny rules are inserted, limits are added to allow
rules or tightened, and the number of actions is lowered. `restrict_only_restricts`: what
the edited policy allows, the policy allowed already, with the same governing rules, and a
journal that accepts the demands of the edited policy accepts those of the policy.
-/

namespace Signbox

open Guard

variable {ctx : EvaluationContext} {policy policy' : Policy} {tx : DecodedTransaction}
  {action : DecodedAction} {rule : PolicyRule}

/-! ## Edits -/

/-- An optional limit that is added, or changed along `R`. A limit that is there may not be
removed. -/
def Edited {α : Type} (R : α → α → Prop) : Option α → Option α → Prop
  | none, _ => True
  | some a, some b => R a b
  | some _, none => False

/-- A number that is added, or lowered. -/
abbrev Lowered : Option ℕ → Option ℕ → Prop := Edited fun n n' => n' ≤ n

/-- A number that is added, or raised. -/
abbrev Raised : Option ℕ → Option ℕ → Prop := Edited fun n n' => n ≤ n'

/-- A bound that is added, kept, or lowered in its symbol and precision. -/
abbrev BoundLowered (dialect : PolicyDialect) : Option JsString → Option JsString → Prop :=
  Edited fun s s' => s' = s ∨ ∃ a a', dialect.parseAssetLimit s = .ok a ∧
    dialect.parseAssetLimit s' = .ok a' ∧ (a'.symbol = a.symbol ∧ a'.precision = a.precision) ∧
      a'.units ≤ a.units

/-- A parsed bound that is added, or lowered in its symbol and precision. -/
abbrev CapLowered : Option AssetAmount → Option AssetAmount → Prop :=
  Edited fun c c' => (c'.symbol = c.symbol ∧ c'.precision = c.precision) ∧ c'.units ≤ c.units

namespace Edited

variable {α : Type} {R : α → α → Prop} {o o' : Option α}

theorem refl (hR : ∀ a, R a a) (o : Option α) : Edited R o o := by
  cases o with
  | none => trivial
  | some a => exact hR a

/-- A limit that is there is there after the edit. -/
theorem exists_some {a : α} (h : Edited R (some a) o') : ∃ b, o' = some b ∧ R a b := by
  cases o' with
  | none => exact absurd h id
  | some b => exact ⟨b, rfl, h⟩

theorem isSome (h : Edited R o o') (hs : o.isSome) : o'.isSome := by
  obtain ⟨a, rfl⟩ := Option.isSome_iff_exists.1 hs
  obtain ⟨b, rfl, -⟩ := h.exists_some
  rfl

end Edited

/-- Limits that are no looser, one by one: sums and counts may fall, and a cooldown may rise. -/
structure RuleLimits.Tightened (dialect : PolicyDialect) (l l' : RuleLimits) : Prop where
  maxPerTransaction : BoundLowered dialect l.maxPerTransaction l'.maxPerTransaction
  maxPerHour : BoundLowered dialect l.maxPerHour l'.maxPerHour
  maxPerDay : BoundLowered dialect l.maxPerDay l'.maxPerDay
  cooldown : Raised l.cooldownPerRecipientMs l'.cooldownPerRecipientMs
  maxCountPerHour : Lowered l.maxCountPerHour l'.maxCountPerHour
  maxCountPerDay : Lowered l.maxCountPerDay l'.maxCountPerDay
  maxCountPerRecipientPerHour :
    Lowered l.maxCountPerRecipientPerHour l'.maxCountPerRecipientPerHour

def noLimits : RuleLimits := ⟨none, none, none, none, none, none, none⟩

/-- A rule after the edit: the same rule, or an allow rule with tighter limits. What it matches is
not changed. -/
def PolicyRule.Tightened (dialect : PolicyDialect) (r r' : PolicyRule) : Prop :=
  r' = r ∨ (r.effect = .allow ∧ ∃ l', r' = { r with limits := some l' } ∧
    (r.limits.getD noLimits).Tightened dialect l')

/-- A rule list after the edit: deny rules inserted anywhere, the others in place, so the first
match stays the first. -/
inductive RulesRestricted (dialect : PolicyDialect) : List PolicyRule → List PolicyRule → Prop
  | nil : RulesRestricted dialect [] []
  | insert {d : PolicyRule} {rules rules' : List PolicyRule} (hd : d.effect = .deny)
      (h : RulesRestricted dialect rules rules') : RulesRestricted dialect rules (d :: rules')
  | keep {r r' : PolicyRule} {rules rules' : List PolicyRule} (hr : r.Tightened dialect r')
      (h : RulesRestricted dialect rules rules') :
      RulesRestricted dialect (r :: rules) (r' :: rules')

/-- A policy after a restrictive edit: the same chain, restricted rules, and no more actions than
before. -/
structure Policy.Restricted (dialect : PolicyDialect) (p p' : Policy) : Prop where
  chain : p'.chain = p.chain
  rules : RulesRestricted dialect p.rules p'.rules
  maxActions : p'.maxActionsPerTransaction.getD 1 ≤ p.maxActionsPerTransaction.getD 1

/-! ## Rules -/

namespace PolicyRule.Tightened

variable {dialect : PolicyDialect} {r r' : PolicyRule}

theorem same (h : r.Tightened dialect r') : r'.id = r.id ∧ r'.effect = r.effect := by
  rcases h with rfl | ⟨-, l', rfl, -⟩ <;> exact ⟨rfl, rfl⟩

/-- An edit does not touch what a rule matches. -/
theorem matches_iff (h : r.Tightened dialect r') : Matches ctx action r' ↔ Matches ctx action r := by
  rcases h with rfl | ⟨-, l', rfl, -⟩ <;> exact Iff.rfl

theorem noMatch_iff (h : r.Tightened dialect r') : NoMatch ctx action r' ↔ NoMatch ctx action r := by
  rcases h with rfl | ⟨-, l', rfl, -⟩ <;> exact Iff.rfl

end PolicyRule.Tightened

theorem RulesRestricted.deny_mem {dialect : PolicyDialect} {rules rules' : List PolicyRule}
    (h : RulesRestricted dialect rules rules') : ∀ r ∈ rules, r.effect = .deny → r ∈ rules' := by
  induction h with
  | nil => simp
  | insert _ _ ih => exact fun r hr hd => List.mem_cons_of_mem _ (ih r hr hd)
  | keep ht _ ih =>
    intro r hr hd
    rcases List.mem_cons.1 hr with rfl | hr
    · rcases ht with rfl | ⟨ha, -⟩
      · exact List.mem_cons_self
      · rw [ha] at hd
        cases hd
    · exact List.mem_cons_of_mem _ (ih r hr hd)

/-- A rule of the policy has its counterpart after the edit. -/
theorem RulesRestricted.exists_mem {dialect : PolicyDialect} {rules rules' : List PolicyRule}
    (h : RulesRestricted dialect rules rules') :
    ∀ r ∈ rules, ∃ r' ∈ rules', r.Tightened dialect r' := by
  induction h with
  | nil => simp
  | insert _ _ ih =>
    intro r hr
    obtain ⟨r', hr', ht⟩ := ih r hr
    exact ⟨r', List.mem_cons_of_mem _ hr', ht⟩
  | keep ht _ ih =>
    intro r hr
    rcases List.mem_cons.1 hr with rfl | hr
    · exact ⟨_, List.mem_cons_self, ht⟩
    · obtain ⟨r', hr', ht'⟩ := ih r hr
      exact ⟨r', List.mem_cons_of_mem _ hr', ht'⟩

/-- The ids of the allow rules. -/
def allowIds (rules : List PolicyRule) : List JsString :=
  (rules.filter fun r => r.effect = .allow).map PolicyRule.id

theorem RulesRestricted.allowIds_eq {dialect : PolicyDialect} {rules rules' : List PolicyRule}
    (h : RulesRestricted dialect rules rules') : allowIds rules' = allowIds rules := by
  unfold allowIds
  induction h with
  | nil => rfl
  | insert hd _ ih => simpa [hd] using ih
  | keep ht _ ih =>
    rename_i r r' _ _ _
    obtain ⟨hid, heff⟩ := ht.same
    by_cases ha : r.effect = .allow
    · have ha' : r'.effect = .allow := heff.trans ha
      simp [ha, ha', ih, hid]
    · have ha' : r'.effect ≠ .allow := by rwa [heff]
      simp [ha, ha', ih]

theorem allowIds_of_nodup (h : (allowIds policy.rules).Nodup) : policy.AllowIds := by
  intro r hr r' hr' ha ha' hid
  exact List.inj_on_of_nodup_map h (List.mem_filter.2 ⟨hr, decide_eq_true ha⟩)
    (List.mem_filter.2 ⟨hr', decide_eq_true ha'⟩) hid

/-- The rule that governs after the edit is the counterpart of the one that governed. -/
theorem RulesRestricted.governs {dialect : PolicyDialect} {rules rules' : List PolicyRule}
    (h : RulesRestricted dialect rules rules') {g' : PolicyRule}
    (hg' : GovernsIn ctx rules' action g') :
    ∃ g, GovernsIn ctx rules action g ∧ g.Tightened dialect g' := by
  unfold GovernsIn at hg' ⊢
  induction h with
  | nil => exact absurd hg' not_firstAt_nil
  | insert hd _ ih =>
    rcases firstAt_cons.1 hg' with ⟨rfl, ha, -⟩ | ⟨-, hg'⟩
    · rw [hd] at ha
      cases ha
    · exact ih hg'
  | keep ht _ ih =>
    rcases firstAt_cons.1 hg' with ⟨rfl, ha, hm⟩ | ⟨hno, hg'⟩
    · exact ⟨_, firstAt_cons.2 (Or.inl ⟨rfl, ht.same.2 ▸ ha, ht.matches_iff.1 hm⟩), ht⟩
    · obtain ⟨g, hg, hgt⟩ := ih hg'
      refine ⟨g, firstAt_cons.2 (Or.inr ⟨fun ha => ?_, hg⟩), hgt⟩
      exact ht.noMatch_iff.1 (hno (ht.same.2.trans ha))

/-! ## Limits -/

theorem capLowered_refl (o : Option AssetAmount) : CapLowered o o :=
  Edited.refl (fun _ => ⟨⟨rfl, rfl⟩, Nat.le_refl _⟩) o

theorem lowered_refl (o : Option ℕ) : Lowered o o :=
  Edited.refl (R := fun n n' => n' ≤ n) Nat.le_refl o

theorem boundLowered_parsed {raw raw' : Option JsString} (h : BoundLowered ctx.dialect raw raw') :
    CapLowered (parsedLimit ctx raw) (parsedLimit ctx raw') := by
  cases raw with
  | none => trivial
  | some s =>
    cases raw' with
    | none => exact absurd h id
    | some s' =>
      rcases h with rfl | ⟨a, a', ha, ha', hsame, hle⟩
      · exact capLowered_refl _
      · have hp : parsedLimit ctx (some s) = some a := by simp [parsedLimit, ha, Except.toOption]
        have hp' : parsedLimit ctx (some s') = some a' := by
          simp [parsedLimit, ha', Except.toOption]
        rw [hp, hp']
        exact ⟨hsame, hle⟩

/-- The limits of a rule with limits, after the edit. -/
theorem PolicyRule.Tightened.limits {r r' : PolicyRule} (h : r.Tightened ctx.dialect r')
    {l : RuleLimits} (hl : r.limits = some l) : r' = r ∨ ∃ l', r'.limits = some l' ∧
      l.Tightened ctx.dialect l' := by
  rcases h with rfl | ⟨-, l', rfl, ht⟩
  · exact Or.inl rfl
  · rw [hl] at ht
    exact Or.inr ⟨l', rfl, ht⟩

/-- The per-transaction cap is no larger after the edit. -/
theorem PolicyRule.Tightened.cap {r r' : PolicyRule} (h : r.Tightened ctx.dialect r') :
    CapLowered (capOf ctx r) (capOf ctx r') := by
  cases hl : r.limits with
  | none => simp [capOf, hl, Edited]
  | some l =>
    rcases h.limits hl with rfl | ⟨l', hl', ht⟩
    · exact capLowered_refl _
    · simpa [capOf, hl, hl'] using boundLowered_parsed ht.maxPerTransaction

/-- An action that is fit for the tighter limits is fit for the limits. -/
theorem PolicyRule.Tightened.limitable {r r' : PolicyRule} (h : r.Tightened ctx.dialect r')
    (hfit : Limitable ctx action r') : Limitable ctx action r := by
  intro l hl
  rcases h.limits hl with rfl | ⟨l', hl', ht⟩
  · exact hfit l hl
  · obtain ⟨asset, ha, hcap, hrec⟩ := hfit l' hl'
    refine ⟨asset, ha, fun cap hc => ?_, fun hr => hrec ?_⟩
    · have hlow := h.cap
      rw [hc] at hlow
      obtain ⟨cap', hc', ⟨hs, hp⟩, -⟩ := hlow.exists_some
      rw [← hs, ← hp]
      exact hcap cap' hc'
    · exact hr.imp ht.cooldown.isSome ht.maxCountPerRecipientPerHour.isSome

theorem wantsWindow_tightened {dialect : PolicyDialect} {l l' : RuleLimits}
    (h : l.Tightened dialect l') (hw : wantsWindow l = true) : wantsWindow l' = true := by
  unfold wantsWindow at hw ⊢
  simp only [Bool.or_eq_true] at hw ⊢
  rcases hw with ((((hw | hw) | hw) | hw) | hw) | hw
  · simp [h.maxPerHour.isSome hw]
  · simp [h.maxPerDay.isSome hw]
  · simp [h.cooldown.isSome hw]
  · simp [h.maxCountPerHour.isSome hw]
  · simp [h.maxCountPerDay.isSome hw]
  · simp [h.maxCountPerRecipientPerHour.isSome hw]

/-! ## Demands -/

/-- A demand that is no weaker: the same amount under the same rule, within tighter limits. A
journal that accepts it accepts the other. -/
structure QuotaDemand.Tightened (d d' : QuotaDemand) : Prop where
  ruleId : d'.ruleId = d.ruleId
  amount : d'.amount = d.amount
  recipient : d'.recipient = d.recipient
  maxPerHour : CapLowered d.maxPerHour d'.maxPerHour
  maxPerDay : CapLowered d.maxPerDay d'.maxPerDay
  cooldown : Raised d.cooldownPerRecipientMs d'.cooldownPerRecipientMs
  maxCountPerHour : Lowered d.maxCountPerHour d'.maxCountPerHour
  maxCountPerDay : Lowered d.maxCountPerDay d'.maxCountPerDay
  maxCountPerRecipientPerHour :
    Lowered d.maxCountPerRecipientPerHour d'.maxCountPerRecipientPerHour

theorem QuotaDemand.Tightened.refl (d : QuotaDemand) : d.Tightened d :=
  ⟨rfl, rfl, rfl, capLowered_refl _, capLowered_refl _, Edited.refl Nat.le_refl _, lowered_refl _,
    lowered_refl _, lowered_refl _⟩

/-- A demand of the policy is made, no weaker, after the edit. -/
theorem PolicyRule.Tightened.demand {r r' : PolicyRule} (h : r.Tightened ctx.dialect r')
    {d : QuotaDemand} (hd : demandOf ctx action r = some d) :
    ∃ d', demandOf ctx action r' = some d' ∧ d.Tightened d' := by
  have hid := h.same.1
  unfold demandOf at hd
  obtain ⟨l, hl, hd⟩ := Option.bind_eq_some_iff.1 hd
  by_cases hw : wantsWindow l = true
  · rw [if_pos hw] at hd
    obtain ⟨asset, ha, rfl⟩ := Option.map_eq_some_iff.1 hd
    rcases h.limits hl with rfl | ⟨l', hl', ht⟩
    · exact ⟨_, by simp [demandOf, hl, hw, ha], QuotaDemand.Tightened.refl _⟩
    · refine ⟨_, by simp [demandOf, hl', wantsWindow_tightened ht hw, ha]; rfl, ?_⟩
      exact ⟨hid, rfl, rfl, boundLowered_parsed ht.maxPerHour, boundLowered_parsed ht.maxPerDay, ht.cooldown,
        ht.maxCountPerHour, ht.maxCountPerDay, ht.maxCountPerRecipientPerHour⟩
  · rw [if_neg hw] at hd
    cases hd

theorem demands_tightened {actions : List DecodedAction} {gov gov' : List PolicyRule}
    (h : List.Forall₂ (PolicyRule.Tightened ctx.dialect) gov gov') :
    List.SublistForall₂ QuotaDemand.Tightened
      ((actions.zip gov).filterMap fun p => demandOf ctx p.1 p.2)
      ((actions.zip gov').filterMap fun p => demandOf ctx p.1 p.2) := by
  induction h generalizing actions with
  | nil => simpa using List.SublistForall₂.nil
  | cons ht _ ih =>
    rename_i g g' gov gov' _
    cases actions with
    | nil => exact List.SublistForall₂.nil
    | cons a actions =>
      simp only [List.zip_cons_cons, List.filterMap_cons]
      cases hd : demandOf ctx a g with
      | none =>
        cases hd' : demandOf ctx a g' with
        | none => exact ih
        | some d' => exact ih.cons_right
      | some d =>
        obtain ⟨d', hd', htd⟩ := ht.demand hd
        rw [hd']
        exact ih.cons htd

/-! ## Reservations -/

variable {agent : JsString} {nowMs : ℤ} {d d' : QuotaDemand} {rows rows' : List QuotaEvent}

theorem lowered_bound {o o' : Option ℕ} (h : Lowered o o') {k k' : ℕ} (hk : k ≤ k')
    (hlt : ∀ n, o' = some n → k' < n) : ∀ n, o = some n → k < n := by
  rintro n rfl
  obtain ⟨n', rfl, hle⟩ := h.exists_some
  have := hlt n' rfl
  omega

theorem consumed_sublist {ruleId symbol : JsString} {precision : ℕ} {W : ℤ}
    (hsub : rows.Sublist rows') :
    QuotaJournal.consumed rows agent ruleId symbol precision W nowMs ≤
      QuotaJournal.consumed rows' agent ruleId symbol precision W nowMs :=
  (((hsub.filter _).filter _).map _).sum_le_sum fun _ _ => Nat.zero_le _

theorem countToRecipient_le {ruleId r : JsString} {W W' : ℤ} (hsub : rows.Sublist rows')
    (hW : W ≤ W') : QuotaJournal.countToRecipient rows agent ruleId r W nowMs ≤
      QuotaJournal.countToRecipient rows' agent ruleId r W' nowMs := by
  unfold QuotaJournal.countToRecipient QuotaJournal.inWindow
  refine le_trans (((hsub.filter _).filter _).length_le) (List.Sublist.length_le ?_)
  refine List.Sublist.filter _ (List.monotone_filter_right _ fun e he => ?_)
  simp only [decide_eq_true_eq] at he ⊢
  exact ⟨he.1, he.2.1, he.2.2.1, by omega⟩

/-- A window check that passes with more in the table passes under a larger cap. -/
theorem checkWindow_mono {ruleId : JsString} {amount : AssetAmount} {o o' : Option AssetAmount}
    {W : ℤ} (hsub : rows.Sublist rows') (h : CapLowered o o')
    (hc : ∀ cap, o' = some cap →
      QuotaJournal.checkWindow rows' agent ruleId amount cap W nowMs = .ok ()) :
    ∀ cap, o = some cap →
      QuotaJournal.checkWindow rows agent ruleId amount cap W nowMs = .ok () := by
  rintro cap rfl
  obtain ⟨cap', rfl, ⟨hs, hp⟩, hle⟩ := h.exists_some
  obtain ⟨⟨hs', hp'⟩, hfit⟩ := checkWindow_ok.1 (hc cap' rfl)
  refine checkWindow_ok.2 ⟨⟨hs ▸ hs', hp ▸ hp'⟩, ?_⟩
  calc QuotaJournal.consumed rows agent ruleId amount.symbol amount.precision W nowMs + amount.units
      ≤ QuotaJournal.consumed rows' agent ruleId amount.symbol amount.precision W nowMs +
          amount.units := Nat.add_le_add_right (consumed_sublist hsub) _
    _ ≤ cap'.units := hfit
    _ ≤ cap.units := hle

/-- What passes as the tighter demand, with more in the table, passes as the demand. -/
theorem checkDemand_mono (h : d.Tightened d') (hsub : rows.Sublist rows')
    (hc : QuotaJournal.checkDemand agent nowMs rows' d' = .ok ()) :
    QuotaJournal.checkDemand agent nowMs rows d = .ok () := by
  obtain ⟨hhour, hday, hcool, hch, hcd, hcr⟩ := checkDemand_ok.1 hc
  rw [h.ruleId, h.amount] at hhour hday
  rw [h.ruleId, h.recipient] at hcool hcr
  rw [h.ruleId] at hch hcd
  have hcount : ∀ W, QuotaJournal.countInWindow rows agent d.ruleId W nowMs ≤
      QuotaJournal.countInWindow rows' agent d.ruleId W nowMs := fun W => (hsub.filter _).length_le
  refine checkDemand_ok.2 ⟨checkWindow_mono hsub h.maxPerHour hhour,
    checkWindow_mono hsub h.maxPerDay hday, ?_, lowered_bound h.maxCountPerHour (hcount _) hch,
    lowered_bound h.maxCountPerDay (hcount _) hcd, ?_⟩
  · intro cd hcd'
    have hraise := h.cooldown
    rw [hcd'] at hraise
    obtain ⟨cd', hcd'', hle⟩ := hraise.exists_some
    obtain ⟨r, hr, hzero⟩ := hcool cd' hcd''
    have hto : QuotaJournal.countToRecipient rows agent d.ruleId r cd nowMs ≤
        QuotaJournal.countToRecipient rows' agent d.ruleId r cd' nowMs :=
      countToRecipient_le hsub (Int.ofNat_le.2 hle)
    exact ⟨r, hr, by omega⟩
  · intro n hn
    have hlow := h.maxCountPerRecipientPerHour
    rw [hn] at hlow
    obtain ⟨n', hn', hle⟩ := hlow.exists_some
    obtain ⟨r, hr, hlt⟩ := hcr n' hn'
    have hto : QuotaJournal.countToRecipient rows agent d.ruleId r HOUR_MS nowMs ≤
        QuotaJournal.countToRecipient rows' agent d.ruleId r HOUR_MS nowMs :=
      countToRecipient_le hsub le_rfl
    exact ⟨r, hr, by omega⟩

theorem eventOf_tightened (h : d.Tightened d') (rid : ℕ) :
    QuotaJournal.eventOf rid agent nowMs d' = QuotaJournal.eventOf rid agent nowMs d := by
  unfold QuotaJournal.eventOf
  rw [h.ruleId, h.amount, h.recipient]

/-- The loop over the demands accepts the weaker list, from a table with no more in it. -/
theorem reserve_mono {rid : ℕ} {ds ds' : List QuotaDemand}
    (h : List.SublistForall₂ QuotaDemand.Tightened ds ds') :
    ∀ {rows rows' out' : List QuotaEvent}, rows.Sublist rows' →
      ds'.foldlM (fun rows demand => do
        QuotaJournal.checkDemand agent nowMs rows demand
        return rows ++ [QuotaJournal.eventOf rid agent nowMs demand]) rows' = .ok out' →
      ∃ out, ds.foldlM (fun rows demand => do
        QuotaJournal.checkDemand agent nowMs rows demand
        return rows ++ [QuotaJournal.eventOf rid agent nowMs demand]) rows = .ok out := by
  induction h with
  | nil => exact fun _ _ => ⟨_, rfl⟩
  | cons ht _ ih =>
    intro rows rows' out' hsub hrun
    rw [List.foldlM_cons] at hrun ⊢
    obtain ⟨mid, hmid, hrun⟩ := bind_ok.1 hrun
    obtain ⟨⟨⟩, hcheck, hmid⟩ := bind_ok.1 hmid
    simp only [pure_eq, Except.ok.injEq] at hmid
    subst hmid
    rw [eventOf_tightened ht] at hrun
    obtain ⟨out, hout⟩ := ih (hsub.append (List.Sublist.refl _)) hrun
    refine ⟨out, bind_ok.2 ⟨_, ?_, hout⟩⟩
    rw [checkDemand_mono ht hsub hcheck, ok_bind]
    rfl
  | cons_right _ ih =>
    intro rows rows' out' hsub hrun
    rw [List.foldlM_cons] at hrun
    obtain ⟨mid, hmid, hrun⟩ := bind_ok.1 hrun
    obtain ⟨⟨⟩, -, hmid⟩ := bind_ok.1 hmid
    simp only [pure_eq, Except.ok.injEq] at hmid
    subst hmid
    exact ih (hsub.trans (List.sublist_append_left _ _)) hrun

/-- A journal that accepts the tighter demands accepts the demands. -/
theorem reserve_accepts {journal : QuotaJournal} {ds ds' : List QuotaDemand} {rid : ℕ}
    (h : List.SublistForall₂ QuotaDemand.Tightened ds ds')
    (hr : (journal.reserve agent ds' nowMs).2 = .ok rid) :
    (journal.reserve agent ds nowMs).2 = .ok rid := by
  unfold QuotaJournal.reserve at hr ⊢
  cases hrun : QuotaJournal.reserveRows journal.issued agent ds' nowMs journal.rows with
  | error reason => simp [hrun] at hr
  | ok out' =>
    obtain ⟨out, hout⟩ := reserve_mono h (List.Sublist.refl _) hrun
    have hrows : QuotaJournal.reserveRows journal.issued agent ds nowMs journal.rows = .ok out := hout
    rw [hrun] at hr
    rw [hrows]
    exact hr

/-! ## The law -/

/-- The correspondence of the governing rules: the edited policy governs an action by the edited
rule. -/
def Corresponds (ctx : EvaluationContext) (policy' : Policy) (g g' : PolicyRule) : Prop :=
  g.Tightened ctx.dialect g' ∧ g' ∈ policy'.rules ∧ g.effect = .allow

/-- Inserted deny rules may repeat ids; the allow rules are still determined by theirs. -/
theorem Policy.Restricted.allowIds (hv : policy.Valid ctx.dialect)
    (h : policy.Restricted ctx.dialect policy') : policy'.AllowIds := by
  refine allowIds_of_nodup ?_
  rw [h.rules.allowIds_eq]
  exact hv.ids.sublist (List.filter_sublist.map _)

theorem allowed_of_restricted (hv : policy.Valid ctx.dialect)
    (h : policy.Restricted ctx.dialect policy') {gov' : List PolicyRule}
    (h' : Allowed ctx policy' tx gov') :
    ∃ gov, Allowed ctx policy tx gov ∧ List.Forall₂ (Corresponds ctx policy') gov gov' := by
  have hunique := h.allowIds hv
  refine h'.transfer (by rw [h.chain]) h.maxActions ?_ ?_ ?_
  · intro a ha r hr hdeny
    exact h'.noDeny a ha r (h.rules.deny_mem r hr hdeny) hdeny
  · intro a ha g' hg' hfit
    obtain ⟨g, hg, ht⟩ := h.rules.governs hg'
    exact ⟨g, hg, ht.limitable hfit, ht, hg'.mem, (FirstAt.holds hg).1⟩
  · intro r hr cap hc
    obtain ⟨r', hr', ht⟩ := h.rules.exists_mem r hr
    have hlow : CapLowered (capOf ctx r) (capOf ctx r') := ht.cap
    rw [hc] at hlow
    obtain ⟨cap', hc', -, hle⟩ := hlow.exists_some
    refine ⟨r', hr', ⟨cap', hc', hle⟩, ?_⟩
    rintro g' ⟨htg, hmem, ha⟩
    exact hunique g' hmem r' hr' (htg.same.2.trans ha) (ht.same.2.trans ha)
      (htg.same.1.trans ht.same.1.symm)

/-- **Restrictive edits only restrict.** For every valid policy, restrictive edit,
transaction and context: what the edited policy allows, the policy allows with the same
rule ids, and every journal that accepts the demands of the edited policy accepts the
demands of the policy. -/
theorem restrict_only_restricts {doc : Json} (hval : validatePolicy doc ctx.dialect = .ok policy)
    (h : policy.Restricted ctx.dialect policy')
    (hallow : (evaluatePolicy tx policy' ctx).decision.isAllow) :
    (evaluatePolicy tx policy ctx).decision = (evaluatePolicy tx policy' ctx).decision ∧
      ∀ (journal : QuotaJournal) (agent : JsString) (nowMs : ℤ) (rid : ℕ),
        (journal.reserve agent (evaluatePolicy tx policy' ctx).quotaDemands nowMs).2 = .ok rid →
        (journal.reserve agent (evaluatePolicy tx policy ctx).quotaDemands nowMs).2 = .ok rid := by
  have hv := validatePolicy_valid hval
  obtain ⟨gov', hgov', hres'⟩ := allowed_of_isAllow (h.allowIds hv) hallow
  obtain ⟨gov, hgov, hrel⟩ := allowed_of_restricted hv h hgov'
  rw [hres', evaluatePolicy_allowed hv hgov]
  constructor
  · have hsame : gov.map PolicyRule.id = gov'.map PolicyRule.id := by
      clear hgov hgov' hres'
      induction hrel with
      | nil => rfl
      | cons hc _ ih => rw [List.map_cons, List.map_cons, ih, hc.1.same.1]
    simp [allowance, hsame]
  · intro journal agent nowMs rid hr
    have ht : List.Forall₂ (PolicyRule.Tightened ctx.dialect) gov gov' :=
      hrel.imp fun _ _ hc => hc.1
    exact reserve_accepts (demands_tightened ht) hr

namespace Stricter

/-- A lower cap, and a limit on the number of transfers. -/
def limits : RuleLimits := ⟨some (js "3.0000 XPR"), none, none, none, some 2, none, none⟩

/-- The policy for capped transfers with these limits, and with a memo denied. -/
def stricter : Policy := Sample.policyOf
  [⟨js "no-rent", .deny, [(js "data.memo", .lit (js "rent"))], none, none⟩,
    ⟨js "pay", .allow, [(js "action", .lit (js "transfer"))], some limits, none⟩]

theorem restricted : Sample.transferPolicy.Restricted xprDialect stricter where
  chain := rfl
  rules := by
    refine .insert rfl (.keep (Or.inr ⟨rfl, limits, rfl, ?_⟩) .nil)
    have hcap : BoundLowered xprDialect (some (js "5.0000 XPR")) limits.maxPerTransaction :=
      Or.inr ⟨⟨50000, js "XPR", 4⟩, ⟨30000, js "XPR", 4⟩, by decide⟩
    exact ⟨hcap, trivial, trivial, trivial, trivial, trivial, trivial⟩
  maxActions := Nat.le_refl 1

/-- The transfer is allowed under both, by the same rule. -/
theorem transfer_restricted :
    (evaluatePolicy (Sample.transfer []) stricter (Sample.context none)).quotaDemands.length = 1 ∧
      (evaluatePolicy (Sample.transfer []) Sample.transferPolicy (Sample.context none)).decision =
        (evaluatePolicy (Sample.transfer []) stricter (Sample.context none)).decision := by
  have hval : validatePolicy Sample.transferDoc (Sample.context none).dialect =
      .ok Sample.transferPolicy := by decide
  exact ⟨by decide, (restrict_only_restricts hval restricted (by decide)).1⟩

end Stricter

end Signbox
