import Signbox.Proof.Meaning
import Signbox.Proof.Validated
import Mathlib.Data.List.Induction

/-!
# Evaluation meets the meaning

`evaluatePolicy` allows a transaction exactly when the policy, read as in
`Signbox.Proof.Meaning`, does (`evaluate_allows_iff`), and then with the governing rules'
ids and demands. The loop over the actions is described once (`tally_ok`), and its running
totals are the sums over the actions each rule governs (`TotalsOf.addCapped`).
-/

namespace Signbox

open Guard

variable {ctx : EvaluationContext} {policy : Policy} {tx : DecodedTransaction}
  {action : DecodedAction} {rule : PolicyRule}

/-- A throw read as a stop leaves successes as they are. -/
theorem throwing_ok {α : Type} {x : Except JsError α} {a : α} :
    throwing x = .ok a ↔ x = .ok a := by
  cases x <;> simp [throwing, Except.mapError]

/-- No deny rule applies exactly when each of them fails to match each action, and no match
fails. -/
theorem explicitlyDenied_false : explicitlyDenied tx policy ctx = .ok false ↔
    ∀ a ∈ tx.actions, ∀ r ∈ policy.rules, r.effect = .deny → NoMatch ctx a r := by
  unfold explicitlyDenied
  rw [anyM_ok_false]
  refine forall₂_congr fun a _ => ?_
  rw [anyM_ok_false]
  refine forall₂_congr fun r _ => ?_
  by_cases hd : r.effect = .deny
  · simp [hd, ruleMatches_false]
  · simp [hd]

/-! ## The limits of one action -/

/-- An optional limit is read exactly when it parses, or is absent. -/
theorem mapM_parse {raw : Option JsString} {x : Option AssetAmount} :
    raw.mapM ctx.dialect.parseAssetLimit = .ok x ↔ Parses ctx raw ∧ x = parsedLimit ctx raw := by
  cases raw with
  | none => simp [Parses, parsedLimit, eq_comm]
  | some s =>
    cases hp : ctx.dialect.parseAssetLimit s with
    | ok a =>
      simp [Parses, parsedLimit, hp, Except.toOption, Functor.map, Except.map, eq_comm]
    | error e => simp [Parses, hp, Functor.map, Except.map]

/-- The rules of a valid policy are readable. -/
theorem PolicyRule.Valid.readable (hv : rule.Valid ctx.dialect) : Readable ctx rule := by
  intro l hl
  exact ⟨fun s hs => hv.parses l hl (js "maxPerTransaction", l.maxPerTransaction)
      (by simp [RuleLimits.assets]) s hs,
    fun s hs => hv.parses l hl (js "maxPerHour", l.maxPerHour) (by simp [RuleLimits.assets]) s hs,
    fun s hs => hv.parses l hl (js "maxPerDay", l.maxPerDay) (by simp [RuleLimits.assets]) s hs⟩

/-- What a demand needs of the recipient: there is one, where a limit is per recipient. -/
def RecipientOk (l : RuleLimits) (recipient : Option JsString) : Prop :=
  l.cooldownPerRecipientMs.isSome ∨ l.maxCountPerRecipientPerHour.isSome → recipient.isSome

/-- A demand is built exactly when the window limits parse and the recipient is named where a limit
needs one. -/
theorem quotaDemand_ok {id : JsString} {l : RuleLimits} {asset : AssetAmount}
    {recipient : Option JsString} {d : QuotaDemand} :
    quotaDemand ctx.dialect id l asset recipient = .ok d ↔
      (Parses ctx l.maxPerHour ∧ Parses ctx l.maxPerDay) ∧ RecipientOk l recipient ∧
        d = ⟨id, asset, recipient, parsedLimit ctx l.maxPerHour, parsedLimit ctx l.maxPerDay,
          l.cooldownPerRecipientMs, l.maxCountPerHour, l.maxCountPerDay,
          l.maxCountPerRecipientPerHour⟩ := by
  have hsome : recipient.isSome ↔ recipient ≠ none := Option.isSome_iff_ne_none
  unfold quotaDemand RecipientOk
  simp only [bind_ok, mapM_parse, failIf_ok, pure_eq, Except.ok.injEq, hsome]
  constructor
  · rintro ⟨_, ⟨hh, rfl⟩, _, ⟨hd, rfl⟩, -, hc, -, hm, rfl⟩
    exact ⟨⟨hh, hd⟩, by tauto, rfl⟩
  · rintro ⟨⟨hh, hd⟩, hr, rfl⟩
    exact ⟨_, ⟨hh, rfl⟩, _, ⟨hd, rfl⟩, (), by tauto, (), by tauto, rfl⟩

/-- A cap applies to an asset of its own symbol and precision only. -/
theorem transactionCap_ok {asset : AssetAmount} {raw : JsString} {cap : AssetAmount} :
    transactionCap ctx.dialect asset raw = .ok cap ↔
      ctx.dialect.parseAssetLimit raw = .ok cap ∧ asset.symbol = cap.symbol ∧
        asset.precision = cap.precision := by
  unfold transactionCap
  simp only [bind_ok, failIf_ok, pure_eq, Except.ok.injEq]
  constructor
  · rintro ⟨c, hc, -, hne, rfl⟩
    exact ⟨hc, by tauto⟩
  · rintro ⟨hc, hs, hp⟩
    exact ⟨cap, hc, (), by simp [hs, hp], rfl⟩

/-- What one action adds to the running totals. -/
def addCapped (ctx : EvaluationContext) (totals : List (JsString × RuleTotal))
    (p : DecodedAction × PolicyRule) : List (JsString × RuleTotal) :=
  match capOf ctx p.2 with
  | none => totals
  | some cap => addTotal totals p.2.id (movedUnits ctx p.1) cap

/-- What one governed action adds to the tally: its rule, its demand if it has one, and its
units. -/
def Tally.governed (ctx : EvaluationContext) (t : Tally) (p : DecodedAction × PolicyRule) : Tally :=
  ⟨t.ruleIds ++ [p.2.id], t.quotaDemands ++ (demandOf ctx p.1 p.2).toList,
    addCapped ctx t.perRuleTotals p⟩

/-- The units moved are those of the asset that the dialect reads. -/
theorem movedUnits_of_ok {asset : AssetAmount} (ha : ctx.dialect.assetOf action = .ok asset) :
    movedUnits ctx action = asset.units := by
  unfold movedUnits; rw [ha]

/-- Adding to the totals succeeds exactly when the cap can be read and compared with the asset. -/
theorem capTotals_ok {l : RuleLimits} (hl : rule.limits = some l) {asset : AssetAmount}
    (ha : ctx.dialect.assetOf action = .ok asset) {totals totals' : List (JsString × RuleTotal)} :
    capTotals ctx.dialect rule l asset totals = .ok totals' ↔ Parses ctx l.maxPerTransaction ∧
      (∀ cap, capOf ctx rule = some cap →
        asset.symbol = cap.symbol ∧ asset.precision = cap.precision) ∧
        totals' = addCapped ctx totals (action, rule) := by
  unfold capTotals addCapped
  simp only [capOf, hl, Option.bind_some, movedUnits_of_ok ha]
  cases hm : l.maxPerTransaction with
  | none => simp [Parses, parsedLimit, eq_comm]
  | some raw =>
    simp only [bind_ok, transactionCap_ok, pure_eq, Except.ok.injEq]
    constructor
    · rintro ⟨cap, ⟨hc, hs, hp⟩, rfl⟩
      have hpl : parsedLimit ctx (some raw) = some cap := by simp [parsedLimit, hc, Except.toOption]
      refine ⟨fun s hs => ?_, ?_, by rw [hpl]⟩
      · cases hs
        exact ⟨cap, hc⟩
      · rw [hpl]
        rintro c ⟨⟩
        exact ⟨hs, hp⟩
    · rintro ⟨hparse, hcap, rfl⟩
      obtain ⟨cap, hc⟩ := hparse raw rfl
      have hpl : parsedLimit ctx (some raw) = some cap := by simp [parsedLimit, hc, Except.toOption]
      rw [hpl] at hcap ⊢
      exact ⟨cap, ⟨hc, hcap cap rfl⟩, rfl⟩

/-- A limit per recipient and a limit per hour or day is a windowed limit. -/
theorem of_not_wantsWindow {l : RuleLimits} (h : wantsWindow l = false) :
    l.maxPerHour = none ∧ l.maxPerDay = none ∧ ∀ r, RecipientOk l r := by
  unfold wantsWindow at h
  simp only [Bool.or_eq_false_iff, Option.isSome_eq_false_iff, Option.isNone_iff_eq_none] at h
  obtain ⟨⟨⟨⟨⟨hh, hd⟩, hc⟩, -⟩, -⟩, hm⟩ := h
  exact ⟨hh, hd, fun r hl => by simp [hc, hm] at hl⟩

/-- Adding a demand succeeds exactly when its limits can be read and it has its recipient. -/
theorem demandWindow_ok {l : RuleLimits} (hl : rule.limits = some l) {asset : AssetAmount}
    (ha : ctx.dialect.assetOf action = .ok asset) {demands demands' : List QuotaDemand} :
    demandWindow ctx action rule l asset demands = .ok demands' ↔
      (Parses ctx l.maxPerHour ∧ Parses ctx l.maxPerDay) ∧
      RecipientOk l (ctx.dialect.recipientOf action) ∧
        demands' = demands ++ (demandOf ctx action rule).toList := by
  unfold demandWindow
  cases hw : wantsWindow l with
  | false =>
    have hdem : demandOf ctx action rule = none := by simp [demandOf, hl, hw]
    obtain ⟨hh, hd, hr⟩ := of_not_wantsWindow hw
    simp [hdem, hh, hd, hr, Parses, eq_comm]
  | true =>
    have hdem : demandOf ctx action rule = some ⟨rule.id, asset, ctx.dialect.recipientOf action,
        parsedLimit ctx l.maxPerHour, parsedLimit ctx l.maxPerDay, l.cooldownPerRecipientMs,
        l.maxCountPerHour, l.maxCountPerDay, l.maxCountPerRecipientPerHour⟩ := by
      simp [demandOf, hl, hw, ha, Except.toOption]
    simp only [if_true, bind_ok, quotaDemand_ok, hdem, Option.toList_some, pure_eq,
      Except.ok.injEq]
    constructor
    · rintro ⟨d, ⟨hp, hr, rfl⟩, rfl⟩
      exact ⟨hp, hr, rfl⟩
    · rintro ⟨hp, hr, rfl⟩
      exact ⟨_, ⟨hp, hr, rfl⟩, rfl⟩

/-- Limits are applied without an error exactly when they can be read and the action is fit
for them. -/
theorem applyLimits_ok {t t' : Tally} : applyLimits ctx action rule t = .ok t' ↔
    (Readable ctx rule ∧ Limitable ctx action rule) ∧
      t' = ⟨t.ruleIds, t.quotaDemands ++ (demandOf ctx action rule).toList,
        addCapped ctx t.perRuleTotals (action, rule)⟩ := by
  unfold applyLimits
  cases hl : rule.limits with
  | none =>
    have hcap : capOf ctx rule = none := by simp [capOf, hl]
    have hdem : demandOf ctx action rule = none := by simp [demandOf, hl]
    simp only [Readable, Limitable, hl, hcap, hdem, addCapped, pure_eq, Except.ok.injEq]
    rw [eq_comm]
    simp
  | some l =>
    simp only [bind_ok, pure_eq, Except.ok.injEq]
    constructor
    · rintro ⟨asset, ha, totals, ht, demands, hd, rfl⟩
      obtain ⟨hpt, hc, rfl⟩ := (capTotals_ok hl ha).1 ht
      obtain ⟨hpw, hr, rfl⟩ := (demandWindow_ok hl ha).1 hd
      refine ⟨⟨fun l' hl' => ?_, fun l' hl' => ?_⟩, rfl⟩ <;>
        rw [hl, Option.some.injEq] at hl' <;> subst hl'
      · exact ⟨hpt, hpw⟩
      · exact ⟨asset, ha, hc, hr⟩
    · rintro ⟨⟨hread, hfit⟩, rfl⟩
      obtain ⟨hpt, hpw⟩ := hread l hl
      obtain ⟨asset, ha, hc, hr⟩ := hfit l hl
      exact ⟨asset, ha, _, (capTotals_ok hl ha).2 ⟨hpt, hc, rfl⟩, _,
        (demandWindow_ok hl ha).2 ⟨hpw, hr, rfl⟩, rfl⟩

/-! ## The loop over the actions -/

/-- One action is tallied exactly when a rule governs it whose limits can be read and applied; what
is then added is determined. -/
theorem tallyAction_ok {t t' : Tally} :
    tallyAction policy ctx t action = .ok t' ↔ ∃ g, Governs ctx policy action g ∧
      (Readable ctx g ∧ Limitable ctx action g) ∧ t' = t.governed ctx (action, g) := by
  unfold tallyAction
  rw [bind_ok]
  constructor
  · rintro ⟨r, hr, h⟩
    rw [throwing_ok] at hr
    cases r with
    | none => simp at h
    | some g =>
      obtain ⟨t₁, ht₁, h⟩ := bind_ok.1 h
      rw [throwing_ok] at ht₁
      obtain ⟨hfit, rfl⟩ := applyLimits_ok.1 ht₁
      simp only [pure_eq, Except.ok.injEq] at h
      exact ⟨g, governingRule_some.1 hr, hfit, h.symm⟩
  · rintro ⟨g, hg, hfit, rfl⟩
    refine ⟨some g, throwing_ok.2 (governingRule_some.2 hg), ?_⟩
    exact bind_ok.2 ⟨_, throwing_ok.2 (applyLimits_ok.2 ⟨hfit, rfl⟩), rfl⟩

/-- The loop succeeds exactly when every action has a governing rule with readable limits
it is fit for, and then it has tallied the pairs in order. -/
theorem tally_ok {actions : List DecodedAction} :
    ∀ {t t' : Tally}, actions.foldlM (tallyAction policy ctx) t = .ok t' ↔
      ∃ gov, List.Forall₂ (Governs ctx policy) actions gov ∧ (∀ g ∈ gov, Readable ctx g) ∧
        List.Forall₂ (Limitable ctx) actions gov ∧
          t' = (actions.zip gov).foldl (Tally.governed ctx) t := by
  induction actions with
  | nil =>
    intro t t'
    simp [eq_comm]
  | cons a actions ih =>
    intro t t'
    rw [List.foldlM_cons, bind_ok]
    constructor
    · rintro ⟨t₁, h₁, h⟩
      obtain ⟨g, hg, ⟨hread, hfit⟩, rfl⟩ := tallyAction_ok.1 h₁
      obtain ⟨gov, hgov, hreads, hfits, rfl⟩ := ih.1 h
      exact ⟨g :: gov, .cons hg hgov, List.forall_mem_cons.2 ⟨hread, hreads⟩,
        .cons hfit hfits, rfl⟩
    · rintro ⟨gov, hgov, hreads, hfits, rfl⟩
      cases hgov with
      | cons hg hgov =>
        cases hfits with
        | cons hfit hfits =>
          obtain ⟨hread, hreads⟩ := List.forall_mem_cons.1 hreads
          exact ⟨_, tallyAction_ok.2 ⟨_, hg, ⟨hread, hfit⟩, rfl⟩, ih.2 ⟨_, hgov, hreads, hfits, rfl⟩⟩

/-! ## The running totals -/

/-- A total is added in place, or at the end for a new rule. -/
theorem addTotal_keys (id : JsString) (u : ℕ) (cap : AssetAmount) (ts : List (JsString × RuleTotal)) :
    (addTotal ts id u cap).map Prod.fst =
      if id ∈ ts.map Prod.fst then ts.map Prod.fst else ts.map Prod.fst ++ [id] := by
  induction ts with
  | nil => simp [addTotal]
  | cons t ts ih =>
    obtain ⟨id', t⟩ := t
    unfold addTotal
    by_cases h : id' = id
    · simp [h]
    · rw [if_neg h, List.map_cons, ih]
      have hne : id ≠ id' := fun he => h he.symm
      by_cases hm : id ∈ ts.map Prod.fst
      · rw [if_pos hm, if_pos (by simp [hm])]; rfl
      · rw [if_neg hm, if_neg (by simp only [List.map_cons, List.mem_cons, not_or]; exact ⟨hne, hm⟩)]
        rfl

/-- So each rule has one total. -/
theorem addTotal_nodup {id : JsString} {u : ℕ} {cap : AssetAmount}
    {ts : List (JsString × RuleTotal)} (h : (ts.map Prod.fst).Nodup) :
    ((addTotal ts id u cap).map Prod.fst).Nodup := by
  rw [addTotal_keys]
  split
  · exact h
  · rename_i hm
    rw [List.nodup_append]
    exact ⟨h, by simp, by rintro a ha b hb rfl; simp at hb; exact hm (hb ▸ ha)⟩

/-- The entries after `addTotal`: the others, and the increased or new one. -/
theorem mem_addTotal {id : JsString} {u : ℕ} {cap : AssetAmount}
    {ts : List (JsString × RuleTotal)} (h : (ts.map Prod.fst).Nodup) {e : JsString × RuleTotal} :
    e ∈ addTotal ts id u cap ↔ (e ∈ ts ∧ e.1 ≠ id) ∨
      (∃ t, (id, t) ∈ ts ∧ e = (id, ⟨t.units + u, t.cap⟩)) ∨
        (id ∉ ts.map Prod.fst ∧ e = (id, ⟨u, cap⟩)) := by
  -- by induction on the totals; the head is the rule in question, or it is passed over
  induction ts with
  | nil => simp [addTotal]
  | cons t ts ih =>
    obtain ⟨id', t⟩ := t
    rw [List.map_cons, List.nodup_cons] at h
    have ih := ih h.2
    unfold addTotal
    by_cases hid : id' = id
    · subst hid
      -- the rule has no second total further on
      have hout : ∀ t', (id', t') ∉ ts := fun t' ht' =>
        h.1 (List.mem_map.2 ⟨(id', t'), ht', rfl⟩)
      rw [if_pos rfl]
      constructor
      · intro he
        rcases List.mem_cons.1 he with rfl | he
        · exact Or.inr (Or.inl ⟨t, by simp, rfl⟩)
        · exact Or.inl ⟨by simp [he], fun hk => hout e.2 (by rw [← hk]; exact he)⟩
      · rintro (⟨he, hk⟩ | ⟨t', ht', rfl⟩ | ⟨hn, -⟩)
        · rcases List.mem_cons.1 he with rfl | he
          · exact absurd rfl hk
          · exact List.mem_cons_of_mem _ he
        · rcases List.mem_cons.1 ht' with heq | ht'
          · rw [Prod.mk.injEq] at heq
            rw [heq.2]; exact List.mem_cons_self
          · exact absurd ht' (hout t')
        · simp at hn
    · rw [if_neg hid, List.mem_cons, ih]
      have hne : id ≠ id' := fun he => hid he.symm
      constructor
      · rintro (rfl | ⟨he, hk⟩ | ⟨t', ht', rfl⟩ | ⟨hn, rfl⟩)
        · exact Or.inl ⟨by simp, hid⟩
        · exact Or.inl ⟨by simp [he], hk⟩
        · exact Or.inr (Or.inl ⟨t', by simp [ht'], rfl⟩)
        · refine Or.inr (Or.inr ⟨?_, rfl⟩)
          rw [List.map_cons, List.mem_cons, not_or]
          exact ⟨hne, hn⟩
      · rintro (⟨he, hk⟩ | ⟨t', ht', rfl⟩ | ⟨hn, rfl⟩)
        · rcases List.mem_cons.1 he with rfl | he
          · exact Or.inl rfl
          · exact Or.inr (Or.inl ⟨he, hk⟩)
        · rcases List.mem_cons.1 ht' with heq | ht'
          · rw [Prod.mk.injEq] at heq
            exact absurd heq.1 hne
          · exact Or.inr (Or.inr (Or.inl ⟨t', ht', rfl⟩))
        · rw [List.map_cons, List.mem_cons, not_or] at hn
          exact Or.inr (Or.inr (Or.inr ⟨hn.2, rfl⟩))

/-- `totals` are the running totals of these pairs: one entry for each capped rule that
governs one of them, with the units of all actions it governs. -/
structure TotalsOf (ctx : EvaluationContext) (ps : List (DecodedAction × PolicyRule))
    (totals : List (JsString × RuleTotal)) : Prop where
  nodup : (totals.map Prod.fst).Nodup
  sound : ∀ e ∈ totals, ∃ p ∈ ps, p.2.id = e.1 ∧ capOf ctx p.2 = some e.2.cap ∧
    e.2.units = governedUnits ctx ps p.2
  complete : ∀ p ∈ ps, ∀ cap, capOf ctx p.2 = some cap →
    ∃ t, (p.2.id, t) ∈ totals ∧ t.cap = cap ∧ t.units = governedUnits ctx ps p.2

/-- The units that a rule governs add up over the actions. -/
theorem governedUnits_append (ps : List (DecodedAction × PolicyRule))
    (p : DecodedAction × PolicyRule) (r : PolicyRule) :
    governedUnits ctx (ps ++ [p]) r =
      governedUnits ctx ps r + if p.2 = r then movedUnits ctx p.1 else 0 := by
  unfold governedUnits
  by_cases h : p.2 = r <;> simp [List.filter_append, h]

/-- A rule that governs none of the pairs has no units. -/
theorem governedUnits_eq_zero {ps : List (DecodedAction × PolicyRule)} {r : PolicyRule}
    (h : ∀ p ∈ ps, p.2 ≠ r) : governedUnits ctx ps r = 0 := by
  unfold governedUnits
  have hf : (ps.filter fun p => decide (p.2 = r)) = [] := by
    rw [List.filter_eq_nil_iff]
    intro p hp
    simpa using h p hp
  rw [hf]; rfl

/-- One more action of the rule adds its own units, -/
theorem governedUnits_snoc {ps : List (DecodedAction × PolicyRule)}
    {p : DecodedAction × PolicyRule} :
    governedUnits ctx (ps ++ [p]) p.2 = governedUnits ctx ps p.2 + movedUnits ctx p.1 := by
  rw [governedUnits_append, if_pos rfl]

/-- and an action of another rule adds none. -/
theorem governedUnits_snoc_of_ne {ps : List (DecodedAction × PolicyRule)}
    {p : DecodedAction × PolicyRule} {r : PolicyRule} (hr : p.2 ≠ r) :
    governedUnits ctx (ps ++ [p]) r = governedUnits ctx ps r := by
  rw [governedUnits_append, if_neg hr, Nat.add_zero]

namespace TotalsOf

variable {ps : List (DecodedAction × PolicyRule)} {totals : List (JsString × RuleTotal)}
variable {p : DecodedAction × PolicyRule} {cap : AssetAmount}

/-- A pair whose rule has no cap changes no total. -/
theorem uncapped (h : TotalsOf ctx ps totals) (hcap : capOf ctx p.2 = none) :
    TotalsOf ctx (ps ++ [p]) totals := by
  have hne : ∀ r c, capOf ctx r = some c → p.2 ≠ r := by
    rintro r c hr rfl
    rw [hcap] at hr
    cases hr
  refine ⟨h.nodup, ?_, ?_⟩
  · intro e he
    obtain ⟨q, hq, hk, hc, hu⟩ := h.sound e he
    exact ⟨q, by simp [hq], hk, hc, by rw [governedUnits_snoc_of_ne (hne _ _ hc), hu]⟩
  · intro q hq c hc
    rcases List.mem_append.1 hq with hq | hq
    · obtain ⟨t, ht, htc, hu⟩ := h.complete q hq c hc
      exact ⟨t, ht, htc, by rw [governedUnits_snoc_of_ne (hne _ _ hc), hu]⟩
    · exact absurd rfl (List.mem_singleton.1 hq ▸ hne _ _ hc)

/-- An entry under a rule's id is the rule's, when ids determine rules. -/
theorem entry (h : TotalsOf ctx ps totals) (hid : ∀ q ∈ ps, q.2.id = p.2.id → q.2 = p.2)
    (hcap : capOf ctx p.2 = some cap) {t : RuleTotal} (ht : (p.2.id, t) ∈ totals) :
    t.cap = cap ∧ t.units = governedUnits ctx ps p.2 := by
  obtain ⟨q, hq, hk, hc, hu⟩ := h.sound _ ht
  have hqp := hid q hq hk
  rw [hqp] at hc hu
  rw [hcap, Option.some.injEq] at hc
  exact ⟨hc.symm, hu⟩

/-- A capped rule without an entry has governed nothing yet. -/
theorem fresh (h : TotalsOf ctx ps totals) (hcap : capOf ctx p.2 = some cap)
    (hn : p.2.id ∉ totals.map Prod.fst) : governedUnits ctx ps p.2 = 0 := by
  apply governedUnits_eq_zero
  intro q hq hqp
  obtain ⟨t, ht, -, -⟩ := h.complete q hq cap (by rw [hqp, hcap])
  exact hn (List.mem_map.2 ⟨_, ht, by rw [hqp]⟩)

/-- A pair whose rule has a cap adds its units to the rule's total. -/
theorem capped (h : TotalsOf ctx ps totals) (hid : ∀ q ∈ ps, q.2.id = p.2.id → q.2 = p.2)
    (hcap : capOf ctx p.2 = some cap) :
    TotalsOf ctx (ps ++ [p]) (addTotal totals p.2.id (movedUnits ctx p.1) cap) := by
  refine ⟨addTotal_nodup h.nodup, ?_, ?_⟩
  · intro e he
    rcases (mem_addTotal h.nodup).1 he with ⟨he, hk⟩ | ⟨t, ht, rfl⟩ | ⟨hn, rfl⟩
    · obtain ⟨q, hq, hqk, hc, hu⟩ := h.sound e he
      have hne : p.2 ≠ q.2 := fun hpq => hk (by rw [← hqk, hpq])
      exact ⟨q, by simp [hq], hqk, hc, by rw [governedUnits_snoc_of_ne hne, hu]⟩
    · obtain ⟨hc, hu⟩ := h.entry hid hcap ht
      exact ⟨p, by simp, rfl, by rw [hcap, hc], by rw [governedUnits_snoc, hu]⟩
    · exact ⟨p, by simp, rfl, hcap, by rw [governedUnits_snoc, h.fresh hcap hn, Nat.zero_add]⟩
  · intro q hq c hc
    by_cases hqp : p.2 = q.2
    · rw [← hqp, hcap, Option.some.injEq] at hc
      subst hc
      rw [← hqp, governedUnits_snoc]
      by_cases hm : p.2.id ∈ totals.map Prod.fst
      · obtain ⟨⟨k, t⟩, ht, hk⟩ := List.mem_map.1 hm
        simp only at hk
        subst hk
        obtain ⟨htc, hu⟩ := h.entry hid hcap ht
        exact ⟨_, (mem_addTotal h.nodup).2 (Or.inr (Or.inl ⟨t, ht, rfl⟩)), htc, by rw [hu]⟩
      · exact ⟨_, (mem_addTotal h.nodup).2 (Or.inr (Or.inr ⟨hm, rfl⟩)), rfl,
          by rw [h.fresh hcap hm, Nat.zero_add]⟩
    · -- a pair under another rule is an earlier one
      have hq : q ∈ ps := by
        rcases List.mem_append.1 hq with hq | hq
        · exact hq
        · exact absurd (by rw [List.mem_singleton.1 hq]) hqp
      obtain ⟨t, ht, htc, hu⟩ := h.complete q hq c hc
      have hk : q.2.id ≠ p.2.id := fun he => hqp (hid q hq he).symm
      exact ⟨t, (mem_addTotal h.nodup).2 (Or.inl ⟨ht, hk⟩), htc,
        by rw [governedUnits_snoc_of_ne hqp, hu]⟩

/-- Tallying one more pair keeps the totals right, when ids determine rules. -/
theorem addCapped (h : TotalsOf ctx ps totals) (hid : ∀ q ∈ ps, q.2.id = p.2.id → q.2 = p.2) :
    TotalsOf ctx (ps ++ [p]) (Signbox.addCapped ctx totals p) := by
  unfold Signbox.addCapped
  cases hcap : capOf ctx p.2 with
  | none => exact h.uncapped hcap
  | some cap => exact h.capped hid hcap

end TotalsOf

/-- The tally of a list of pairs, from an empty one. -/
theorem tally_eq (ps : List (DecodedAction × PolicyRule)) (t : Tally) :
    ps.foldl (Tally.governed ctx) t = ⟨t.ruleIds ++ ps.map fun p => p.2.id,
      t.quotaDemands ++ ps.filterMap fun p => demandOf ctx p.1 p.2,
      ps.foldl (addCapped ctx) t.perRuleTotals⟩ := by
  induction ps generalizing t with
  | nil => simp
  | cons p ps ih =>
    rw [List.foldl_cons, ih]
    cases hd : demandOf ctx p.1 p.2 <;> simp [Tally.governed, hd]

/-- The running totals are, rule by rule, the sums over the actions that the rule governs. The
induction is over the actions from the back. -/
theorem totals_ok {ps : List (DecodedAction × PolicyRule)}
    (hid : ∀ p ∈ ps, ∀ q ∈ ps, q.2.id = p.2.id → q.2 = p.2) :
    TotalsOf ctx ps (ps.foldl (addCapped ctx) []) := by
  induction ps using List.reverseRecOn with
  | nil => exact ⟨by simp, by simp, by simp⟩
  | append_singleton ps p ih =>
    rw [List.foldl_append]
    refine (ih fun p hp q hq => hid p (by simp [hp]) q (by simp [hq])).addCapped ?_
    exact fun q hq => hid p (by simp) q (by simp [hq])

/-- No running total is over its cap exactly when no rule's actions are. -/
theorem TotalsOf.within_iff {ps : List (DecodedAction × PolicyRule)}
    {totals : List (JsString × RuleTotal)} (h : TotalsOf ctx ps totals)
    (hmem : ∀ p ∈ ps, p.2 ∈ policy.rules) :
    (¬ ∃ t ∈ totals, t.2.units > t.2.cap.units) ↔
      ∀ r ∈ policy.rules, ∀ cap, capOf ctx r = some cap → governedUnits ctx ps r ≤ cap.units := by
  push Not
  constructor
  · intro hle r _ cap hc
    by_cases hr : ∃ p ∈ ps, p.2 = r
    · obtain ⟨p, hp, rfl⟩ := hr
      obtain ⟨t, ht, rfl, hu⟩ := h.complete p hp cap hc
      have hunits : t.units ≤ t.cap.units := hle _ ht
      omega
    · push Not at hr
      rw [governedUnits_eq_zero hr]
      exact Nat.zero_le _
  · intro hle e he
    obtain ⟨p, hp, -, hc, hu⟩ := h.sound e he
    rw [hu]
    exact hle p.2 (hmem p hp) _ hc

/-! ## Evaluation -/

/-- The rules that govern are allow rules of the policy. -/
theorem Governs.forall_mem {actions : List DecodedAction} {gov : List PolicyRule}
    (h : List.Forall₂ (Governs ctx policy) actions gov) :
    ∀ g ∈ gov, g ∈ policy.rules ∧ g.effect = .allow := by
  induction h with
  | nil => simp
  | cons hg _ ih => exact List.forall_mem_cons.2 ⟨⟨hg.mem, hg.allow⟩, ih⟩

/-- The second of a pair is one of the governing rules. -/
theorem snd_mem_of_mem_zip {actions : List DecodedAction} {gov : List PolicyRule}
    {p : DecodedAction × PolicyRule} (hp : p ∈ actions.zip gov) : p.2 ∈ gov :=
  (List.of_mem_zip hp).2

/-- There is one governing rule for each action. -/
theorem map_snd_zip {actions : List DecodedAction} {gov : List PolicyRule}
    (h : List.Forall₂ (Governs ctx policy) actions gov) :
    (actions.zip gov).map (fun p => p.2.id) = gov.map PolicyRule.id := by
  induction h with
  | nil => rfl
  | cons _ _ ih => simp [ih]

/-- The body of `evaluatePolicy` returns exactly the allowances of the policy's meaning, as
far as the limits it needs can be read. -/
theorem evaluateActions_ok (hid : policy.AllowIds) {result : EvaluationResult} :
    evaluateActions tx policy ctx = .ok result ↔ ∃ gov, Allowed ctx policy tx gov ∧
      (∀ g ∈ gov, Readable ctx g) ∧ result = allowance ctx tx gov := by
  have hrules : ∀ {gov}, List.Forall₂ (Governs ctx policy) tx.actions gov →
      ∀ p ∈ tx.actions.zip gov, p.2 ∈ policy.rules ∧ p.2.effect = .allow :=
    fun hgov p hp => Governs.forall_mem hgov p.2 (snd_mem_of_mem_zip hp)
  have htotals : ∀ {gov}, List.Forall₂ (Governs ctx policy) tx.actions gov →
      TotalsOf ctx (tx.actions.zip gov) ((tx.actions.zip gov).foldl (addCapped ctx) []) :=
    fun hgov => totals_ok fun p hp q hq => hid q.2 (hrules hgov q hq).1 p.2 (hrules hgov p hp).1
      (hrules hgov q hq).2 (hrules hgov p hp).2
  have hwithin : ∀ {gov}, List.Forall₂ (Governs ctx policy) tx.actions gov → _ :=
    fun hgov => (htotals hgov).within_iff fun p hp => (hrules hgov p hp).1
  unfold evaluateActions
  simp only [bind_ok, failIf_ok, throwing_ok, tally_ok, pure_eq, Except.ok.injEq]
  constructor
  · rintro ⟨-, hchain, -, hne, -, hauth, denied, hdeny, -, hnd, -, hmax, tally,
      ⟨gov, hgov, hread, hfit, rfl⟩, -, hcap, rfl⟩
    rw [Bool.not_eq_true] at hnd
    subst hnd
    rw [tally_eq] at hcap ⊢
    refine ⟨gov, ⟨by tauto, hne, by push Not at hauth; exact hauth,
      explicitlyDenied_false.1 hdeny, by omega, hgov, hfit, ?_⟩, hread, ?_⟩
    · exact (hwithin hgov).1 hcap
    · simp [allowance, demandsOf, map_snd_zip hgov]
  · rintro ⟨gov, h, hread, rfl⟩
    refine ⟨(), by have := h.chain; tauto, (), h.nonempty, (), ?_, false,
      explicitlyDenied_false.2 h.noDeny, (), by simp, (), by have := h.bounded; omega, _,
      ⟨gov, h.governed, hread, h.limitable, rfl⟩, (), ?_, ?_⟩
    · push Not; exact h.singleAuth
    · rw [tally_eq]
      exact (hwithin h.governed).2 h.capped
    · rw [tally_eq]
      simp [allowance, demandsOf, map_snd_zip h.governed]

/-- In a valid policy allow rules with one id are one rule. -/
theorem Policy.Valid.allowIds (hv : policy.Valid ctx.dialect) : policy.AllowIds :=
  fun _ hr _ hr' _ _ hid => hv.rule_eq hr hr' hid

/-- A transaction that a policy with readable limits allows gets its allowance. -/
theorem Allowed.evaluate (hid : policy.AllowIds) {gov : List PolicyRule}
    (h : Allowed ctx policy tx gov) (hread : ∀ g ∈ gov, Readable ctx g) :
    evaluatePolicy tx policy ctx = allowance ctx tx gov := by
  unfold evaluatePolicy
  rw [(evaluateActions_ok hid).2 ⟨gov, h, hread, rfl⟩]

/-- And the limits of its rules can be read. -/
theorem Policy.Valid.readable (hv : policy.Valid ctx.dialect) {gov : List PolicyRule}
    (h : Allowed ctx policy tx gov) : ∀ g ∈ gov, Readable ctx g :=
  fun g hg => (hv.rules g (Governs.forall_mem h.governed g hg).1).readable

/-- Where the clauses hold, the evaluation is the allowance they describe, demands included. -/
theorem evaluatePolicy_allowed (hv : policy.Valid ctx.dialect) {gov : List PolicyRule}
    (h : Allowed ctx policy tx gov) : evaluatePolicy tx policy ctx = allowance ctx tx gov :=
  h.evaluate hv.allowIds (hv.readable h)

/-- An error is always turned into a refusal. -/
theorem refuseError_eq (error : JsError) :
    ∃ code reason, refuseError ctx error = refuse ctx code reason := by
  cases error <;> exact ⟨_, _, rfl⟩

/-- An evaluation ends in its body's result or in a refusal. -/
theorem evaluatePolicy_cases (tx : DecodedTransaction) (policy : Policy) (ctx : EvaluationContext) :
    (∃ r, evaluateActions tx policy ctx = .ok r ∧
      evaluatePolicy tx policy ctx = r) ∨
    ∃ code reason, evaluatePolicy tx policy ctx = refuse ctx code reason := by
  unfold evaluatePolicy
  cases h : evaluateActions tx policy ctx with
  | ok r => exact Or.inl ⟨r, rfl, rfl⟩
  | error stop =>
    cases stop with
    | refused code reason => exact Or.inr ⟨code, reason, rfl⟩
    | threw error => exact Or.inr (refuseError_eq error)

/-- An allowed transaction met the clauses, for the rules that governed its actions. -/
theorem allowed_of_isAllow (hid : policy.AllowIds)
    (h : (evaluatePolicy tx policy ctx).decision.isAllow) :
    ∃ gov, Allowed ctx policy tx gov ∧ evaluatePolicy tx policy ctx = allowance ctx tx gov := by
  rcases evaluatePolicy_cases tx policy ctx with ⟨r, hr, hres⟩ | ⟨code, reason, hr⟩
  · obtain ⟨gov, hgov, -, rfl⟩ := (evaluateActions_ok hid).1 hr
    exact ⟨gov, hgov, hres⟩
  · rw [hr] at h
    simp [refuse, Decision.isAllow] at h

/-- So the clauses and the verdict agree, both ways. -/
theorem evaluatePolicy_isAllow (hv : policy.Valid ctx.dialect) :
    (evaluatePolicy tx policy ctx).decision.isAllow ↔ ∃ gov, Allowed ctx policy tx gov := by
  constructor
  · intro h
    obtain ⟨gov, hgov, -⟩ := allowed_of_isAllow hv.allowIds h
    exact ⟨gov, hgov⟩
  · rintro ⟨gov, hgov⟩
    rw [evaluatePolicy_allowed hv hgov]
    rfl

/-- **Evaluation meets the meaning.** For every policy `validatePolicy` accepts in the
context's dialect, a transaction is allowed exactly when the policy allows it, and the
result then names the governing rules and demands their windowed limits. -/
theorem evaluate_allows_iff {input : Json} (hval : validatePolicy input ctx.dialect = .ok policy) :
    ((evaluatePolicy tx policy ctx).decision.isAllow ↔ ∃ gov, Allowed ctx policy tx gov) ∧
      ∀ gov, Allowed ctx policy tx gov → evaluatePolicy tx policy ctx = allowance ctx tx gov :=
  ⟨evaluatePolicy_isAllow (validatePolicy_valid hval),
    fun _ => evaluatePolicy_allowed (validatePolicy_valid hval)⟩

namespace Sample

/-- A chain id of the right length. -/
def chainId : JsString := List.replicate 64 (unit 'a')

/-- A text as JSON. -/
def text (s : String) : Json := .str (js s)

/-- A number as JSON. -/
def number (n : ℕ) : Json := .num (.finite (.ofNat n))

/-- A document with these rules, for one chain. -/
def policyDoc (rules : List Json) : Json := .obj .ordinary
  [(js "schemaVersion", number 1), (js "default", text "deny"),
    (js "chain", .obj .ordinary [(js "name", text "xpr"), (js "chainId", .str chainId)]),
    (js "rules", .arr rules)]

/-- The policy with these rules. -/
def policyOf (rules : List PolicyRule) : Policy := ⟨⟨js "xpr", chainId⟩, rules, none⟩

/-- Its document validates when its rules do. -/
theorem schema_policyDoc (rules : List Json) : Schema.policy xprDialect (policyDoc rules) =
    (Schema.array 0 256 (Schema.rule xprDialect) (.arr rules)).bind fun rs =>
      some (policyOf rs) := rfl

/-- A policy with one capped allow rule on transfers. -/
def transferDoc : Json := policyDoc [.obj .ordinary
  [(js "id", text "pay"), (js "effect", text "allow"),
    (js "match", .obj .ordinary [(js "action", text "transfer")]),
    (js "limits", .obj .ordinary [(js "maxPerTransaction", text "5.0000 XPR")])]]

/-- The policy with the one rule for transfers. -/
def transferPolicy : Policy := policyOf
  [⟨js "pay", .allow, [(js "action", .lit (js "transfer"))],
    some ⟨some (js "5.0000 XPR"), none, none, none, none, none, none⟩, none⟩]

/-- A transfer of `2.0000 XPR` by `bot@active`, with these further data fields. -/
def transfer (data : List (JsString × Json)) : DecodedTransaction :=
  ⟨⟨js "xpr", js "testnet", chainId⟩,
    [⟨js "eosio.token", js "transfer", [⟨js "bot", js "active"⟩],
      (js "quantity", .obj .ordinary
        [(js "amount", text "2.0000"), (js "symbol", text "XPR"), (js "precision", number 4)]) ::
      data⟩], none⟩

/-- The context with this evidence. -/
def context (evidence : Option ProviderEvidenceMap) : EvaluationContext :=
  ⟨js "bot", js "active", chainId, 1, xprDialect, evidence⟩

end Sample

/-- The capped transfer is allowed, and so its policy allows it. -/
theorem evaluate_allows_transfer :
    validatePolicy Sample.transferDoc xprDialect = .ok Sample.transferPolicy ∧ ∃ gov,
      Allowed (Sample.context none) Sample.transferPolicy (Sample.transfer []) gov := by
  have hval : validatePolicy Sample.transferDoc (Sample.context none).dialect =
      .ok Sample.transferPolicy := by decide
  exact ⟨hval, (evaluate_allows_iff hval).1.1 (by decide)⟩

end Signbox
