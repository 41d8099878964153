import Signbox.Proof.OpenSave

/-!
# Which compiled policies the daemon accepts

The validator, on the documents the compiler writes: what each member has to be for the document
to be accepted.

* `accepts_array`, `accepts_matchFields`, `accepts_limits`: the readers, member by member.
* `reads_rule`: when a compiled rule is read as a valid rule.
* `validatePolicy_accepts`: when a compiled policy is accepted.
-/

namespace Signbox

open Guard

/-- A reader takes the document. -/
def Accepts {α : Type} (f : Json → Option α) (v : Json) : Prop := ∃ x, f v = some x

namespace Schema

variable {α : Type} {f : Json → Option α} {ms : List (JsString × Json)} {key : JsString}
variable {lo hi : ℕ} {dialect : PolicyDialect}

/-! ## Leaves and arrays -/

theorem accepts_text {s : JsString} : Accepts (text lo hi) (.str s) ↔
    lo ≤ ucs2length s ∧ ucs2length s ≤ hi := by
  simp [Accepts, text]

theorem accepts_effect {s : JsString} : Accepts effect (.str s) ↔
    s = js "allow" ∨ s = js "deny" := by
  constructor
  · rintro ⟨e, he⟩
    have hs := Json.str.inj (effect_eq he)
    cases e with
    | allow => exact Or.inl hs
    | deny => exact Or.inr hs
  · rintro (rfl | rfl)
    · exact ⟨.allow, rfl⟩
    · exact ⟨.deny, rfl⟩

theorem exists_forall₂ {β γ : Type} {R : β → γ → Prop} {xs : List β} :
    (∃ ys, List.Forall₂ R xs ys) ↔ ∀ x ∈ xs, ∃ y, R x y := by
  constructor
  · rintro ⟨ys, h⟩
    induction h with
    | nil => simp
    | cons hxy _ ih =>
      rw [List.forall_mem_cons]
      exact ⟨⟨_, hxy⟩, ih⟩
  · intro h
    induction xs with
    | nil => exact ⟨[], .nil⟩
    | cons x xs ih =>
      rw [List.forall_mem_cons] at h
      obtain ⟨y, hy⟩ := h.1
      obtain ⟨ys, hys⟩ := ih h.2
      exact ⟨y :: ys, .cons hy hys⟩

theorem accepts_array {vs : List Json} : Accepts (array lo hi f) (.arr vs) ↔
    (lo ≤ vs.length ∧ vs.length ≤ hi) ∧ ∀ v ∈ vs, Accepts f v := by
  have hitems : (∀ v ∈ vs, Accepts f v) ↔ ∃ xs, List.Forall₂ (fun v x => f v = some x) vs xs :=
    exists_forall₂.symm
  rw [hitems]
  constructor
  · rintro ⟨xs, h⟩
    obtain ⟨us, heq, hlen, hxs⟩ := array_iff.1 h
    rw [Json.arr.injEq] at heq
    rw [heq]
    exact ⟨hlen, xs, hxs⟩
  · rintro ⟨hlen, xs, hxs⟩
    exact ⟨xs, array_iff.2 ⟨vs, rfl, hlen, hxs⟩⟩

theorem accepts_texts {ss : List JsString} {n m : ℕ} :
    Accepts (array lo hi (text n m)) (.arr (ss.map .str)) ↔
      (lo ≤ ss.length ∧ ss.length ≤ hi) ∧ ∀ s ∈ ss, n ≤ ucs2length s ∧ ucs2length s ≤ m := by
  simp [accepts_array, accepts_text]

/-! ## Members -/

theorem accepts_required {v : Json} (h : ms.lookup key = some v) :
    (∃ x, required ms key f = some x) ↔ Accepts f v := by
  rw [required, h]
  rfl

/-- A member that may be absent. -/
theorem accepts_optional : (∃ o, Schema.optional ms key f = some o) ↔
    ∀ v, ms.lookup key = some v → Accepts f v := by
  unfold Schema.optional
  cases h : ms.lookup key with
  | none => simp
  | some v => simp [Accepts]

/-! ## Match -/

theorem accepts_matchFields {p : Proto} : Accepts (matchFields dialect) (.obj p ms) ↔
    (1 ≤ ms.length ∧ ms.length ≤ 32) ∧
      ∀ m ∈ ms, dialect.matchPathPattern m.1 = true ∧ Accepts matchValue m.2 := by
  have hfields : (∀ m ∈ ms, dialect.matchPathPattern m.1 = true ∧ Accepts matchValue m.2) ↔
      ∃ fs, List.Forall₂ (FieldRead dialect) ms fs := by
    rw [exists_forall₂]
    refine forall₂_congr fun m _ => ?_
    constructor
    · rintro ⟨hpath, x, hx⟩
      exact ⟨(m.1, x), rfl, hpath, hx⟩
    · rintro ⟨fd, hkey, hpath, hx⟩
      rw [hkey]
      exact ⟨hpath, fd.2, hx⟩
  rw [hfields]
  constructor
  · rintro ⟨fs, h⟩
    obtain ⟨q, ns, heq, hlen, hfs⟩ := matchFields_iff.1 h
    rw [Json.obj.injEq] at heq
    rw [heq.2]
    exact ⟨hlen, fs, hfs⟩
  · rintro ⟨hlen, fs, hfs⟩
    exact ⟨fs, matchFields_iff.2 ⟨p, ms, rfl, hlen, hfs⟩⟩

/-! ## Limits -/

def assetKeys : List JsString := [js "maxPerTransaction", js "maxPerHour", js "maxPerDay"]

def countKeys : List JsString :=
  [js "maxCountPerHour", js "maxCountPerDay", js "maxCountPerRecipientPerHour"]

/-- A member of `limits` that the schema takes. -/
def LimitMember (m : JsString × Json) : Prop :=
  if m.1 ∈ assetKeys then Accepts (text 1 64) m.2
  else if m.1 = js "cooldownPerRecipientMs" then Accepts (integer 0 86400000) m.2
  else m.1 ∈ countKeys ∧ Accepts (integer 1 1000000) m.2

theorem limitMember_asset {key : JsString} {v : Json} (h : key ∈ assetKeys) :
    LimitMember (key, v) ↔ Accepts (text 1 64) v := by
  rw [LimitMember, if_pos h]

theorem limitMember_cooldown {v : Json} :
    LimitMember (js "cooldownPerRecipientMs", v) ↔ Accepts (integer 0 86400000) v := by
  rw [LimitMember, if_neg (show js "cooldownPerRecipientMs" ∉ assetKeys by decide), if_pos rfl]

theorem limitMember_count {key : JsString} {v : Json} (h : key ∈ countKeys) :
    LimitMember (key, v) ↔ Accepts (integer 1 1000000) v := by
  have hother : key ∉ assetKeys ∧ key ≠ js "cooldownPerRecipientMs" := by
    simp only [countKeys, List.mem_cons, List.not_mem_nil, or_false] at h
    rcases h with rfl | rfl | rfl <;> decide
  rw [LimitMember, if_neg hother.1, if_neg hother.2, and_iff_right h]

theorem limitMember_closed {m : JsString × Json} (h : LimitMember m) :
    m.1 ∈ assetKeys ++ js "cooldownPerRecipientMs" :: countKeys := by
  rw [List.mem_append, List.mem_cons]
  by_cases hasset : m.1 ∈ assetKeys
  · exact Or.inl hasset
  by_cases hcooldown : m.1 = js "cooldownPerRecipientMs"
  · exact Or.inr (Or.inl hcooldown)
  · rw [LimitMember, if_neg hasset, if_neg hcooldown] at h
    exact Or.inr (Or.inr h.1)

theorem accepts_limits {p : Proto} (hnd : (ms.map Prod.fst).Nodup) :
    Accepts limits (.obj p ms) ↔ 1 ≤ ms.length ∧ ∀ m ∈ ms, LimitMember m := by
  constructor
  -- each member that is there was read by the field of its key
  · rintro ⟨l, h⟩
    obtain ⟨q, ns, heq, ⟨hclosed, hlen⟩, ha, hb, hc, hd, he, hf, hg⟩ := limits_iff.1 h
    rw [Json.obj.injEq] at heq
    obtain ⟨-, rfl⟩ := heq
    refine ⟨hlen, ?_⟩
    rintro ⟨key, v⟩ hm
    have hv : ms.lookup key = some v := (lookup_iff_mem hnd).2 hm
    have hkey := List.all_eq_true.1 hclosed _ hm
    simp only [List.contains_eq_mem, decide_eq_true_eq, List.mem_cons, List.not_mem_nil,
      or_false] at hkey
    rcases hkey with rfl | rfl | rfl | rfl | rfl | rfl | rfl
    · exact (limitMember_asset (by decide)).2 (accepts_optional.1 ⟨_, ha⟩ v hv)
    · exact (limitMember_asset (by decide)).2 (accepts_optional.1 ⟨_, hb⟩ v hv)
    · exact (limitMember_asset (by decide)).2 (accepts_optional.1 ⟨_, hc⟩ v hv)
    · exact limitMember_cooldown.2 (accepts_optional.1 ⟨_, hd⟩ v hv)
    · exact (limitMember_count (by decide)).2 (accepts_optional.1 ⟨_, he⟩ v hv)
    · exact (limitMember_count (by decide)).2 (accepts_optional.1 ⟨_, hf⟩ v hv)
    · exact (limitMember_count (by decide)).2 (accepts_optional.1 ⟨_, hg⟩ v hv)
  -- conversely no member is of another key, and each field reads its own
  · rintro ⟨hlen, hmembers⟩
    have hclosed : closed ms [js "maxPerTransaction", js "maxPerHour", js "maxPerDay",
        js "cooldownPerRecipientMs", js "maxCountPerHour", js "maxCountPerDay",
        js "maxCountPerRecipientPerHour"] = true := by
      rw [closed, List.all_eq_true]
      intro m hm
      rw [List.contains_iff_mem]
      exact limitMember_closed (hmembers m hm)
    have hasset : ∀ key ∈ assetKeys, ∃ o, Schema.optional ms key (text 1 64) = some o := by
      intro key hkey
      exact accepts_optional.2 fun v hv =>
        (limitMember_asset hkey).1 (hmembers _ (mem_of_lookup hv))
    have hcount : ∀ key ∈ countKeys, ∃ o, Schema.optional ms key (integer 1 1000000) = some o := by
      intro key hkey
      exact accepts_optional.2 fun v hv =>
        (limitMember_count hkey).1 (hmembers _ (mem_of_lookup hv))
    have hcooldown : ∃ o, Schema.optional ms (js "cooldownPerRecipientMs") (integer 0 86400000) =
        some o :=
      accepts_optional.2 fun v hv => limitMember_cooldown.1 (hmembers _ (mem_of_lookup hv))
    -- the seven fields, read one after the other
    obtain ⟨a, ha⟩ := hasset (js "maxPerTransaction") (by decide)
    obtain ⟨b, hb⟩ := hasset (js "maxPerHour") (by decide)
    obtain ⟨c, hc⟩ := hasset (js "maxPerDay") (by decide)
    obtain ⟨d, hd⟩ := hcooldown
    obtain ⟨e, he⟩ := hcount (js "maxCountPerHour") (by decide)
    obtain ⟨f, hf⟩ := hcount (js "maxCountPerDay") (by decide)
    obtain ⟨g, hg⟩ := hcount (js "maxCountPerRecipientPerHour") (by decide)
    exact ⟨⟨a, b, c, d, e, f, g⟩,
      limits_iff.2 ⟨p, ms, rfl, ⟨hclosed, hlen⟩, ha, hb, hc, hd, he, hf, hg⟩⟩

/-! ## Providers -/

theorem accepts_provider {lk n : GraphNode} {select : JsString} :
    Accepts (provider xprDialect) (tableRowProvider lk n select) ↔
      SELECT_FIELD_PATTERN select = true ∧
        (∀ key ∈ [js "contract", js "table", js "key"],
          1 ≤ ucs2length (lk.fields.text key) ∧ ucs2length (lk.fields.text key) ≤ 64) ∧
        1 ≤ ucs2length (n.fields.text (js "value")) ∧
          ucs2length (n.fields.text (js "value")) ≤ 256 := by
  simp only [List.forall_mem_cons, List.not_mem_nil, IsEmpty.forall_iff, implies_true, and_true]
  constructor
  · rintro ⟨q, h⟩
    obtain ⟨-, p, ms, heq, -, -, hargs, hselect, -, hvalue⟩ := provider_iff.1 h
    rw [tableRowProvider, Json.obj.injEq] at heq
    obtain ⟨-, rfl⟩ := heq
    obtain ⟨args, hdoc⟩ := (accepts_required rfl).1 ⟨_, hargs⟩
    obtain ⟨p', ns, hargsEq, -, hcontract, -, htable, hkey⟩ := providerArgs_iff.1 hdoc
    rw [Json.obj.injEq] at hargsEq
    obtain ⟨-, rfl⟩ := hargsEq
    obtain ⟨sel, hsel⟩ := (accepts_required rfl).1 ⟨_, hselect⟩
    obtain ⟨hselEq, hpattern⟩ := pattern_eq hsel
    refine ⟨?_, ⟨accepts_text.1 ((accepts_required rfl).1 ⟨_, hcontract⟩),
      accepts_text.1 ((accepts_required rfl).1 ⟨_, htable⟩),
      accepts_text.1 ((accepts_required rfl).1 ⟨_, hkey⟩)⟩,
      accepts_text.1 ((accepts_required rfl).1 ⟨_, hvalue⟩)⟩
    rw [Json.str.inj hselEq]
    exact hpattern
  · rintro ⟨hselect, ⟨hcontract, htable, hkey⟩, hvalue⟩
    have htext : ∀ {n : ℕ} {s : JsString}, 1 ≤ ucs2length s ∧ ucs2length s ≤ n →
        text 1 n (.str s) = some s := by
      intro n s hs
      rw [text, if_pos hs]
    have hargs : providerArgs (.obj .ordinary [(js "contract", .str (lk.fields.text (js "contract"))),
        (js "scope", .str (lk.fields.text (js "contract"))),
        (js "table", .str (lk.fields.text (js "table"))),
        (js "key", .str (lk.fields.text (js "key")))]) =
          some ⟨lk.fields.text (js "contract"), some (lk.fields.text (js "contract")),
            lk.fields.text (js "table"), lk.fields.text (js "key")⟩ :=
      providerArgs_iff.2 ⟨.ordinary, _, rfl, rfl, required_doc rfl (htext hcontract),
        optional_doc (o := some (lk.fields.text (js "contract"))) rfl fun x hx => by
          rw [← Option.some.inj hx]
          exact htext hcontract,
        required_doc rfl (htext htable), required_doc rfl (htext hkey)⟩
    have hpattern : pattern xprDialect.selectFieldPattern (.str select) = some select := by
      rw [pattern]
      exact if_pos hselect
    exact ⟨⟨js "xpr.rpc.tableRow", _, select, .contains, n.fields.text (js "value")⟩,
      provider_iff.2 ⟨rfl, .ordinary, _, rfl, rfl, required_doc rfl rfl, required_doc rfl hargs,
        required_doc rfl hpattern, required_doc rfl rfl, required_doc rfl (htext hvalue)⟩⟩

/-! ## Rules -/

/-- A bound on the amounts of a compiled rule that the dialect can read. -/
def Parses (l : List (JsString × Json)) : Prop :=
  ∀ key ∈ assetKeys, ∀ s, l.lookup key = some (.str s) → ∃ a, parseAsset s = .ok a

theorem parses_iff {l : List (JsString × Json)} {x : RuleLimits}
    (h : limits (.obj .ordinary l) = some x) :
    Parses l ↔ ∀ f ∈ x.assets, ∀ raw, f.2 = some raw → ∃ a, parseAsset raw = .ok a := by
  obtain ⟨p, ms, heq, -, ha, hb, hc, -⟩ := limits_iff.1 h
  rw [Json.obj.injEq] at heq
  obtain ⟨-, rfl⟩ := heq
  have hstr : ∀ {o : Option JsString} {s : JsString}, o.map Json.str = some (.str s) ↔ o = some s := by
    intro o s
    cases o <;> simp
  simp only [Parses, assetKeys, RuleLimits.assets, List.forall_mem_cons, List.not_mem_nil,
    IsEmpty.forall_iff, implies_true, and_true, optional_text ha, optional_text hb,
    optional_text hc, hstr]

theorem toJson_closed (r : CompiledRule) : ∃ ms, r.toJson = .obj .ordinary ms ∧
    closed ms [js "id", js "effect", js "match", js "limits", js "providers"] = true ∧
    ms.lookup (js "id") = some (.str r.id) ∧ ms.lookup (js "effect") = some (.str r.effect) ∧
    ms.lookup (js "match") = some (.obj .ordinary r.matchOn) ∧
    ms.lookup (js "limits") = r.limits.map (Json.obj .ordinary) ∧
    ms.lookup (js "providers") = r.providers.map Json.arr := by
  obtain ⟨id, e, m, l, ps⟩ := r
  refine ⟨_, rfl, ?_⟩
  cases l <;> cases ps <;> exact ⟨rfl, rfl, rfl, rfl, rfl, rfl⟩

/-- A member that is written when there is a value. -/
theorem optional_map {β : Type} {o : Option β} {doc : β → Json} (h : ms.lookup key = o.map doc)
    {x : Option α} : Schema.optional ms key f = some x ↔
      Option.Rel (fun b a => f (doc b) = some a) o x := by
  rw [Schema.optional, h]
  cases o with
  | none => cases x <;> simp
  | some b => cases x <;> simp

/-- What the schema reads of a compiled rule. -/
theorem rule_toJson {r : CompiledRule} {q : PolicyRule} : rule xprDialect r.toJson = some q ↔
    (ruleIdPattern r.id = true ∧ r.id = q.id) ∧ effect (.str r.effect) = some q.effect ∧
      matchFields xprDialect (.obj .ordinary r.matchOn) = some q.matchOn ∧
      Option.Rel (fun l x => limits (.obj .ordinary l) = some x) r.limits q.limits ∧
      Option.Rel (fun ps x => array 1 8 (provider xprDialect) (.arr ps) = some x)
        r.providers q.providers := by
  obtain ⟨ms, hdoc, hclosed, hid, heffect, hmatch, hlimits, hproviders⟩ := toJson_closed r
  have hmembers : rule xprDialect r.toJson = some q ↔
      required ms (js "id") (pattern ruleIdPattern) = some q.id ∧
      required ms (js "effect") effect = some q.effect ∧
      required ms (js "match") (matchFields xprDialect) = some q.matchOn ∧
      Schema.optional ms (js "limits") limits = some q.limits ∧
      Schema.optional ms (js "providers") (array 1 8 (provider xprDialect)) =
        some q.providers := by
    rw [rule_iff]
    constructor
    · rintro ⟨p, ns, heq, -, h⟩
      rw [hdoc, Json.obj.injEq] at heq
      rw [heq.2]
      exact h
    · intro h
      exact ⟨.ordinary, ms, hdoc, hclosed, h⟩
  have hpattern : pattern ruleIdPattern (.str r.id) = some q.id ↔
      ruleIdPattern r.id = true ∧ r.id = q.id := by
    simp [pattern]
  rw [hmembers, required, required, required, hid, heffect, hmatch, Option.bind_some,
    Option.bind_some, Option.bind_some, hpattern, optional_map hlimits, optional_map hproviders]

/-- **When a compiled rule is read as a valid rule**, member by member. Limits are refused under a
deny rule, and a rule that has providers needs between one and eight of them. -/
theorem reads_rule {r : CompiledRule} :
    (∃ q, rule xprDialect r.toJson = some q ∧ q.Valid xprDialect) ↔
      ruleIdPattern r.id = true ∧ (r.effect = js "allow" ∨ r.effect = js "deny") ∧
        Accepts (matchFields xprDialect) (.obj .ordinary r.matchOn) ∧
        (∀ l, r.limits = some l → r.effect ≠ js "deny" ∧ Accepts limits (.obj .ordinary l) ∧
          Parses l) ∧
        ∀ ps, r.providers = some ps → Accepts (array 1 8 (provider xprDialect)) (.arr ps) := by
  constructor
  -- what is read satisfies the schema, and its validity adds the rest
  · rintro ⟨q, hread, hvalid⟩
    obtain ⟨⟨hpattern, -⟩, heffect, hmatch, hlimits, hproviders⟩ := rule_toJson.1 hread
    refine ⟨hpattern, accepts_effect.1 ⟨_, heffect⟩, ⟨_, hmatch⟩, ?_, ?_⟩
    · intro l hl
      rw [hl] at hlimits
      generalize hx : q.limits = o at hlimits
      cases hlimits with
      | @some _ x h =>
        refine ⟨?_, ⟨x, h⟩, (parses_iff h).2 (hvalid.parses x hx)⟩
        intro hdeny
        rw [hdeny] at heffect
        have hnone := hvalid.denyUnlimited (Option.some.inj heffect).symm
        rw [hx] at hnone
        cases hnone
    · intro ps hps
      rw [hps] at hproviders
      generalize q.providers = o at hproviders
      cases hproviders with
      | some h => exact ⟨_, h⟩
  -- conversely each part that is accepted is read as something, and these make up the rule
  · rintro ⟨hpattern, heffect, ⟨m, hm⟩, hlimits, hproviders⟩
    obtain ⟨e, he⟩ := accepts_effect.2 heffect
    obtain ⟨l, hl, hvalid⟩ : ∃ l, Option.Rel (fun l x => limits (.obj .ordinary l) = some x)
        r.limits l ∧ (e = .deny → l = none) ∧
          ∀ x, l = some x → ∀ f ∈ x.assets, ∀ raw, f.2 = some raw →
            ∃ a, parseAsset raw = .ok a := by
      cases hdoc : r.limits with
      | none => exact ⟨none, .none, fun _ => rfl, by simp⟩
      | some l =>
        obtain ⟨hallow, ⟨x, hx⟩, hparses⟩ := hlimits l hdoc
        refine ⟨some x, .some hx, ?_, ?_⟩
        · rintro rfl
          exact absurd (Json.str.inj (effect_eq he)) hallow
        · intro y hy
          rw [← Option.some.inj hy]
          exact (parses_iff hx).1 hparses
    obtain ⟨ps, hps⟩ : ∃ ps, Option.Rel (fun ps x => array 1 8 (provider xprDialect) (.arr ps) =
        some x) r.providers ps := by
      cases hdoc : r.providers with
      | none => exact ⟨none, .none⟩
      | some ps =>
        obtain ⟨x, hx⟩ := hproviders ps hdoc
        exact ⟨some x, .some hx⟩
    exact ⟨⟨r.id, e, m, l, ps⟩, rule_toJson.2 ⟨⟨hpattern, rfl⟩, he, hm, hl, hps⟩,
      hvalid.1, hvalid.2⟩

/-! ## Policies -/

theorem policy_toJson {P : CompiledPolicy} {p : Policy} :
    policy xprDialect P.toJson = some p ↔ P.default = js "deny" ∧
      chain xprDialect (.obj .ordinary [(js "name", .str (js "XPR")),
        (js "chainId", .str P.chainId)]) = some p.chain ∧
      array 0 256 (rule xprDialect) (.arr (P.rules.map CompiledRule.toJson)) = some p.rules ∧
      (integer 1 64 (.num P.maxActionsPerTransaction)).map some =
        some p.maxActionsPerTransaction := by
  rw [policy_iff]
  have hdefault : const (js "deny") (.str P.default) = some () ↔ P.default = js "deny" := by
    simp [const]
  constructor
  · rintro ⟨q, ms, heq, -, -, hconst, hchain, hrules, hmax⟩
    rw [CompiledPolicy.toJson, Json.obj.injEq] at heq
    obtain ⟨-, rfl⟩ := heq
    exact ⟨hdefault.1 hconst, hchain, hrules, hmax⟩
  · rintro ⟨hconst, hchain, hrules, hmax⟩
    exact ⟨.ordinary, _, rfl, rfl, required_doc rfl rfl, required_doc rfl (hdefault.2 hconst),
      required_doc rfl hchain, required_doc rfl hrules, hmax⟩

/-- **When a compiled policy is accepted**: deny by default, a chain id of the right form, a count
of actions in range, at most 256 rules that are read as valid ones, and no rule id twice. -/
theorem validatePolicy_accepts {P : CompiledPolicy} :
    (∃ p, validatePolicy P.toJson xprDialect = .ok p) ↔ P.default = js "deny" ∧
      CHAIN_ID_PATTERN P.chainId = true ∧
      Accepts (integer 1 64) (.num P.maxActionsPerTransaction) ∧ P.rules.length ≤ 256 ∧
      (∀ r ∈ P.rules, ∃ q, rule xprDialect r.toJson = some q ∧ q.Valid xprDialect) ∧
      (P.rules.map CompiledRule.id).Nodup := by
  have hchain : ∀ {c : PolicyChain}, chain xprDialect (.obj .ordinary [(js "name",
      .str (js "XPR")), (js "chainId", .str P.chainId)]) = some c → CHAIN_ID_PATTERN P.chainId := by
    intro c hc
    obtain ⟨q, ms, heq, -, -, hid⟩ := chain_iff.1 hc
    rw [Json.obj.injEq] at heq
    obtain ⟨-, rfl⟩ := heq
    obtain ⟨s, hs⟩ := (accepts_required rfl).1 ⟨_, hid⟩
    obtain ⟨heq, hpattern⟩ := pattern_eq hs
    rw [Json.str.inj heq]
    exact hpattern
  have hids : ∀ {rs : List CompiledRule} {qs : List PolicyRule},
      List.Forall₂ (fun r q => rule xprDialect r.toJson = some q) rs qs →
        qs.map PolicyRule.id = rs.map CompiledRule.id := by
    intro rs qs h
    induction h with
    | nil => rfl
    | cons hrq _ ih => rw [List.map_cons, List.map_cons, ih, ← (rule_toJson.1 hrq).1.2]
  constructor
  · rintro ⟨p, h⟩
    obtain ⟨hread, hvalid⟩ := validatePolicy_ok.1 h
    obtain ⟨hdefault, hc, hrules, hmax⟩ := policy_toJson.1 hread
    obtain ⟨hnd, -, hvs⟩ := validateRules_ok.1 hvalid
    obtain ⟨us, heq, hlen, hqs⟩ := array_iff.1 hrules
    rw [Json.arr.injEq] at heq
    rw [← heq, List.forall₂_map_left_iff] at hqs
    obtain ⟨n, hn, -⟩ := Option.map_eq_some_iff.1 hmax
    refine ⟨hdefault, hchain hc, ⟨n, hn⟩, by simpa [← heq] using hlen, ?_, by rwa [← hids hqs]⟩
    intro r hr
    obtain ⟨q, hq, hrq⟩ := forall₂_right (R := flip _) hqs.flip hr
    exact ⟨q, hrq, hvs q hq⟩
  · rintro ⟨hdefault, hid, ⟨n, hn⟩, hlen, hrules, hnd⟩
    obtain ⟨qs, hqs⟩ := exists_forall₂.2 hrules
    have hreads := hqs.imp fun r q h => h.1
    refine ⟨⟨⟨js "XPR", P.chainId⟩, qs, some n⟩, validatePolicy_ok.2 ⟨policy_toJson.2
      ⟨hdefault, ?_, array_iff.2 ⟨_, rfl, by simpa using hlen, ?_⟩, by rw [hn]; rfl⟩,
      validateRules_ok.2 ⟨?_, by simp, ?_⟩⟩⟩
    · refine chain_iff.2 ⟨.ordinary, _, rfl, rfl, required_doc rfl rfl, required_doc rfl ?_⟩
      rw [pattern]
      exact if_pos hid
    · rwa [List.forall₂_map_left_iff]
    · rw [hids hreads]
      exact hnd
    · intro q hq
      obtain ⟨r, -, -, hv⟩ := forall₂_right hqs hq
      exact hv

end Schema

end Signbox
