import Signbox.Guard.Keyed
import Signbox.Guard.ShortCircuit
import Signbox.Spec.Decode
import Mathlib.Algebra.Order.BigOperators.Group.List
import Mathlib.Algebra.Order.Ring.Nat

/-!
# What a decoded transaction guarantees

Each action of a decoded transaction carries exactly one authorization
(`decoded_authorization`) and decodes alone as well (`decode_single`): nothing in an
action's decoding looks at the other actions, and one action alone is never larger.
-/

namespace Signbox

open Guard

variable {input : Json} {context : ChainContext} {tx : DecodedTransaction}
  {action : DecodedAction}

/-! ## Sizes -/

theorem length_join (sep : JsString) (s : JsString) (l : List JsString) :
    (JsString.join sep (s :: l)).length = s.length + (l.map fun t => sep.length + t.length).sum := by
  induction l generalizing s with
  | nil => simp [JsString.join]
  | cons t l ih =>
    rw [JsString.join, List.length_append, List.length_append, ih]
    simp only [List.map_cons, List.sum_cons]
    omega

/-- A joined text is at least as long as each of its parts. -/
theorem length_le_join {sep s : JsString} {l : List JsString} (hs : s ∈ l) :
    s.length ≤ (JsString.join sep l).length := by
  cases l with
  | nil => simp at hs
  | cons t l =>
    rw [length_join]
    rcases List.mem_cons.1 hs with rfl | hs
    · omega
    · have hle := List.single_le_sum (l := l.map fun t => sep.length + t.length)
        (fun _ _ => Nat.zero_le _) (sep.length + s.length) (List.mem_map.2 ⟨s, hs, rfl⟩)
      omega

theorem mem_stringifyItems {v : Json} {items : List Json} (hv : v ∈ items) :
    v.stringify ∈ stringifyItems items := by
  induction items with
  | nil => simp at hv
  | cons w items ih =>
    rw [stringifyItems]
    rcases List.mem_cons.1 hv with rfl | hv
    · exact List.mem_cons_self
    · exact List.mem_cons_of_mem _ (ih hv)

theorem mem_stringifyMembers {key : JsString} {v : Json} {ms : List (JsString × Json)}
    (hm : (key, v) ∈ ms) : quote key ++ js ":" ++ v.stringify ∈ stringifyMembers ms := by
  induction ms with
  | nil => simp at hm
  | cons m ms ih =>
    obtain ⟨k, w⟩ := m
    rw [stringifyMembers]
    rcases List.mem_cons.1 hm with heq | hm
    · rw [Prod.mk.injEq] at heq
      rw [heq.1, heq.2]
      exact List.mem_cons_self
    · exact List.mem_cons_of_mem _ (ih hm)

/-- One element alone makes no longer array text. -/
theorem stringify_single_le {v : Json} {items : List Json} (hv : v ∈ items) :
    (Json.arr [v]).stringify.length ≤ (Json.arr items).stringify.length := by
  have hle : v.stringify.length ≤ (JsString.join (js ",") (stringifyItems items)).length :=
    length_le_join (mem_stringifyItems hv)
  simp only [Json.stringify, List.length_append, stringifyItems, JsString.join]
  omega

/-- A member alone makes no longer object text, also when its value has a shorter one. -/
theorem stringify_member_le {key : JsString} {v w : Json} {ms : List (JsString × Json)}
    {proto proto' : Proto} (hm : (key, w) ∈ ms) (hle : v.stringify.length ≤ w.stringify.length) :
    (Json.obj proto [(key, v)]).stringify.length ≤ (Json.obj proto' ms).stringify.length := by
  have hj : _ ≤ (JsString.join (js ",") (stringifyMembers ms)).length :=
    length_le_join (mem_stringifyMembers hm)
  simp only [List.length_append] at hj
  simp only [Json.stringify, List.length_append, stringifyMembers, JsString.join]
  omega

/-! ## Actions -/

/-- The action list of a transaction that passes the schema. -/
theorem transaction_some {raws : List XprActionJson} (h : XprSchema.transaction input = some raws) :
    ∃ proto ms items, input = .obj proto ms ∧ (js "actions", Json.arr items) ∈ ms ∧
      1 ≤ items.length ∧ items.mapM XprSchema.action = some raws := by
  unfold XprSchema.transaction at h
  cases input with
  | obj proto ms =>
    simp only [Option.bind_eq_bind, Option.bind_eq_some_iff] at h
    obtain ⟨-, -, v, hv, h⟩ := h
    unfold XprSchema.actions at h
    cases v with
    | arr items =>
      simp only [Option.bind_eq_bind, Option.bind_eq_some_iff, Option.guard_eq_some'] at h
      obtain ⟨-, ⟨hlen, -⟩, h⟩ := h
      exact ⟨proto, ms, items, rfl, mem_of_lookup hv, hlen, h⟩
    | _ => simp at h
  | _ => simp at h

theorem transaction_single {item : Json} {raw : XprActionJson}
    (h : XprSchema.action item = some raw) :
    XprSchema.transaction (.obj .ordinary [(js "actions", .arr [item])]) = some [raw] := by
  have hclosed : XprSchema.closed [(js "actions", Json.arr [item])] [js "actions"] = true := by
    simp [XprSchema.closed]
  simp [XprSchema.transaction, XprSchema.actions, hclosed, h, guard]

/-- What decoding checks, read backwards. -/
theorem decode_ok (h : decodeXprTransaction input context = .ok tx) :
    input.stringify.length ≤ MAX_INPUT_BYTES ∧ ∃ raws, XprSchema.transaction input = some raws ∧
      raws.mapM normalizeAction = .ok tx.actions ∧ tx.context = context := by
  unfold decodeXprTransaction at h
  split at h
  · simp at h
  · split at h
    · simp at h
    · rename_i hlen
      cases hraw : XprSchema.transaction input with
      | none => simp [hraw] at h
      | some raws =>
        rw [hraw] at h
        obtain ⟨actions, hacts, h⟩ := bind_ok.1 h
        simp only [pure_eq, Except.ok.injEq] at h
        subst h
        exact ⟨by omega, raws, rfl, hacts, rfl⟩

theorem decode_of_transaction {proto : Proto} {ms : List (JsString × Json)}
    {raw : XprActionJson} (hlen : (Json.obj proto ms).stringify.length ≤ MAX_INPUT_BYTES)
    (hraw : XprSchema.transaction (.obj proto ms) = some [raw])
    (hact : normalizeAction raw = .ok action) :
    decodeXprTransaction (.obj proto ms) context = .ok ⟨context, [action], some (.obj proto ms)⟩ := by
  have hnot : ¬ (Json.obj proto ms).stringify.length > MAX_INPUT_BYTES := by omega
  unfold decodeXprTransaction
  simp [hnot, hraw, hact]

/-- Every action of a decoded transaction comes from an item of its own. -/
theorem decode_mem (h : decodeXprTransaction input context = .ok tx) (ha : action ∈ tx.actions) :
    ∃ item raw, XprSchema.action item = some raw ∧ normalizeAction raw = .ok action ∧
      (Json.obj .ordinary [(js "actions", .arr [item])]).stringify.length ≤ MAX_INPUT_BYTES := by
  obtain ⟨hlen, raws, hraws, hacts, -⟩ := decode_ok h
  obtain ⟨raw, hraw, hnorm⟩ := mapM_ok_mem hacts ha
  obtain ⟨proto, ms, items, rfl, hms, -, hitems⟩ := transaction_some hraws
  obtain ⟨item, hitem, hread⟩ := mapM_some_mem hitems hraw
  have hle : (Json.obj .ordinary [(js "actions", .arr [item])]).stringify.length ≤
      (Json.obj proto ms).stringify.length := stringify_member_le hms (stringify_single_le hitem)
  exact ⟨item, raw, hread, hnorm, by omega⟩

/-- **An action of a decoded transaction decodes alone**, in any chain context. This makes every
action of a decoded transaction one that the engine can be asked about by itself. -/
theorem decode_single (h : decodeXprTransaction input context = .ok tx) (ha : action ∈ tx.actions)
    (context' : ChainContext) : ∃ input' source,
      decodeXprTransaction input' context' = .ok ⟨context', [action], source⟩ := by
  obtain ⟨item, raw, hread, hnorm, hlen⟩ := decode_mem h ha
  exact ⟨_, _, decode_of_transaction hlen (transaction_single hread) hnorm⟩

/-- What the schema and the normalizer leave of an action: account-like names and one
authorization. -/
theorem decoded_action (h : decodeXprTransaction input context = .ok tx)
    (ha : action ∈ tx.actions) :
    NAME_PATTERN action.contract = true ∧ action.authorization.length = 1 := by
  obtain ⟨item, raw, hread, hnorm, -⟩ := decode_mem h ha
  unfold normalizeAction at hnorm
  obtain ⟨data, -, hnorm⟩ := bind_ok.1 hnorm
  simp only [pure_eq, Except.ok.injEq] at hnorm
  subst hnorm
  unfold XprSchema.action at hread
  cases item with
  | obj proto ms =>
    simp only [Option.bind_eq_bind, Option.bind_eq_some_iff, Option.pure_def,
      Option.some.injEq] at hread
    obtain ⟨-, -, account, haccount, name, -, auths, hauths, data', -, rfl⟩ := hread
    refine ⟨?_, ?_⟩
    · unfold XprSchema.name at haccount
      simp only [Option.bind_eq_bind, Option.bind_eq_some_iff, Option.guard_eq_some', Option.pure_def,
        Option.some.injEq] at haccount
      obtain ⟨v, -, s, -, -, hp, rfl⟩ := haccount
      exact hp
    · obtain ⟨v, -, hauth⟩ := hauths
      unfold XprSchema.authorizations at hauth
      split at hauth
      · obtain ⟨a, -, rfl⟩ := Option.map_eq_some_iff.1 hauth
        rfl
      · simp at hauth
  | _ => simp at hread

end Signbox
