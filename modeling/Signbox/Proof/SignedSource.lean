import Signbox.Proof.AssetText
import Signbox.Proof.Canonical
import Signbox.Proof.Decoded

/-!
# What is inspected and what is signed

The policy sees the normalized data, the signer the data as it was given. Normalizing replaces an
asset text by an object, so a text and the object it is replaced by look the same to the policy.
Nothing else does.

* `Mixed`: one value has an asset text where the other has an object.
* `normalizeValue_same`: values that look the same and are not mixed are the same.
* `source_determined`: the decoded actions determine the source exactly when the two
  transactions are not mixed.
* `WrittenOut.not_determined`: a quantity as a text and written out as an object.
-/

namespace Signbox

open Guard

/-! ## Normalized values -/

/-- What a value is normalized to, one step deep. Only an asset text becomes something of another
kind. -/
inductive Normalized (depth : ℕ) : Json → Json → Prop
  | null : Normalized depth .null .null
  | bool (b : Bool) : Normalized depth (.bool b) (.bool b)
  | num (x : JsNumber) : Normalized depth (.num x) (.num x)
  | text {s : JsString} : matchAsset s = none → Normalized depth (.str s) (.str s)
  | asset {s int symbol : JsString} {frac : Option JsString} :
      matchAsset s = some (int, frac, symbol) →
      Normalized depth (.str s) (.obj .ordinary [(js "amount", .str (bareText int frac)),
        (js "symbol", .str symbol),
        (js "precision", .num (.finite (.ofNat (fraction frac).length)))])
  | arr {vs ws : List Json} : List.Forall₂ (fun v w => normalizeValue (depth + 1) v = .ok w) vs ws →
      Normalized depth (.arr vs) (.arr ws)
  | obj {p : Proto} {ms ns : List (JsString × Json)} :
      (∀ k, Option.Rel (fun v w => normalizeValue (depth + 1) v = .ok w) (ms.lookup k)
        (ns.lookup k)) → Normalized depth (.obj p ms) (.obj .bare ns)

theorem normalizeItems_ok {depth : ℕ} : ∀ {vs ws : List Json}, normalizeItems depth vs = .ok ws →
    List.Forall₂ (fun v w => normalizeValue (depth + 1) v = .ok w) vs ws
  | [], ws, h => by
    obtain rfl : [] = ws := Except.ok.inj h
    exact .nil
  | v :: vs, ws, h => by
    simp only [normalizeItems, bind_ok, pure_eq, Except.ok.injEq] at h
    obtain ⟨w, hw, ws, hws, rfl⟩ := h
    exact .cons hw (normalizeItems_ok hws)

theorem normalizeValue_cases {depth : ℕ} {v w : Json} (h : normalizeValue depth v = .ok w) :
    Normalized depth v w := by
  have hdepth : ¬ depth > MAX_DATA_DEPTH := by
    intro hdeep
    cases v <;> simp [normalizeValue, hdeep] at h
  cases v with
  | null =>
    simp only [normalizeValue, hdepth, if_false, Except.ok.injEq] at h
    exact h ▸ .null
  | bool b =>
    simp only [normalizeValue, hdepth, if_false, Except.ok.injEq] at h
    exact h ▸ .bool b
  | num x =>
    cases x with
    | finite d =>
      simp only [normalizeValue, hdepth, if_false, Except.ok.injEq] at h
      exact h ▸ .num _
    | infinite neg => simp [normalizeValue, hdepth] at h
  | str s =>
    simp only [normalizeValue, hdepth, if_false, Except.ok.injEq] at h
    rw [← h]
    cases hm : matchAsset s with
    | none =>
      have hkept : expandAssetString s = .str s := by rw [expandAssetString, hm]
      rw [hkept]
      exact .text hm
    | some m =>
      rw [expandAssetString_asset hm]
      exact .asset hm
  | arr vs =>
    simp only [normalizeValue, hdepth, if_false, bind_ok, pure_eq, Except.ok.injEq] at h
    obtain ⟨ws, hws, rfl⟩ := h
    exact .arr (normalizeItems_ok hws)
  | obj p ms =>
    simp only [normalizeValue, hdepth, if_false, bind_ok, pure_eq, Except.ok.injEq] at h
    obtain ⟨ns, hns, rfl⟩ := h
    exact .obj fun k => normalizeMembers_lookup k hns

/-! ## Values that look the same -/

/-- Somewhere in two values one has an asset text and the other an object. It is the only way in
which two sources that look the same can differ. -/
inductive Mixed : Json → Json → Prop
  | left {s : JsString} {p : Proto} {ms : List (JsString × Json)} :
      (matchAsset s).isSome → Mixed (.str s) (.obj p ms)
  | right {s : JsString} {p : Proto} {ms : List (JsString × Json)} :
      (matchAsset s).isSome → Mixed (.obj p ms) (.str s)
  | item {us vs : List Json} {u v : Json} : (u, v) ∈ us.zip vs → Mixed u v →
      Mixed (.arr us) (.arr vs)
  | member {p q : Proto} {ms ns : List (JsString × Json)} {k : JsString} {u v : Json} :
      ms.lookup k = some u → ns.lookup k = some v → Mixed u v → Mixed (.obj p ms) (.obj q ns)

/-- Equal values are not mixed. -/
theorem Mixed.not_same {u v : Json} (h : Mixed u v) : ¬ u.Same v := by
  induction h with
  | left _ =>
    intro hsame
    cases hsame
  | right _ =>
    intro hsame
    cases hsame
  | item hmem _ ih =>
    intro hsame
    cases hsame with
    | arr hitems => exact ih ((List.forall₂_iff_zip.1 hitems).2 hmem)
  | member hu hv _ ih => exact fun hsame => ih (hsame.at hu hv)

/-- What looks like this value and is not mixed with it is equal to it. It is shown by induction on
values. -/
def Seen (u : Json) : Prop :=
  ∀ (depth : ℕ) (v u' v' : Json), normalizeValue depth u = .ok u' →
    normalizeValue depth v = .ok v' → u'.Same v' → ¬ Mixed u v → u.Same v

theorem items_same {depth : ℕ} {us us' : List Json}
    (hus : List.Forall₂ (fun v w => normalizeValue depth v = .ok w) us us')
    (hseen : ∀ u ∈ us, Seen u) : ∀ {vs vs' : List Json},
      List.Forall₂ (fun v w => normalizeValue depth v = .ok w) vs vs' →
      List.Forall₂ Json.Same us' vs' → (∀ p ∈ us.zip vs, ¬ Mixed p.1 p.2) →
      List.Forall₂ Json.Same us vs := by
  induction hus with
  | nil =>
    intro vs vs' hvs hsame _
    cases hsame
    cases hvs
    exact .nil
  | cons hu _ ih =>
    intro vs vs' hvs hsame hmixed
    cases hsame with
    | cons hs hss =>
      cases hvs with
      | cons hv hvs =>
        refine .cons (hseen _ (by simp) _ _ _ _ hu hv hs (hmixed (_, _) (by simp))) ?_
        exact ih (fun u hu => hseen u (List.mem_cons_of_mem _ hu)) hvs hss
          fun p hp => hmixed p (List.mem_cons_of_mem _ hp)

theorem asset_same {s t int int' symbol symbol' : JsString} {frac frac' : Option JsString}
    (hs : matchAsset s = some (int, frac, symbol)) (ht : matchAsset t = some (int', frac', symbol'))
    (hamount : bareText int frac = bareText int' frac') (hsymbol : symbol = symbol') : s = t := by
  obtain ⟨-, -, -, htext⟩ := matchAsset_iff.1 hs
  obtain ⟨-, -, -, htext'⟩ := matchAsset_iff.1 ht
  rw [htext, htext', hamount, hsymbol]

theorem rel_of_rel {α β γ δ : Type} {R : α → β → Prop} {R' : γ → δ → Prop} {S : β → δ → Prop}
    {T : α → γ → Prop} {a : Option α} {b : Option β} {c : Option γ} {d : Option δ}
    (hab : Option.Rel R a b) (hcd : Option.Rel R' c d) (hbd : Option.Rel S b d)
    (hT : ∀ u v u' v', a = some u → c = some v → R u u' → R' v v' → S u' v' → T u v) :
    Option.Rel T a c := by
  cases hab with
  | none =>
    cases hbd
    cases hcd
    exact .none
  | some hu =>
    cases hbd with
    | some hs =>
      cases hcd with
      | some hv => exact .some (hT _ _ _ _ rfl rfl hu hv hs)

mutual
/-- **Normalizing tells apart what is not mixed.** The only two values that are normalized to the
same one and differ are a text of an asset and the object it is expanded to. -/
theorem normalizeValue_same : ∀ u : Json, Seen u
  | .null => by
    intro depth v u' v' hu hv hsame _
    cases normalizeValue_cases hu
    cases hsame
    cases normalizeValue_cases hv
    exact .null
  | .bool b => by
    intro depth v u' v' hu hv hsame _
    cases normalizeValue_cases hu
    cases hsame
    cases normalizeValue_cases hv
    exact .bool b
  | .num x => by
    intro depth v u' v' hu hv hsame _
    cases normalizeValue_cases hu
    cases hsame
    cases normalizeValue_cases hv
    exact .num x
  | .str s => by
    intro depth v u' v' hu hv hsame hmixed
    cases normalizeValue_cases hu with
    | text hs =>
      cases hsame
      cases normalizeValue_cases hv
      exact .str s
    | asset hs =>
      cases normalizeValue_cases hv with
      | asset ht =>
        have hamount := (hsame.at (k := js "amount") rfl rfl).str_eq
        have hsymbol := (hsame.at (k := js "symbol") rfl rfl).str_eq
        rw [asset_same hs ht hamount hsymbol]
        exact .str _
      | obj _ => exact absurd (.left (by rw [hs]; rfl)) hmixed
      | _ => cases hsame
  | .arr us => by
    intro depth v u' v' hu hv hsame hmixed
    cases normalizeValue_cases hu with
    | arr hus =>
      cases hsame with
      | arr hitems =>
        cases normalizeValue_cases hv with
        | arr hvs =>
          exact .arr (items_same hus (items_seen us) hvs hitems
            fun p hp hmix => hmixed (.item hp hmix))
  | .obj p ms => by
    intro depth v u' v' hu hv hsame hmixed
    cases normalizeValue_cases hu with
    | obj hms =>
      cases normalizeValue_cases hv with
      | asset ht => exact absurd (.right (by rw [ht]; rfl)) hmixed
      | @obj q ns ns' hns =>
        refine .obj fun k => ?_
        refine rel_of_rel (hms k) (hns k) (hsame.rel k) fun u v u' v' hmk hnk hu hv hsame => ?_
        exact members_seen ms (k, u) (mem_of_lookup hmk) _ v u' v' hu hv hsame
          fun hmix => hmixed (.member hmk hnk hmix)
      | _ => cases hsame

theorem items_seen : ∀ us : List Json, ∀ u ∈ us, Seen u
  | [] => by simp
  | u :: us => by
    intro w hw
    rcases List.mem_cons.1 hw with heq | hw
    · rw [heq]
      exact normalizeValue_same u
    · exact items_seen us w hw

theorem members_seen : ∀ ms : List (JsString × Json), ∀ m ∈ ms, Seen m.2
  | [] => by simp
  | (k, u) :: ms => by
    intro w hw
    rcases List.mem_cons.1 hw with heq | hw
    · rw [heq]
      exact normalizeValue_same u
    · exact members_seen ms w hw
end

/-! ## Transactions -/

/-- Decoded actions that are equal, their data as JSON values. -/
structure DecodedAction.Same (a b : DecodedAction) : Prop where
  contract : a.contract = b.contract
  action : a.action = b.action
  authorization : a.authorization = b.authorization
  data : (Json.obj .bare a.data).Same (.obj .bare b.data)

/-- What an accepted transaction is made of, and what is signed. -/
theorem decode_source {input : Json} {context : ChainContext} {tx : DecodedTransaction}
    (h : decodeXprTransaction input context = .ok tx) : ∃ raws,
      XprSchema.transaction input = some raws ∧ raws.mapM normalizeAction = .ok tx.actions ∧
        tx.source = some input := by
  unfold decodeXprTransaction at h
  split at h
  · cases h
  · split at h
    · cases h
    · cases hraw : XprSchema.transaction input with
      | none =>
        rw [hraw] at h
        cases h
      | some raws =>
        simp only [hraw, bind_ok, pure_eq, Except.ok.injEq] at h
        obtain ⟨actions, hactions, rfl⟩ := h
        exact ⟨raws, rfl, hactions, rfl⟩

/-- Closed objects are equal when they agree on the keys they may have. -/
theorem closed_same {p q : Proto} {ms ns : List (JsString × Json)} {allowed : List JsString}
    (hms : XprSchema.closed ms allowed = true) (hns : XprSchema.closed ns allowed = true)
    (h : ∀ k ∈ allowed, Option.Rel Json.Same (ms.lookup k) (ns.lookup k)) :
    (Json.obj p ms).Same (.obj q ns) := by
  have hnone : ∀ {l : List (JsString × Json)} {k : JsString}, XprSchema.closed l allowed = true →
      k ∉ allowed → l.lookup k = none := by
    intro l k hclosed hk
    cases hlook : l.lookup k with
    | none => rfl
    | some v =>
      have hmem := List.all_eq_true.1 hclosed _ (mem_of_lookup hlook)
      exact absurd (by simpa using hmem) hk
  refine .obj fun k => ?_
  by_cases hk : k ∈ allowed
  · exact h k hk
  · rw [hnone hms hk, hnone hns hk]
    exact .none

theorem name_lookup {ms : List (JsString × Json)} {key s : JsString} {pattern : JsString → Bool}
    (h : XprSchema.name ms key pattern = some s) : ms.lookup key = some (.str s) := by
  simp only [XprSchema.name, Option.bind_eq_bind, Option.bind_eq_some_iff, Option.guard_eq_some',
    Option.pure_def, Option.some.injEq] at h
  obtain ⟨v, hv, t, ht, -, -, rfl⟩ := h
  cases v with
  | str u =>
    obtain rfl : u = t := Option.some.inj ht
    exact hv
  | _ => cases ht

theorem authorization_same {u v : Json} {a : AccountIdentity}
    (hu : XprSchema.authorization u = some a) (hv : XprSchema.authorization v = some a) :
    u.Same v := by
  have hread : ∀ {w : Json}, XprSchema.authorization w = some a → ∃ p ms, w = .obj p ms ∧
      XprSchema.closed ms [js "actor", js "permission"] = true ∧
      ms.lookup (js "actor") = some (.str a.accountIdentifier) ∧
      ms.lookup (js "permission") = some (.str a.permission) := by
    intro w hw
    cases w with
    | obj p ms =>
      simp only [XprSchema.authorization, Option.bind_eq_bind, Option.bind_eq_some_iff,
        Option.guard_eq_some', Option.pure_def, Option.some.injEq] at hw
      obtain ⟨-, hclosed, actor, hactor, permission, hpermission, rfl⟩ := hw
      exact ⟨p, ms, rfl, hclosed, name_lookup hactor, name_lookup hpermission⟩
    | _ => cases hw
  obtain ⟨p, ms, rfl, hclosed, hactor, hpermission⟩ := hread hu
  obtain ⟨q, ns, rfl, hclosed', hactor', hpermission'⟩ := hread hv
  refine closed_same hclosed hclosed' fun k hk => ?_
  simp only [List.mem_cons, List.not_mem_nil, or_false] at hk
  rcases hk with rfl | rfl
  · rw [hactor, hactor']
    exact .some (.str _)
  · rw [hpermission, hpermission']
    exact .some (.str _)

/-- The parts of an action. -/
theorem action_parts {item : Json} {raw : XprActionJson} (h : XprSchema.action item = some raw) :
    ∃ p ms q auth, item = .obj p ms ∧
      XprSchema.closed ms [js "account", js "name", js "authorization", js "data"] = true ∧
      ms.lookup (js "account") = some (.str raw.account) ∧
      ms.lookup (js "name") = some (.str raw.name) ∧
      (ms.lookup (js "authorization") = some (.arr [auth]) ∧
        ∃ a, XprSchema.authorization auth = some a ∧ raw.authorization = [a]) ∧
      ms.lookup (js "data") = some (.obj q raw.data) := by
  cases item with
  | obj p ms =>
    simp only [XprSchema.action, Option.bind_eq_bind, Option.bind_eq_some_iff,
      Option.guard_eq_some', Option.pure_def, Option.some.injEq] at h
    obtain ⟨-, hclosed, account, haccount, name, hname, auths, ⟨v, hv, hauths⟩, data,
      ⟨w, hw, hdata⟩, rfl⟩ := h
    unfold XprSchema.authorizations at hauths
    split at hauths
    next auth =>
      obtain ⟨a, ha, rfl⟩ := Option.map_eq_some_iff.1 hauths
      cases w with
      | obj q ns =>
        obtain rfl : ns = data := Option.some.inj hdata
        exact ⟨p, ms, q, auth, rfl, hclosed, name_lookup haccount, name_lookup hname,
          ⟨hv, a, ha, rfl⟩, hw⟩
      | _ => cases hdata
    next => cases hauths
  | _ => cases h

/-- **Equal decoded actions that are not mixed** come from equal ones: account, name and
authorizations are read as they stand, and the data was told apart already. -/
theorem action_same {item item' : Json} {raw raw' : XprActionJson} {a b : DecodedAction}
    (hitem : XprSchema.action item = some raw) (hitem' : XprSchema.action item' = some raw')
    (hraw : normalizeAction raw = .ok a) (hraw' : normalizeAction raw' = .ok b) (hsame : a.Same b)
    (hmixed : ¬ Mixed item item') : item.Same item' := by
  obtain ⟨p, ms, q, auth, rfl, hclosed, haccount, hname, ⟨hauth, x, hx, hauths⟩, hdata⟩ :=
    action_parts hitem
  obtain ⟨p', ns, q', auth', rfl, hclosed', haccount', hname', ⟨hauth', x', hx', hauths'⟩,
    hdata'⟩ := action_parts hitem'
  simp only [normalizeAction, bind_ok, pure_eq, Except.ok.injEq] at hraw hraw'
  obtain ⟨data, hnorm, rfl⟩ := hraw
  obtain ⟨data', hnorm', rfl⟩ := hraw'
  obtain ⟨hcontract, haction, hauthorization, hdatas⟩ := hsame
  have hobj : ∀ {q : Proto} {ms ns : List (JsString × Json)}, normalizeMembers 0 ms = .ok ns →
      normalizeValue 0 (.obj q ms) = .ok (.obj .bare ns) := by
    intro q ms ns h
    simp [normalizeValue, h]
  have hvalue : (Json.obj q raw.data).Same (.obj q' raw'.data) := by
    refine normalizeValue_same _ 0 _ _ _ (hobj hnorm) (hobj hnorm') hdatas fun hmix => ?_
    exact hmixed (.member hdata hdata' hmix)
  refine closed_same hclosed hclosed' fun k hk => ?_
  simp only [List.mem_cons, List.not_mem_nil, or_false] at hk
  rcases hk with rfl | rfl | rfl | rfl
  · have heq : raw.account = raw'.account := hcontract
    rw [haccount, haccount', heq]
    exact .some (.str _)
  · have heq : raw.name = raw'.name := haction
    rw [hname, hname', heq]
    exact .some (.str _)
  · have heq : raw.authorization = raw'.authorization := hauthorization
    rw [hauths, hauths', List.cons.injEq] at heq
    rw [← heq.1] at hx'
    rw [hauth, hauth']
    exact .some (.arr (.cons (authorization_same hx hx') .nil))
  · rw [hdata, hdata']
    exact .some hvalue

theorem actions_same {items : List Json} {raws : List XprActionJson}
    (hitems : List.Forall₂ (fun i r => XprSchema.action i = some r) items raws) :
    ∀ {items' : List Json} {raws' : List XprActionJson} {as bs : List DecodedAction},
      List.Forall₂ (fun i r => XprSchema.action i = some r) items' raws' →
      List.Forall₂ (fun r a => normalizeAction r = .ok a) raws as →
      List.Forall₂ (fun r a => normalizeAction r = .ok a) raws' bs →
      List.Forall₂ DecodedAction.Same as bs → (∀ p ∈ items.zip items', ¬ Mixed p.1 p.2) →
      List.Forall₂ Json.Same items items' := by
  induction hitems with
  | nil =>
    intro items' raws' as bs hitems' hraws hraws' hsame _
    cases hraws
    cases hsame
    cases hraws'
    cases hitems'
    exact .nil
  | cons hitem _ ih =>
    intro items' raws' as bs hitems' hraws hraws' hsame hmixed
    cases hraws with
    | cons hraw hraws =>
      cases hsame with
      | cons hs hss =>
        cases hraws' with
        | cons hraw' hraws' =>
          cases hitems' with
          | cons hitem' hitems' =>
            refine .cons (action_same hitem hitem' hraw hraw' hs (hmixed (_, _) (by simp))) ?_
            exact ih hitems' hraws hraws' hss fun p hp => hmixed p (List.mem_cons_of_mem _ hp)

theorem transaction_parts {input : Json} {raws : List XprActionJson}
    (h : XprSchema.transaction input = some raws) : ∃ p ms items, input = .obj p ms ∧
      XprSchema.closed ms [js "actions"] = true ∧ ms.lookup (js "actions") = some (.arr items) ∧
      List.Forall₂ (fun i r => XprSchema.action i = some r) items raws := by
  cases input with
  | obj p ms =>
    simp only [XprSchema.transaction, Option.bind_eq_bind, Option.bind_eq_some_iff,
      Option.guard_eq_some'] at h
    obtain ⟨-, hclosed, v, hv, h⟩ := h
    cases v with
    | arr items =>
      simp only [XprSchema.actions, Option.bind_eq_bind, Option.bind_eq_some_iff,
        Option.guard_eq_some'] at h
      obtain ⟨-, -, h⟩ := h
      exact ⟨p, ms, items, rfl, hclosed, hv, mapM_some.1 h⟩
    | _ => cases h
  | _ => cases h

/-- **The source is determined by what the policy sees**, for two transactions with equal decoded
actions, exactly when nowhere one has an asset text and the other an object. The decoder normalizes
the text to such an object, so what it decodes no longer tells them apart. -/
theorem source_determined {x y : Json} {context : ChainContext} {tx ty : DecodedTransaction}
    (hx : decodeXprTransaction x context = .ok tx) (hy : decodeXprTransaction y context = .ok ty)
    (hsame : List.Forall₂ DecodedAction.Same tx.actions ty.actions) :
    Option.Rel Json.Same tx.source ty.source ↔ ¬ Mixed x y := by
  obtain ⟨raws, hread, hraws, hsource⟩ := decode_source hx
  obtain ⟨raws', hread', hraws', hsource'⟩ := decode_source hy
  rw [hsource, hsource']
  constructor
  · intro hrel hmixed
    cases hrel with
    | some h => exact hmixed.not_same h
  · intro hmixed
    obtain ⟨p, ms, items, rfl, hclosed, hactions, hitems⟩ := transaction_parts hread
    obtain ⟨q, ns, items', rfl, hclosed', hactions', hitems'⟩ := transaction_parts hread'
    refine .some (closed_same hclosed hclosed' fun k hk => ?_)
    rw [List.mem_singleton.1 hk, hactions, hactions']
    refine .some (.arr (actions_same hitems hitems' (mapM_ok.1 hraws) (mapM_ok.1 hraws') hsame
      fun pair hpair hmix => hmixed ?_))
    exact .member hactions hactions' (.item hpair hmix)

/-! A transfer whose quantity is a text, and one that writes the object out. -/

namespace WrittenOut

def context : ChainContext := ⟨js "xpr", js "testnet", List.replicate 64 (unit 'a')⟩

/-- A transfer of this quantity. -/
def transfer (quantity : Json) : Json :=
  .obj .ordinary [(js "actions", .arr [.obj .ordinary [(js "account", .str (js "eosio.token")),
    (js "name", .str (js "transfer")),
    (js "authorization", .arr [.obj .ordinary [(js "actor", .str (js "bot")),
      (js "permission", .str (js "active"))]]),
    (js "data", .obj .ordinary [(js "quantity", quantity)])]])]

def text : Json := .str (js "1.0000 XPR")

def object : Json := .obj .ordinary [(js "amount", .str (js "1.0000")),
  (js "symbol", .str (js "XPR")), (js "precision", .num (.finite (.ofNat 4)))]

/-- What the policy sees of a transfer. -/
def seen (p : Proto) (quantity : List (JsString × Json)) (source : Json) : DecodedTransaction :=
  ⟨context, [⟨js "eosio.token", js "transfer", [⟨js "bot", js "active"⟩],
    [(js "quantity", .obj p quantity)]⟩], some source⟩

def quantity : List (JsString × Json) := [(js "amount", .str (js "1.0000")),
  (js "symbol", .str (js "XPR")), (js "precision", .num (.finite (.ofNat 4)))]

theorem decode_text : decodeXprTransaction (transfer text) context =
    .ok (seen .ordinary quantity (transfer text)) :=
  decode_of_transaction (by decide +kernel) rfl rfl

theorem decode_object : decodeXprTransaction (transfer object) context =
    .ok (seen .bare quantity (transfer object)) :=
  decode_of_transaction (by decide +kernel) rfl rfl

theorem same_refl (p : Proto) : (Json.obj p quantity).Same (.obj .bare quantity) := by
  refine .obj fun k => ?_
  unfold quantity
  simp only [List.lookup_cons, List.lookup_nil]
  cases k == js "amount" with
  | true => exact .some (.str _)
  | false =>
    cases k == js "symbol" with
    | true => exact .some (.str _)
    | false =>
      cases k == js "precision" with
      | true => exact .some (.num _)
      | false => exact .none

theorem seen_same (p : Proto) (u v : Json) :
    List.Forall₂ DecodedAction.Same (seen p quantity u).actions (seen .bare quantity v).actions := by
  refine .cons ⟨rfl, rfl, rfl, .obj fun k => ?_⟩ .nil
  simp only [List.lookup_cons, List.lookup_nil]
  cases k == js "quantity" with
  | true => exact .some (same_refl p)
  | false => exact .none

/-- The text and the object are mixed. -/
theorem transfers_mixed : Mixed (transfer text) (transfer object) := by
  refine .member (k := js "actions") rfl rfl (.item (u := _) (v := _) List.mem_cons_self ?_)
  refine .member (k := js "data") rfl rfl (.member (k := js "quantity") rfl rfl ?_)
  exact .left (by decide)

/-- **Two sources that look the same to the policy.** One has the quantity as a text, the other has
the object that the text is expanded to. -/
theorem not_determined : ∃ tx ty, decodeXprTransaction (transfer text) context = .ok tx ∧
    decodeXprTransaction (transfer object) context = .ok ty ∧
    List.Forall₂ DecodedAction.Same tx.actions ty.actions ∧
    ¬ Option.Rel Json.Same tx.source ty.source := by
  refine ⟨_, _, decode_text, decode_object, seen_same _ _ _, fun hrel => ?_⟩
  cases hrel with
  | some h => exact transfers_mixed.not_same h

/-- The law at two transactions that differ: their sources are the same exactly when nowhere one
has a text and the other the object, and here one of them has. -/
theorem source_determined_transfers :
    Option.Rel Json.Same (some (transfer text)) (some (transfer object)) ↔
      ¬ Mixed (transfer text) (transfer object) :=
  source_determined decode_text decode_object (seen_same _ _ _)

end WrittenOut

end Signbox
