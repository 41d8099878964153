import Signbox.Proof.Canonical
import Signbox.Spec.OnboardPayload

/-!
# The builder and the validator of an onboarding

The validator reads the members it needs and compares them; it does not ask what else an object
has. So what it accepts reads as what the builder writes, and it is the same exactly when nothing
else is there (`Plain`). The builder writes a purchase of any positive number of bytes, and the
validator accepts an integral one.

* `same_obj`: an object is the same as one with distinct keys when it has its members only.
* `validate_ok`: what is accepted.
* `accepts_built`, `built_of_accepted`: the two directions.
* `builder_validator_agree`: when they agree.
-/

namespace Signbox

open Guard

namespace Onboard

/-! ## The same value -/

/-- No members but these. Some of them may be missing. -/
def OnlyMembers (keys : List JsString) (ms : List (JsString × Json)) : Prop :=
  ∀ m ∈ ms, m.1 ∈ keys

variable {ms ns : List (JsString × Json)} {p q : Proto} {v w : Json} {s t : JsString}

/-- A string matches nothing but itself, so the names and keys the validator reads are the ones a
built action holds. -/
theorem same_str : v.Same (.str s) ↔ v = .str s := by
  constructor
  · intro h
    cases h
    rfl
  · rintro rfl
    exact .str s

/-- A number matches only a number of the same value, whatever its spelling was. -/
theorem same_num {n : JsNumber} : v.Same (.num n) ↔ v = .num n := by
  constructor
  · intro h
    cases h
    rfl
  · rintro rfl
    exact .num n

/-- Arrays match entry by entry and in order, which is what makes the sequence of actions part of
the comparison. -/
theorem same_arr {ws : List Json} :
    v.Same (.arr ws) ↔ ∃ vs, v = .arr vs ∧ List.Forall₂ Json.Same vs ws := by
  constructor
  · intro h
    cases h with
    | arr h => exact ⟨_, rfl, h⟩
  · rintro ⟨vs, rfl, h⟩
    exact .arr h

/-- A key that occurs among the members is found by the lookup. -/
theorem lookup_isSome {k : JsString} (h : k ∈ ms.map Prod.fst) : ∃ v, ms.lookup k = some v := by
  induction ms with
  | nil => simp at h
  | cons m ms ih =>
    obtain ⟨k', v⟩ := m
    rw [List.lookup_cons]
    by_cases hk : k = k'
    · subst hk
      exact ⟨v, by simp⟩
    · rw [beq_false_of_ne hk]
      refine ih ?_
      simpa [hk] using h

/-- What a lookup finds was among the members. -/
theorem key_of_lookup {k : JsString} (h : ms.lookup k = some v) : k ∈ ms.map Prod.fst := by
  induction ms with
  | nil => simp at h
  | cons m ms ih =>
    obtain ⟨k', v'⟩ := m
    rw [List.lookup_cons] at h
    by_cases hk : k = k'
    · exact List.mem_cons.2 (Or.inl hk)
    · rw [beq_false_of_ne hk] at h
      exact List.mem_cons_of_mem _ (ih h)

/-- An object is the same as one with distinct keys when it has its members and no others. -/
theorem same_obj (hnd : (ns.map Prod.fst).Nodup) : (Json.obj p ms).Same (.obj q ns) ↔
    OnlyMembers (ns.map Prod.fst) ms ∧
      ∀ m ∈ ns, ∃ v, ms.lookup m.1 = some v ∧ v.Same m.2 := by
  constructor
  · intro h
    cases h with
    | obj h =>
      constructor
      · intro m hm
        obtain ⟨v, hv⟩ := lookup_isSome (List.mem_map_of_mem hm)
        have hk := h m.1
        rw [hv] at hk
        cases hn : ns.lookup m.1 with
        | none =>
          rw [hn] at hk
          exact nomatch hk
        | some w => exact key_of_lookup hn
      · intro m hm
        have hk := h m.1
        rw [(lookup_iff_mem hnd).2 hm] at hk
        cases hm' : ms.lookup m.1 with
        | none =>
          rw [hm'] at hk
          exact nomatch hk
        | some v =>
          rw [hm'] at hk
          cases hk with
          | some hk => exact ⟨v, rfl, hk⟩
  · rintro ⟨honly, hall⟩
    refine .obj fun k => ?_
    cases hn : ns.lookup k with
    | some w =>
      obtain ⟨v, hv, hsame⟩ := hall (k, w) ((lookup_iff_mem hnd).1 hn)
      rw [hv]
      exact .some hsame
    | none =>
      cases hm : ms.lookup k with
      | none => exact .none
      | some v =>
        obtain ⟨m, hm', rfl⟩ := List.mem_map.1 (key_of_lookup hm)
        obtain ⟨w, hw⟩ := lookup_isSome (honly m hm')
        exact nomatch hn.symm.trans hw

/-! ## What is read -/

/-- `members?` accepts exactly the objects, and forgets only which prototype they have. -/
theorem members?_some : v.members? = some ms ↔ ∃ p, v = .obj p ms := by
  cases v <;> simp [Json.members?]

/-- `str?` accepts exactly the strings. -/
theorem str?_some : v.str? = some s ↔ v = .str s := by
  cases v <;> simp [Json.str?]

/-- `items?` accepts exactly the arrays. -/
theorem items?_some {vs : List Json} : items? v = some vs ↔ v = .arr vs := by
  cases v <;> simp [items?]

/-- A text member is one that is present and a string. -/
theorem text?_some {k : JsString} : text? ms k = some s ↔ ms.lookup k = some (.str s) := by
  unfold text?
  simp only [Option.bind_eq_some_iff, str?_some]
  constructor
  · rintro ⟨v, hv, rfl⟩
    exact hv
  · intro h
    exact ⟨_, h, rfl⟩

/-- The source's `=== 1`: a number and not a string, an absent member or a number near it. -/
theorem isOne_iff {x : Option Json} : isOne x = true ↔ x = some (natural 1) := by
  unfold isOne natural
  split
  · simp
  · rename_i hne
    simp only [Bool.false_eq_true, false_iff]
    rintro rfl
    exact hne _ rfl

/-- Reading a whole list succeeds when every entry reads, and the results stand in the order of the
entries. -/
theorem mapM_some {α β : Type} {f : α → Option β} {l : List α} {l' : List β} :
    l.mapM f = some l' ↔ List.Forall₂ (fun a b => f a = some b) l l' := by
  induction l generalizing l' with
  | nil => cases l' <;> simp
  | cons a l ih =>
    simp only [List.mapM_cons, Option.bind_eq_bind, Option.bind_eq_some_iff, ih, Option.pure_def,
      Option.some.injEq]
    constructor
    · rintro ⟨b, hb, bs, hbs, rfl⟩
      exact .cons hb hbs
    · rintro (_ | ⟨hb, hbs⟩)
      exact ⟨_, hb, _, hbs, rfl⟩

/-- An authorization entry is read from its actor and permission alone; further members of the
entry do not matter. -/
theorem isAuthorization?_some {a : JsString × JsString} : isAuthorization? v = some a ↔
    ∃ p ms, v = .obj p ms ∧ ms.lookup (js "actor") = some (.str a.1) ∧
      ms.lookup (js "permission") = some (.str a.2) := by
  unfold isAuthorization?
  simp only [Option.bind_eq_bind, Option.bind_eq_some_iff, members?_some, str?_some, Option.pure_def,
    Option.some.injEq]
  constructor
  · rintro ⟨ms, ⟨p, rfl⟩, _, hx, x, rfl, _, hy, y, rfl, rfl⟩
    exact ⟨p, ms, rfl, hx, hy⟩
  · rintro ⟨p, ms, rfl, hx, hy⟩
    exact ⟨ms, ⟨p, rfl⟩, _, hx, _, rfl, _, hy, _, rfl, rfl⟩

/-- What reading an action asks of it: three texts, a data object and an array of authorizations
each of which reads. It says nothing about what the data holds. -/
theorem isAction?_some {a : OnboardAction} : isAction? v = some a ↔
    ∃ p ms es q, v = .obj p ms ∧ ms.lookup (js "account") = some (.str a.account) ∧
      ms.lookup (js "name") = some (.str a.name) ∧
      ms.lookup (js "authorization") = some (.arr es) ∧
      List.Forall₂ (fun e x => isAuthorization? e = some x) es a.authorization ∧
      ms.lookup (js "data") = some (.obj q a.data) := by
  unfold isAction?
  simp only [Option.bind_eq_bind, Option.bind_eq_some_iff, members?_some, str?_some, items?_some,
    mapM_some, Option.pure_def, Option.some.injEq]
  constructor
  · rintro ⟨ms, ⟨p, rfl⟩, _, hx, x, rfl, _, hy, y, rfl, _, hes, es, rfl, as, has, _, hd, d,
      ⟨q, rfl⟩, rfl⟩
    exact ⟨p, ms, es, q, rfl, hx, hy, hes, has, hd⟩
  · rintro ⟨p, ms, es, q, rfl, hx, hy, hes, has, hd⟩
    exact ⟨ms, ⟨p, rfl⟩, _, hx, _, rfl, _, hy, _, rfl, _, hes, es, rfl, _, has, _, hd, _,
      ⟨q, rfl⟩, rfl⟩

/-- Only the empty array passes: an absent member does not stand for it. -/
theorem isEmptyArray_iff {x : Option Json} : isEmptyArray x = true ↔ x = some (.arr []) := by
  unfold isEmptyArray
  split
  · simp
  · rename_i hne
    simp only [Bool.false_eq_true, false_iff]
    rintro rfl
    exact hne rfl

/-- An array of exactly one object. -/
theorem single?_some {ks : List (JsString × Json)} :
    single? v = some ks ↔ ∃ q, v = .arr [.obj q ks] := by
  unfold single?
  split
  · simp
  · rename_i hne
    simp only [reduceCtorEq, false_iff]
    rintro ⟨q, rfl⟩
    exact hne _ _ rfl

/-- The shape of an authority with one key of weight one at threshold one, no accounts and no
waits. Members beyond these five are not looked at, which is where acceptance and building part. -/
theorem exclusiveSingleKey_some {x : Option Json} {key : JsString} :
    exclusiveSingleKey x = some key ↔ ∃ p ms q ks, x = some (.obj p ms) ∧
      ms.lookup (js "threshold") = some (natural 1) ∧
      ms.lookup (js "keys") = some (.arr [.obj q ks]) ∧
      ms.lookup (js "accounts") = some (.arr []) ∧ ms.lookup (js "waits") = some (.arr []) ∧
      ks.lookup (js "key") = some (.str key) ∧ weightAccepted (ks.lookup (js "weight")) = true := by
  unfold exclusiveSingleKey
  simp only [Option.bind_eq_bind, Option.bind_eq_some_iff, members?_some, str?_some, Option.pure_def,
    Option.guard_eq_some', isOne_iff, isEmptyArray_iff, single?_some, Option.some.injEq]
  constructor
  · rintro ⟨_, rfl, ms, ⟨p, rfl⟩, -, hone, _, hkeys, ks, ⟨q, rfl⟩, -, ha, -, hw, _, hk, k, rfl, -,
      hweight, rfl⟩
    exact ⟨p, ms, q, ks, rfl, hone, hkeys, ha, hw, hk, hweight⟩
  · rintro ⟨p, ms, q, ks, rfl, hone, hkeys, ha, hw, hk, hweight⟩
    exact ⟨_, rfl, ms, ⟨p, rfl⟩, (), hone, _, hkeys, ks, ⟨q, rfl⟩, (), ha, (), hw, _, hk, _, rfl,
      (), hweight, rfl⟩

/-! ## Plain values -/

/-- An authorization entry with nothing else. What is no object is left to the validator. -/
def PlainEntry : Json → Prop
  | .obj _ ms => OnlyMembers [js "actor", js "permission"] ms
  | _ => True

/-- A key of weight one with nothing else, as the builder writes it. -/
def PlainKey (ks : List (JsString × Json)) : Prop :=
  OnlyMembers [js "key", js "weight"] ks ∧ ks.lookup (js "weight") = some (natural 1)

/-- An authority with nothing else. -/
def PlainAuthority : Json → Prop
  | .obj _ ms => OnlyMembers [js "threshold", js "keys", js "accounts", js "waits"] ms ∧
      ∀ q ks, ms.lookup (js "keys") = some (.arr [.obj q ks]) → PlainKey ks
  | _ => True

/-- An action with nothing else, and plain data. The validator reads what it knows, and looks at
nothing more. -/
def PlainAction (data : List (JsString × Json) → Prop) : Json → Prop
  | .obj _ ms =>
    OnlyMembers [js "account", js "name", js "authorization", js "data"] ms ∧
    (∀ es, ms.lookup (js "authorization") = some (.arr es) → ∀ e ∈ es, PlainEntry e) ∧
    ∀ q d, ms.lookup (js "data") = some (.obj q d) → data d
  | _ => True

/-- The data of `newaccount` with its four members and no others, both authorities plain. -/
def PlainNewaccount (d : List (JsString × Json)) : Prop :=
  OnlyMembers [js "creator", js "name", js "owner", js "active"] d ∧
    (∀ v, d.lookup (js "owner") = some v → PlainAuthority v) ∧
    ∀ v, d.lookup (js "active") = some v → PlainAuthority v

/-- A purchase with nothing else, of a positive number of bytes. The builder leaves a purchase of
none out. -/
def PlainBuyram (d : List (JsString × Json)) : Prop :=
  OnlyMembers [js "payer", js "receiver", js "bytes"] d ∧
    ∀ n, d.lookup (js "bytes") = some (.num n) → n.isPositive = true

/-- The data of `createpolicy` with its six members and no others. -/
def PlainPolicy (d : List (JsString × Json)) : Prop :=
  OnlyMembers [js "agent", js "authority", js "agentperm", js "version", js "policyhash",
    js "policyjson"] d

/-- Actions with nothing else in them than the builder writes, keys of weight one, and a
purchase, if there is one, of a positive number of bytes. -/
def Plain : List Json → Prop
  | [first, last] => PlainAction PlainNewaccount first ∧ PlainAction PlainPolicy last
  | [first, middle, last] => PlainAction PlainNewaccount first ∧ PlainAction PlainBuyram middle ∧
      PlainAction PlainPolicy last
  | _ => True

/-- An accepted authorization entry is the built one exactly when it carries no further member. -/
theorem same_entry {a : JsString × JsString} (h : isAuthorization? v = some a) :
    v.Same (authorizationOf a.1 a.2) ↔ PlainEntry v := by
  obtain ⟨p, ms, rfl, hx, hy⟩ := isAuthorization?_some.1 h
  unfold authorizationOf
  rw [same_obj (by simp only [List.map_cons, List.map_nil]; decide)]
  constructor
  · exact fun h => h.1
  · intro honly
    refine ⟨honly, ?_⟩
    simp only [List.forall_mem_cons, List.not_mem_nil, false_imp_iff, implies_true, and_true]
    exact ⟨⟨_, hx, .str _⟩, _, hy, .str _⟩

/-- The same for a whole list of entries: each of them has to be plain. -/
theorem same_entries {es : List Json} {as : List (JsString × JsString)}
    (h : List.Forall₂ (fun e a => isAuthorization? e = some a) es as) :
    List.Forall₂ Json.Same es (as.map fun a => authorizationOf a.1 a.2) ↔
      ∀ e ∈ es, PlainEntry e := by
  induction h with
  | nil => simp
  | cons h _ ih =>
    rw [List.map_cons, List.forall₂_cons, same_entry h, ih, List.forall_mem_cons]

/-- An accepted authority is the built one exactly when it and its key entry carry no further
member. -/
theorem same_keyAuthority {key : JsString} (h : exclusiveSingleKey (some v) = some key) :
    v.Same (keyAuthority key) ↔ PlainAuthority v := by
  obtain ⟨p, ms, q, ks, hv, hone, hkeys, ha, hw, hk, -⟩ := exclusiveSingleKey_some.1 h
  obtain rfl := Option.some.inj hv
  have hentry : (Json.obj q ks).Same
      (.obj .ordinary [(js "key", .str key), (js "weight", natural 1)]) ↔ PlainKey ks := by
    rw [same_obj (by simp only [List.map_cons, List.map_nil]; decide)]
    refine and_congr_right fun _ => ?_
    simp only [List.forall_mem_cons, List.not_mem_nil, false_imp_iff, implies_true, and_true, hk,
      natural, same_num, same_str]
    constructor
    · rintro ⟨-, v, hv, rfl⟩
      exact hv
    · intro hone
      exact ⟨⟨_, rfl, rfl⟩, _, hone, rfl⟩
  unfold keyAuthority
  rw [same_obj (by simp only [List.map_cons, List.map_nil]; decide)]
  refine and_congr_right fun _ => ?_
  simp only [List.forall_mem_cons, List.not_mem_nil, false_imp_iff, implies_true, and_true, hone,
    hkeys, ha, hw, Option.some.injEq, exists_eq_left', same_arr, Json.arr.injEq,
    List.forall₂_cons, List.forall₂_nil_right_iff, hentry]
  constructor
  · rintro ⟨-, hplain⟩ q' ks' heq
    obtain ⟨rfl, rfl⟩ := Json.obj.inj (List.cons.inj heq).1
    exact hplain
  · intro hplain
    exact ⟨.num _, hplain q ks rfl⟩

/-- An action that reads as one of the builder is the same when it is plain. -/
theorem same_action {a : OnboardAction} (h : isAction? v = some a) {data : List (JsString × Json)}
    {P : List (JsString × Json) → Prop} (hdata : ∀ q, (Json.obj q a.data).Same (.obj .ordinary data) ↔
      P a.data) : v.Same (actionOf a.account a.name
        (a.authorization.map fun x => authorizationOf x.1 x.2) data) ↔ PlainAction P v := by
  obtain ⟨p, ms, es, q, rfl, hx, hy, hes, has, hd⟩ := isAction?_some.1 h
  unfold actionOf PlainAction
  rw [same_obj (by simp only [List.map_cons, List.map_nil]; decide)]
  refine and_congr_right fun _ => ?_
  simp only [List.forall_mem_cons, List.not_mem_nil, false_imp_iff, implies_true, and_true, hx, hy,
    hes, hd, Option.some.injEq, exists_eq_left', same_arr, Json.arr.injEq, Json.obj.injEq,
    same_entries has, hdata, same_str, true_and]
  constructor
  · rintro ⟨hentries, hplain⟩
    refine ⟨fun es' heq => ?_, fun q' d' heq => ?_⟩
    · rw [← heq]
      exact hentries
    · rw [← heq.2]
      exact hplain
  · rintro ⟨hentries, hplain⟩
    exact ⟨hentries es rfl, hplain q a.data ⟨rfl, rfl⟩⟩

variable {d : List (JsString × Json)} {authority agent permission : JsString}

/-- Accepted account data is what the builder emits exactly when it is plain; the names and keys
are then already equal. -/
theorem same_newaccount {ownerKey activeKey : JsString}
    (hcreator : d.lookup (js "creator") = some (.str authority))
    (hname : d.lookup (js "name") = some (.str agent))
    (howner : exclusiveSingleKey (d.lookup (js "owner")) = some ownerKey)
    (hactive : exclusiveSingleKey (d.lookup (js "active")) = some activeKey) (q : Proto) :
    (Json.obj q d).Same (.obj .ordinary [(js "creator", .str authority), (js "name", .str agent),
      (js "owner", keyAuthority ownerKey), (js "active", keyAuthority activeKey)]) ↔
        PlainNewaccount d := by
  rw [same_obj (by simp only [List.map_cons, List.map_nil]; decide)]
  refine and_congr_right fun _ => ?_
  obtain ⟨_, _, _, _, ho, -⟩ := exclusiveSingleKey_some.1 howner
  obtain ⟨_, _, _, _, ha, -⟩ := exclusiveSingleKey_some.1 hactive
  rw [ho] at howner
  rw [ha] at hactive
  simp only [List.forall_mem_cons, List.not_mem_nil, false_imp_iff, implies_true, and_true,
    hcreator, hname, ho, ha, Option.some.injEq, exists_eq_left', same_str, true_and,
    same_keyAuthority howner, same_keyAuthority hactive, forall_eq']

/-- Accepted data for buying memory is what the builder emits, for a positive number of bytes,
exactly when it has no member beyond payer, receiver and bytes. -/
theorem same_buyram {n : JsNumber} (hpayer : d.lookup (js "payer") = some (.str authority))
    (hreceiver : d.lookup (js "receiver") = some (.str agent))
    (hbytes : d.lookup (js "bytes") = some (.num n)) (hpos : n.isPositive = true) (q : Proto) :
    (Json.obj q d).Same (.obj .ordinary [(js "payer", .str authority), (js "receiver", .str agent),
      (js "bytes", .num n)]) ↔ PlainBuyram d := by
  rw [same_obj (by simp only [List.map_cons, List.map_nil]; decide)]
  refine and_congr_right fun _ => ?_
  simp only [List.forall_mem_cons, List.not_mem_nil, false_imp_iff, implies_true, and_true,
    hpayer, hreceiver, hbytes, Option.some.injEq, exists_eq_left', same_str, same_num, Json.num.injEq, true_iff]
  rintro _ rfl
  exact hpos

/-- Accepted policy data is what the builder emits exactly when it has no further member. -/
theorem same_policy {hash text : JsString} (hagent : d.lookup (js "agent") = some (.str agent))
    (hauthority : d.lookup (js "authority") = some (.str authority))
    (hperm : d.lookup (js "agentperm") = some (.str permission))
    (hversion : d.lookup (js "version") = some (natural 1))
    (hhash : d.lookup (js "policyhash") = some (.str hash))
    (htext : d.lookup (js "policyjson") = some (.str text)) (q : Proto) :
    (Json.obj q d).Same (.obj .ordinary [(js "agent", .str agent), (js "authority", .str authority),
      (js "agentperm", .str permission), (js "version", natural 1), (js "policyhash", .str hash),
      (js "policyjson", .str text)]) ↔ PlainPolicy d := by
  rw [same_obj (by simp only [List.map_cons, List.map_nil]; decide)]
  constructor
  · exact fun h => h.1
  · intro honly
    refine ⟨honly, ?_⟩
    simp only [List.forall_mem_cons, List.not_mem_nil, false_imp_iff, implies_true, and_true,
      hagent, hauthority, hperm, hversion, hhash, htext, Option.some.injEq, exists_eq_left',
      same_str, natural, same_num]

/-! ## What is accepted -/

/-- Two texts that avoid a unit are cut at the same place by a doubled occurrence of it. -/
theorem append_double {c : UInt16} {a b x y : JsString} (hx : c ∉ x) (hy : c ∉ y)
    (h : a ++ (c :: c :: b) = x ++ (c :: c :: y)) : a = x ∧ b = y := by
  rcases List.append_eq_append_iff.1 h with ⟨t, rfl, ht⟩ | ⟨t, rfl, ht⟩
  · cases t with
    | nil => simpa using ht
    | cons u t =>
      obtain ⟨rfl, -⟩ := List.cons.inj ht
      exact absurd (List.mem_append_right a List.mem_cons_self) hx
  · cases t with
    | nil => simpa using ht.symm
    | cons u t =>
      have htail : c :: y = t ++ (c :: c :: b) := (List.cons.inj ht).2
      cases t with
      | nil =>
        have hmem : y = c :: b := (List.cons.inj htail).2
        exact absurd (hmem ▸ List.mem_cons_self) hy
      | cons u t =>
        have hmem : y = t ++ (c :: c :: b) := (List.cons.inj htail).2
        exact absurd (hmem ▸ List.mem_append_right t List.mem_cons_self) hy

/-- The full name of an action determines its account and its name. -/
theorem fullName_eq {a : OnboardAction} {account name : JsString} (hx : unit ':' ∉ account)
    (hy : unit ':' ∉ name) : fullName a = account ++ js "::" ++ name ↔
      a.account = account ∧ a.name = name := by
  constructor
  · intro h
    refine append_double hx hy ?_
    rw [fullName, List.append_assoc, List.append_assoc] at h
    exact h
  · rintro ⟨rfl, rfl⟩
    rfl

/-- A required value is there, or the message is the error. -/
theorem need_ok {α : Type} {value : Option α} {message : JsString} {a : α} :
    need value message = .ok a ↔ value = some a := by
  cases value <;> simp [need]

/-- A test that fails on an absent value holds of a present one. -/
theorem any_some {α : Type} {value : Option α} {f : α → Bool} :
    value.any f = true ↔ ∃ a, value = some a ∧ f a = true := by
  cases value <;> simp

variable {payload : List (JsString × Json)} {trusted : TrustedContext}
  {first last : OnboardAction} {middle : Option OnboardAction}

/-- What passes the checks against the trusted context: the payload's kind, chain and contract are
the ones the reader already trusts, and the agent's account does not exist yet. -/
theorem checkAnchors_ok : checkAnchors payload trusted = .ok () ↔
    payload.lookup (js "v") = some (natural 1) ∧
    payload.lookup (js "kind") = some (.str (js "onboard")) ∧
    (payload.lookup (js "chainId") = some (.str trusted.chainId) ∧ isHex64 trusted.chainId = true) ∧
    payload.lookup (js "signboxContract") = some (.str trusted.signboxContract) ∧
    trusted.agentAccountExists = false := by
  unfold checkAnchors
  simp only [bind_ok, failIf_ok, exists_const, not_or, Bool.not_eq_false, Bool.not_eq_true, not_not,
    isOne_iff, text?_some, any_some]
  constructor
  · rintro ⟨⟨hv, hk⟩, ⟨⟨id, hid, hhex⟩, hchain⟩, hcontract, hnew⟩
    rw [hchain] at hid
    obtain ⟨rfl⟩ := hid
    exact ⟨hv, hk, ⟨hchain, hhex⟩, hcontract, hnew⟩
  · rintro ⟨hv, hk, ⟨hchain, hhex⟩, hcontract, hnew⟩
    exact ⟨⟨hv, hk⟩, ⟨⟨_, hchain, hhex⟩, hchain⟩, hcontract, hnew⟩

/-- The actions of the payload, read in sequence: each is well formed, and there are two or
three. -/
def Reads (items : List Json) (first : OnboardAction) (middle : Option OnboardAction)
    (last : OnboardAction) : Prop :=
  ∃ actions, items.mapM isAction? = some actions ∧ sequence actions = some (first, middle, last)

/-- What passes the checks on the sequence: two or three actions, the account first, the policy
last, and memory bought in the middle if anything is. -/
theorem checkSequence_ok : checkSequence payload trusted = .ok (first, middle, last) ↔
    (∃ items, payload.lookup (js "actions") = some (.arr items) ∧ Reads items first middle last) ∧
    (first.account = js "eosio" ∧ first.name = js "newaccount") ∧
    (last.account = trusted.signboxContract ∧ last.name = js "createpolicy") ∧
    ∀ a, middle = some a → a.account = js "eosio" ∧ a.name = js "buyrambytes" := by
  have hnew : ∀ a : OnboardAction, fullName a = js "eosio::newaccount" ↔
      a.account = js "eosio" ∧ a.name = js "newaccount" :=
    fun a => @fullName_eq a (js "eosio") (js "newaccount") (by decide) (by decide)
  have hbuy : ∀ a : OnboardAction, fullName a = js "eosio::buyrambytes" ↔
      a.account = js "eosio" ∧ a.name = js "buyrambytes" :=
    fun a => @fullName_eq a (js "eosio") (js "buyrambytes") (by decide) (by decide)
  unfold checkSequence Reads
  simp only [bind_ok, failIf_ok, need_ok, exists_const, not_or, not_not, not_lt, gt_iff_lt,
    Option.bind_eq_some_iff, items?_some, pure_eq, Except.ok.injEq, Prod.mk.injEq, not_exists,
    not_and, Option.mem_def, hnew, hbuy]
  constructor
  · rintro ⟨items, ⟨_, hitems, rfl⟩, -, actions, hactions, ⟨f, m, l⟩, hseq, hf, hl, hm, rfl, rfl, rfl⟩
    exact ⟨⟨items, hitems, actions, hactions, hseq⟩, hf, hl, hm⟩
  · rintro ⟨⟨items, hitems, actions, hactions, hseq⟩, hf, hl, hm⟩
    have hlen : items.length = actions.length := (mapM_some.1 hactions).length_eq
    have hactions' : 2 ≤ actions.length ∧ actions.length ≤ 3 := by
      unfold sequence at hseq
      split at hseq
      · exact ⟨by simp, by simp⟩
      · exact ⟨by simp, by simp⟩
      · cases hseq
    exact ⟨items, ⟨_, hitems, rfl⟩, by rw [hlen]; exact hactions', actions, hactions,
      (first, middle, last), hseq, hf, hl, hm, rfl, rfl, rfl⟩

/-- A memory amount is an integer and not negative. -/
theorem ramBytesOf_some {x : Option Json} {n : JsNumber} : ramBytesOf x = some n ↔
    x = some (.num n) ∧ ∃ i, n.toInt? = some i ∧ 0 ≤ i := by
  unfold ramBytesOf
  split
  · rename_i m
    simp only [Option.some.injEq, Json.num.injEq]
    split
    · rename_i i hi
      split
      · rename_i hneg
        constructor
        · exact nofun
        · rintro ⟨rfl, i', hi', hpos⟩
          obtain rfl := Option.some.inj (hi.symm.trans hi')
          omega
      · rename_i hpos
        constructor
        · intro h
          obtain rfl := Option.some.inj h
          exact ⟨rfl, i, hi, by omega⟩
        · rintro ⟨rfl, -⟩
          rfl
    · rename_i hnone
      constructor
      · exact nofun
      · rintro ⟨rfl, i, hi, -⟩
        exact nomatch hnone.symm.trans hi
  · rename_i hne
    constructor
    · exact nofun
    · rintro ⟨rfl, -⟩
      exact absurd rfl (hne n)

/-- What passes the check of the middle action, with the amount it yields. The integrality of the
amount is asked here and not by the builder. -/
theorem checkMiddle_ok {a : OnboardAction} {n : JsNumber} :
    checkMiddle authority agent (some a) = .ok n ↔
      (a.data.lookup (js "payer") = some (.str authority) ∧
        a.data.lookup (js "receiver") = some (.str agent)) ∧
      a.authorization = [(authority, js "active")] ∧
      a.data.lookup (js "bytes") = some (.num n) ∧ ∃ i, n.toInt? = some i ∧ 0 ≤ i := by
  unfold checkMiddle
  simp only [bind_ok, failIf_ok, need_ok, exists_const, not_or, not_not, ne_eq, text?_some,
    ramBytesOf_some]

/-- What passes the checks of the policy action: agent and authority as in the account's own
action, version one, the exact text of the empty policy, and both signatures. Of the hash only its
form is asked. -/
theorem checkPolicy_ok : checkPolicy authority agent trusted last = .ok permission ↔
    last.data.lookup (js "agentperm") = some (.str permission) ∧
    last.data.lookup (js "agent") = some (.str agent) ∧
    last.data.lookup (js "authority") = some (.str authority) ∧
    last.data.lookup (js "version") = some (natural 1) ∧
    (∃ hash, last.data.lookup (js "policyhash") = some (.str hash) ∧ isHex64 hash = true) ∧
    (∃ text, last.data.lookup (js "policyjson") = some (.str text) ∧
      expectedEmptyPolicyCanonical trusted.chainName trusted.chainId = .ok text) ∧
    last.authorization = [(authority, js "active"), (agent, js "owner")] := by
  unfold checkPolicy
  simp only [bind_ok, failIf_ok, need_ok, exists_const, not_not, ne_eq, text?_some, any_some,
    isOne_iff, Bool.not_eq_false, Option.map_eq_some_iff, pure_eq, Except.ok.injEq]
  constructor
  · rintro ⟨_, hp, ha, hau, hv, hh, ⟨text, ht, hc⟩, hz, rfl⟩
    exact ⟨hp, ha, hau, hv, hh, ⟨text, ht, hc.symm⟩, hz⟩
  · rintro ⟨hp, ha, hau, hv, hh, ⟨text, ht, hc⟩, hz⟩
    exact ⟨_, hp, ha, hau, hv, hh, ⟨text, ht, hc.symm⟩, hz, rfl⟩

/-- The facts an accepted payload gives about its actions, one for each check of the validator. -/
structure Accepted (payload : List (JsString × Json)) (trusted : TrustedContext)
    (first : OnboardAction) (middle : Option OnboardAction) (last : OnboardAction)
    (derived : OnboardDerived) : Prop where
  anchors : checkAnchors payload trusted = .ok ()
  actions : checkSequence payload trusted = .ok (first, middle, last)
  name : first.data.lookup (js "name") = some (.str derived.agent)
  creator : first.data.lookup (js "creator") = some (.str derived.authority)
  authorization : first.authorization = [(derived.authority, js "active")]
  active : exclusiveSingleKey (first.data.lookup (js "active")) = some derived.agentPublicKey
  owner : exclusiveSingleKey (first.data.lookup (js "owner")) = some derived.ownerKey
  bought : checkMiddle derived.authority derived.agent middle = .ok derived.ramBytes
  policy : checkPolicy derived.authority derived.agent trusted last = .ok derived.permission
  summary : ∃ p summary, payload.lookup (js "summary") = some (.obj p summary) ∧
    summary.lookup (js "agent") = some (.str derived.agent) ∧
    summary.lookup (js "authority") = some (.str derived.authority) ∧
    summary.lookup (js "permission") = some (.str derived.permission) ∧
    summary.lookup (js "publicKey") = some (.str derived.agentPublicKey)
  actionCount : derived.actionCount = middle.elim 2 fun _ => 3

/-- **What is accepted**: the checks in their order, with all that the validator derives from them.
It is read in both directions below. -/
theorem validate_ok {derived : OnboardDerived} :
    validateOnboardingPayload payload trusted = .ok derived ↔
      ∃ first middle last, Accepted payload trusted first middle last derived := by
  unfold validateOnboardingPayload
  simp only [bind_ok, failIf_ok, need_ok, exists_const, not_or, not_not, ne_eq, text?_some,
    Option.bind_eq_some_iff, members?_some, pure_eq, Except.ok.injEq]
  constructor
  · rintro ⟨⟨⟩, ha, ⟨f, m, l⟩, hs, agent, hn, authority, hc, hz, active, hk, owner, ho, n, hb,
      permission, hp, sm, ⟨_, hsm, p, rfl⟩, ⟨h₁, h₂, h₃, h₄⟩, rfl⟩
    exact ⟨f, m, l, ha, hs, hn, hc, hz, hk, ho, hb, hp, ⟨p, sm, hsm, h₁, h₂, h₃, h₄⟩, rfl⟩
  · rintro ⟨f, m, l, ⟨ha, hs, hn, hc, hz, hk, ho, hb, hp, ⟨p, sm, hsm, h₁, h₂, h₃, h₄⟩, hcount⟩⟩
    refine ⟨(), ha, (f, m, l), hs, _, hn, _, hc, hz, _, hk, _, ho, _, hb, _, hp, sm,
      ⟨_, hsm, p, rfl⟩, ⟨h₁, h₂, h₃, h₄⟩, ?_⟩
    rw [← hcount]

/-! ## What is accepted is what is built -/

/-- What the builder is given for the derived facts: the input whose actions are compared with the
payload's. -/
def derivedInput (derived : OnboardDerived) (signboxContract json hash : JsString) :
    BuildActionsInput where
  authority := derived.authority
  agent := derived.agent
  permission := derived.permission
  agentPublicKey := derived.agentPublicKey
  authorityPublicKey := derived.ownerKey
  signboxContract := signboxContract
  emptyPolicyJson := json
  emptyPolicyHash := hash
  ramBytes := some derived.ramBytes

/-- The hash in the last action is that of the policy in it. The validator does not compute it, the
contract does. -/
def PolicyHashed (sha256 : List UInt8 → JsString) (items : List Json) : Prop :=
  ∀ p ms q d text, items.getLast? = some (.obj p ms) → ms.lookup (js "data") = some (.obj q d) →
    d.lookup (js "policyjson") = some (.str text) →
    d.lookup (js "policyhash") = some (.str (sha256 (utf8 text)))

/-- **An accepted payload** has the actions of the builder exactly when they are plain: acceptance
fixes every member the builder writes, and leaves open what else there is. -/
theorem built_of_accepted {derived : OnboardDerived} {sha256 : List UInt8 → JsString}
    (h : validateOnboardingPayload payload trusted = .ok derived) {items : List Json}
    (hitems : payload.lookup (js "actions") = some (.arr items)) {json : JsString}
    (hjson : expectedEmptyPolicyCanonical trusted.chainName trusted.chainId = .ok json)
    (hhash : PolicyHashed sha256 items) :
    List.Forall₂ Json.Same items (buildOnboardingActions
      (derivedInput derived trusted.signboxContract json (sha256 (utf8 json)))) ↔ Plain items := by
  obtain ⟨first, middle, last, hacc⟩ := validate_ok.1 h
  obtain ⟨⟨items', hitems', actions, hactions, hseq⟩, ⟨hfa, hfn⟩, ⟨hla, hln⟩, hmid⟩ :=
    checkSequence_ok.1 hacc.actions
  obtain rfl := Json.arr.inj (Option.some.inj (hitems.symm.trans hitems'))
  obtain ⟨hperm, hagent, hauthority, hversion, ⟨hash, hhash', -⟩, ⟨text, htext, hcanon⟩, hlz⟩ :=
    checkPolicy_ok.1 hacc.policy
  obtain rfl := Except.ok.inj (hjson.symm.trans hcanon)
  -- the two actions that are always there
  have hfirst : ∀ v, isAction? v = some first →
      (v.Same (actionOf (js "eosio") (js "newaccount")
        [authorizationOf derived.authority (js "active")]
        [(js "creator", .str derived.authority), (js "name", .str derived.agent),
          (js "owner", keyAuthority derived.ownerKey),
          (js "active", keyAuthority derived.agentPublicKey)]) ↔ PlainAction PlainNewaccount v) := by
    intro v hv
    have hsame := same_action hv (same_newaccount hacc.creator hacc.name hacc.owner hacc.active)
    rw [hfa, hfn, hacc.authorization] at hsame
    exact hsame
  have hlast : ∀ v, isAction? v = some last → items.getLast? = some v →
      (v.Same (actionOf trusted.signboxContract (js "createpolicy")
        [authorizationOf derived.authority (js "active"), authorizationOf derived.agent (js "owner")]
        [(js "agent", .str derived.agent), (js "authority", .str derived.authority),
          (js "agentperm", .str derived.permission), (js "version", natural 1),
          (js "policyhash", .str (sha256 (utf8 json))), (js "policyjson", .str json)]) ↔
        PlainAction PlainPolicy v) := by
    intro v hv hend
    obtain ⟨p, ms, es, q, rfl, -, -, -, -, hd⟩ := isAction?_some.1 hv
    have hdigest := hhash p ms q last.data json hend hd htext
    have hsame := same_action hv (same_policy hagent hauthority hperm hversion hdigest htext)
    rw [hla, hln, hlz] at hsame
    exact hsame
  have hread := mapM_some.1 hactions
  unfold sequence at hseq
  split at hseq
  · -- no purchase
    obtain ⟨rfl, rfl, rfl⟩ : _ = first ∧ none = middle ∧ _ = last := by simpa using hseq
    obtain ⟨v, _, hv, hread₁, rfl⟩ := List.forall₂_cons_right_iff.1 hread
    obtain ⟨v', _, hv', hread₂, rfl⟩ := List.forall₂_cons_right_iff.1 hread₁
    obtain rfl := List.forall₂_nil_right_iff.1 hread₂
    have hzero : derived.ramBytes = .finite (.ofNat 0) := (Except.ok.inj hacc.bought).symm
    have hnone : buyRam (derivedInput derived trusted.signboxContract json (sha256 (utf8 json))) =
        [] := by
      unfold buyRam derivedInput
      rw [hzero]
      rfl
    unfold buildOnboardingActions
    rw [hnone, List.append_nil, List.singleton_append, List.forall₂_cons, List.forall₂_cons]
    simp only [List.Forall₂.nil, and_true]
    exact and_congr (hfirst v hv) (hlast v' hv' rfl)
  · obtain ⟨rfl, rfl, rfl⟩ : _ = first ∧ some _ = middle ∧ _ = last := by simpa using hseq
    rename_i f m l
    obtain ⟨v, _, hv, hread₁, rfl⟩ := List.forall₂_cons_right_iff.1 hread
    obtain ⟨vm, _, hvm, hread₂, rfl⟩ := List.forall₂_cons_right_iff.1 hread₁
    obtain ⟨v', _, hv', hread₃, rfl⟩ := List.forall₂_cons_right_iff.1 hread₂
    obtain rfl := List.forall₂_nil_right_iff.1 hread₃
    obtain ⟨⟨hpayer, hreceiver⟩, hmz, hbytes, -⟩ := checkMiddle_ok.1 hacc.bought
    obtain ⟨hma, hmn⟩ := hmid m rfl
    unfold buildOnboardingActions
    by_cases hpos : derived.ramBytes.isPositive = true
    · have hmiddle : vm.Same (actionOf (js "eosio") (js "buyrambytes")
          [authorizationOf derived.authority (js "active")]
          [(js "payer", .str derived.authority), (js "receiver", .str derived.agent),
            (js "bytes", .num derived.ramBytes)]) ↔ PlainAction PlainBuyram vm := by
        have hsame := same_action hvm (same_buyram hpayer hreceiver hbytes hpos)
        rw [hma, hmn, hmz] at hsame
        exact hsame
      have hbuy : buyRam (derivedInput derived trusted.signboxContract json (sha256 (utf8 json))) =
          [_] := if_pos hpos
      rw [hbuy, List.singleton_append, List.cons_append, List.singleton_append, List.forall₂_cons,
        List.forall₂_cons, List.forall₂_cons]
      simp only [List.Forall₂.nil, and_true]
      exact and_congr (hfirst v hv) (and_congr hmiddle (hlast v' hv' rfl))
    · -- the builder leaves such a purchase out
      have hbuy : buyRam (derivedInput derived trusted.signboxContract json (sha256 (utf8 json))) =
          [] := if_neg hpos
      rw [hbuy]
      constructor
      · intro hsame
        exact absurd hsame.length_eq (by simp)
      · rintro ⟨-, hmiddle, -⟩
        obtain ⟨p, ms, es, q, rfl, -, -, -, -, hd⟩ := isAction?_some.1 hvm
        exact absurd ((hmiddle.2.2 q m.data hd).2 _ hbytes) hpos
  · exact nomatch hseq

/-! ## What is built is accepted -/

/-- The trusted context of an input, whose agent has no account yet. It is what the companion has
compiled in. -/
structure Matching (trusted : TrustedContext) (input : OnboardingInput)
    (signboxContract : JsString) : Prop where
  chainId : trusted.chainId = input.chain.chainId
  hex : isHex64 trusted.chainId = true
  chainName : trusted.chainName = input.chain.chain
  contract : trusted.signboxContract = signboxContract
  absent : trusted.agentAccountExists = false

/-- No purchase of a positive number of bytes that is not an integer. The builder would write it,
and the validator refuse it. -/
def WholeBytes (ramBytes : Option JsNumber) : Prop :=
  ∀ n, ramBytes = some n → n.isPositive = true → ∃ i, n.toInt? = some i

/-- A positive number that is an integer is a non-negative integer. -/
theorem toInt?_nonneg {n : JsNumber} {i : ℤ} (hpos : n.isPositive = true) (h : n.toInt? = some i) :
    0 ≤ i := by
  cases n with
  | infinite neg => exact nomatch h
  | finite x =>
    have hneg : x.neg = false := by
      simp only [JsNumber.isPositive, Bool.and_eq_true, Bool.not_eq_true'] at hpos
      exact hpos.1
    simp only [JsNumber.toInt?, hneg, Bool.false_eq_true, if_false, one_mul,
      Option.ite_none_right_eq_some, Option.some.injEq] at h
    rw [← h.2]
    exact Int.natCast_nonneg _

/-- The authority the builder emits is read back as its own key. -/
theorem exclusiveSingleKey_keyAuthority (key : JsString) :
    exclusiveSingleKey (some (keyAuthority key)) = some key := by
  have hone : weightAccepted (some (natural 1)) = true := by decide +kernel
  exact exclusiveSingleKey_some.2 ⟨_, _, _, _, rfl, rfl, rfl, rfl, rfl, rfl, hone⟩

section Built

variable (i : BuildActionsInput)

/-- The actions of the builder, as the validator reads them. -/
def builtFirst : OnboardAction where
  account := js "eosio"
  name := js "newaccount"
  authorization := [(i.authority, js "active")]
  data := [(js "creator", .str i.authority), (js "name", .str i.agent),
    (js "owner", keyAuthority i.authorityPublicKey), (js "active", keyAuthority i.agentPublicKey)]

/-- The memory action as the builder emits it. -/
def builtMiddle (bytes : JsNumber) : OnboardAction where
  account := js "eosio"
  name := js "buyrambytes"
  authorization := [(i.authority, js "active")]
  data := [(js "payer", .str i.authority), (js "receiver", .str i.agent), (js "bytes", .num bytes)]

/-- The policy action as the builder emits it. -/
def builtLast : OnboardAction where
  account := i.signboxContract
  name := js "createpolicy"
  authorization := [(i.authority, js "active"), (i.agent, js "owner")]
  data := [(js "agent", .str i.agent), (js "authority", .str i.authority),
    (js "agentperm", .str i.permission), (js "version", natural 1),
    (js "policyhash", .str i.emptyPolicyHash), (js "policyjson", .str i.emptyPolicyJson)]

/-- The built sequence reads back as the actions it was built from, with no middle one when no
memory is bought. -/
theorem reads_built : Reads (buildOnboardingActions i) (builtFirst i)
    ((i.ramBytes.filter JsNumber.isPositive).map (builtMiddle i)) (builtLast i) := by
  unfold buildOnboardingActions buyRam
  cases i.ramBytes with
  | none => exact ⟨[builtFirst i, builtLast i], rfl, rfl⟩
  | some bytes =>
    dsimp only
    by_cases hpos : bytes.isPositive = true
    · rw [if_pos hpos, Option.filter_some_pos hpos]
      exact ⟨[builtFirst i, builtMiddle i bytes, builtLast i], rfl, rfl⟩
    · rw [if_neg hpos, Option.filter_some_neg (by simpa using hpos)]
      exact ⟨[builtFirst i, builtLast i], rfl, rfl⟩

end Built

/-- What the request's payload has for the actions. -/
def actionsInput (args : BuildRequestArgs) (signboxContract authorityPublicKey : JsString) :
    BuildActionsInput where
  authority := args.input.authority
  agent := args.input.agent
  permission := args.input.permission
  agentPublicKey := args.agentPublicKey
  authorityPublicKey := authorityPublicKey
  signboxContract := signboxContract
  emptyPolicyJson := args.emptyPolicyJson
  emptyPolicyHash := args.emptyPolicyHash
  ramBytes := args.input.ramBytes

/-- **The request of an input** is accepted exactly when it does not buy a fraction of a byte. The
builder takes any number of bytes and the validator only whole ones. -/
theorem accepts_built {endpoints : List JsString} {signboxContract authorityPublicKey : JsString}
    {args : BuildRequestArgs} (hmatch : Matching trusted args.input signboxContract)
    (hjson : expectedEmptyPolicyCanonical args.input.chain.chain args.input.chain.chainId =
      .ok args.emptyPolicyJson) (hhex : isHex64 args.emptyPolicyHash = true) :
    (∃ derived, validateOnboardingPayload
      (requestPayload endpoints signboxContract args authorityPublicKey) trusted = .ok derived) ↔
        WholeBytes args.input.ramBytes := by
  obtain ⟨hchain, hid, hname, rfl, habsent⟩ := hmatch
  -- the builder's actions pass the checks on the sequence in any case
  let i := actionsInput args trusted.signboxContract authorityPublicKey
  have hseq : checkSequence (requestPayload endpoints trusted.signboxContract args
      authorityPublicKey) trusted = .ok (builtFirst i,
        (args.input.ramBytes.filter JsNumber.isPositive).map (builtMiddle i), builtLast i) := by
    refine checkSequence_ok.2 ⟨⟨_, rfl, reads_built i⟩, ⟨rfl, rfl⟩, ⟨rfl, rfl⟩, fun a ha => ?_⟩
    obtain ⟨bytes, -, rfl⟩ := Option.map_eq_some_iff.1 ha
    exact ⟨rfl, rfl⟩
  constructor
  -- an accepted amount is one that the check of the middle action lets through
  · rintro ⟨derived, h⟩ n hn hpos
    obtain ⟨first, middle, last, hacc⟩ := validate_ok.1 h
    have hread := Except.ok.inj (hacc.actions.symm.trans hseq)
    rw [hn, Option.filter_some_pos hpos] at hread
    obtain ⟨-, rfl, -⟩ : first = _ ∧ middle = some (builtMiddle i n) ∧ last = _ := by
      simpa using hread
    obtain ⟨-, -, hbytes, k, hk, -⟩ := checkMiddle_ok.1 hacc.bought
    have hsame : n = derived.ramBytes := Json.num.inj (Option.some.inj hbytes)
    exact ⟨k, hsame ▸ hk⟩
  -- everything else in the request is as the validator wants it
  · intro hwhole
    have hbought : ∃ ramBytes, checkMiddle args.input.authority args.input.agent
        ((args.input.ramBytes.filter JsNumber.isPositive).map (builtMiddle i)) = .ok ramBytes := by
      cases hf : args.input.ramBytes.filter JsNumber.isPositive with
      | none => exact ⟨_, rfl⟩
      | some n =>
        obtain ⟨hn, hpos⟩ := Option.filter_eq_some_iff.1 hf
        obtain ⟨k, hk⟩ := hwhole n hn hpos
        exact ⟨n, checkMiddle_ok.2 ⟨⟨rfl, rfl⟩, rfl, rfl, k, hk, toInt?_nonneg hpos hk⟩⟩
    obtain ⟨ramBytes, hbought⟩ := hbought
    refine ⟨⟨args.input.agent, args.input.authority, args.input.permission, args.agentPublicKey,
      authorityPublicKey, ramBytes, _⟩, validate_ok.2 ⟨_, _, _, ?_, hseq, rfl, rfl, rfl,
        exclusiveSingleKey_keyAuthority _, exclusiveSingleKey_keyAuthority _, hbought, ?_,
        ⟨_, _, rfl, rfl, rfl, rfl, rfl⟩, rfl⟩⟩
    · rw [hchain] at hid
      exact checkAnchors_ok.2 ⟨rfl, rfl, ⟨hchain ▸ rfl, hchain ▸ hid⟩, rfl, habsent⟩
    · refine checkPolicy_ok.2 ⟨rfl, rfl, rfl, rfl, ⟨_, rfl, hhex⟩, ⟨_, rfl, ?_⟩, rfl⟩
      rw [hchain, hname]
      exact hjson

/-! ## When they agree -/

/-- **The builder and the validator agree.** The payload of a request that matches what is trusted
is accepted exactly when it does not buy a fraction of a byte. And the actions of an accepted
payload are those the builder writes for what was derived from it, up to the order of members,
exactly when they are plain. -/
theorem builder_validator_agree {sha256 : List UInt8 → JsString}
    (hhex : ∀ bytes, isHex64 (sha256 bytes) = true) :
    (∀ trusted input signboxContract endpoints agentPublicKey authorityPublicKey json,
      Matching trusted input signboxContract →
      expectedEmptyPolicyCanonical input.chain.chain input.chain.chainId = .ok json →
      ((∃ derived, validateOnboardingPayload (requestPayload endpoints signboxContract
          ⟨input, agentPublicKey, json, sha256 (utf8 json)⟩ authorityPublicKey) trusted =
            .ok derived) ↔ WholeBytes input.ramBytes)) ∧
    ∀ payload trusted derived items json,
      validateOnboardingPayload payload trusted = .ok derived →
      payload.lookup (js "actions") = some (.arr items) →
      expectedEmptyPolicyCanonical trusted.chainName trusted.chainId = .ok json →
      PolicyHashed sha256 items →
      (List.Forall₂ Json.Same items (buildOnboardingActions
        (derivedInput derived trusted.signboxContract json (sha256 (utf8 json)))) ↔ Plain items) := by
  constructor
  · intro trusted input signboxContract endpoints agentKey authorityKey json hmatch hjson
    exact accepts_built hmatch hjson (hhex (utf8 json))
  · intro payload trusted derived items json h hitems hjson hhash
    exact built_of_accepted h hitems hjson hhash

namespace FunAgent

/-- Sixty-four zeros, a chain id of the right form. -/
def id64 : JsString := List.replicate 64 (unit '0')

/-- A digest that is 64 zeros. -/
def digest (_ : List UInt8) : JsString := id64

/-- The chain and contract the reader trusts, with no account of the agent on the chain yet. -/
def context : TrustedContext := ⟨id64, js "XPR", js "signbox", false⟩

/-- `funagent` of `rockerone`, with the given number of bytes. -/
def input (ramBytes : JsNumber) : OnboardingInput where
  chain := ⟨js "XPR", js "testnet", id64⟩
  authority := js "rockerone"
  agent := js "funagent"
  permission := js "active"
  exportPolicy := .nonExportable
  keystorePath := js "k"
  ramBytes := some ramBytes

/-- A positive number of bytes that is not whole. -/
def onePointFive : JsNumber := .finite ⟨false, 15, -1, by decide⟩

/-- The canonical text of the empty policy for this chain. -/
def policyText : JsString := (canonicalize (emptyPolicyValue (js "XPR") id64)).toOption.getD []

/-- The text is the one the validator computes for itself. -/
theorem policyText_eq : expectedEmptyPolicyCanonical (js "XPR") id64 = .ok policyText := by
  decide +kernel

/-- An onboarding request that differs from others only in its number of bytes. -/
def request (ramBytes : JsNumber) : List (JsString × Json) :=
  requestPayload [] (js "signbox") ⟨input ramBytes, js "PUB", policyText, id64⟩ (js "OWNER")

/-- The actions of a request without a purchase, with a member more in the data of the first. -/
def plainInput : BuildActionsInput :=
  ⟨js "rockerone", js "funagent", js "active", js "PUB", js "OWNER", js "signbox", policyText, id64,
    none⟩

/-- The account action of the built sequence with a memo added to its data. -/
def memoFirst : OnboardAction :=
  { builtFirst plainInput with data := (builtFirst plainInput).data ++ [(js "memo", .str [])] }

/-- The three actions, the first of them carrying the memo. -/
def memoItems : List Json :=
  [actionOf (js "eosio") (js "newaccount") [authorizationOf (js "rockerone") (js "active")]
    memoFirst.data,
    actionOf (js "signbox") (js "createpolicy")
      [authorizationOf (js "rockerone") (js "active"), authorizationOf (js "funagent") (js "owner")]
      (builtLast plainInput).data]

/-- A payload around these actions whose anchors all agree with the context. -/
def memoPayload : List (JsString × Json) :=
  (request onePointFive).map fun m =>
    if m.1 = js "actions" then (m.1, .arr memoItems) else m

/-- The chain id has the form the validator asks for. -/
theorem hex_id64 : isHex64 id64 = true := by decide +kernel

/-- Every request of this family agrees with the context, so only the number of bytes can
decide. -/
theorem matching (n : JsNumber) : Matching context (input n) (js "signbox") :=
  ⟨rfl, hex_id64, rfl, rfl, rfl⟩

/-- What the validator derives from the payload with the memo. -/
def memoDerived : OnboardDerived :=
  ⟨js "funagent", js "rockerone", js "active", js "PUB", js "OWNER", .finite (.ofNat 0), 2⟩

/-- The validator takes the payload although no builder emits it. -/
theorem memo_accepted : validateOnboardingPayload memoPayload context = .ok memoDerived := by
  refine validate_ok.2 ⟨memoFirst, none, builtLast plainInput, ?_, ?_, rfl, rfl, rfl,
    exclusiveSingleKey_keyAuthority _, exclusiveSingleKey_keyAuthority _, rfl, ?_,
    ⟨.ordinary, _, rfl, rfl, rfl, rfl, rfl⟩, rfl⟩
  · exact checkAnchors_ok.2 ⟨rfl, rfl, ⟨rfl, hex_id64⟩, rfl, rfl⟩
  · exact checkSequence_ok.2 ⟨⟨memoItems, rfl, _, rfl, rfl⟩, ⟨rfl, rfl⟩, ⟨rfl, rfl⟩, nofun⟩
  · exact checkPolicy_ok.2 ⟨rfl, rfl, rfl, rfl, ⟨id64, rfl, hex_id64⟩, ⟨policyText, rfl,
      policyText_eq⟩, rfl⟩

/-- The actions of the accepted payload are not the ones the builder emits for what was derived
from it: the memo is lost. -/
theorem memo_not_built : ¬ List.Forall₂ Json.Same memoItems (buildOnboardingActions
    (derivedInput memoDerived (js "signbox") policyText id64)) := by
  intro h
  obtain ⟨hfirst, -⟩ := List.forall₂_cons.1 h
  cases hfirst with
  | obj hfirst =>
    have hdata := hfirst (js "data")
    cases hdata with
    | some hdata =>
      cases hdata with
      | obj hdata => exact nomatch hdata (js "memo")

/-- A request for one and a half bytes is rejected, and a payload whose first action has a
member `memo` is accepted though the builder does not write it. -/
theorem fraction_and_memo :
    (¬ ∃ derived, validateOnboardingPayload (request onePointFive) context = .ok derived) ∧
    ∃ derived, validateOnboardingPayload memoPayload context = .ok derived ∧
      ¬ List.Forall₂ Json.Same memoItems (buildOnboardingActions
        (derivedInput derived (js "signbox") policyText id64)) := by
  refine ⟨fun h => ?_, memoDerived, memo_accepted, memo_not_built⟩
  have hwhole : WholeBytes (input onePointFive).ramBytes :=
    (@accepts_built context [] (js "signbox") (js "OWNER")
      ⟨input onePointFive, js "PUB", policyText, id64⟩ (matching _) policyText_eq hex_id64).1 h
  obtain ⟨i, hi⟩ := hwhole onePointFive rfl rfl
  exact nomatch hi

/-- A request for 4096 bytes is accepted, and the payload with the memo is not plain. -/
theorem builder_validator_funagent :
    (∃ derived, validateOnboardingPayload (request (.finite (.ofNat 4096))) context = .ok derived) ∧
    ¬ Plain memoItems := by
  obtain ⟨hbuilt, haccepted⟩ := @builder_validator_agree digest fun _ => hex_id64
  constructor
  · refine (hbuilt context (input (.finite (.ofNat 4096))) (js "signbox") [] (js "PUB") (js "OWNER")
      policyText (matching _) policyText_eq).2 ?_
    rintro n hn -
    obtain rfl := Option.some.inj hn
    exact ⟨4096, by decide +kernel⟩
  · have hhash : PolicyHashed digest memoItems := by
      rintro p ms q d text hlast hd -
      obtain ⟨rfl, rfl⟩ := Json.obj.inj (Option.some.inj hlast)
      obtain ⟨rfl, rfl⟩ := Json.obj.inj (Option.some.inj hd)
      rfl
    exact fun hplain => memo_not_built ((haccepted memoPayload context memoDerived memoItems
      policyText memo_accepted rfl policyText_eq hhash).2 hplain)

end FunAgent

end Onboard

end Signbox
