import Signbox.Proof.PolicyText
import Signbox.Proof.Validated
import Signbox.Spec.Cache
import Signbox.Spec.Engine

/-!
# Stored texts

What rests on the canonical form: a stored policy is verified only as the canonical text of
its document, and an evidence key is the canonical text of a query.

* `read_distinct`: the reader builds objects with distinct keys.
* `verifyStoredPolicy_inj`: a policy has one accepted text.
* `evidenceKey_inj`: an evidence key has one query.
* `canonical_form`: these with the two facts about the canonical form.
-/

namespace Signbox

open Guard

/-! ## What the reader builds -/

mutual
/-- The keys of every object are distinct. -/
def Json.Distinct : Json → Prop
  | .arr items => DistinctItems items
  | .obj _ ms => (ms.map Prod.fst).Nodup ∧ DistinctMembers ms
  | _ => True

/-- Distinct keys in every entry. -/
def DistinctItems : List Json → Prop
  | [] => True
  | v :: vs => v.Distinct ∧ DistinctItems vs

/-- Distinct keys in every member's value. -/
def DistinctMembers : List (JsString × Json) → Prop
  | [] => True
  | (_, v) :: ms => v.Distinct ∧ DistinctMembers ms
end

/-- A member's value has distinct keys at every level if the whole has, -/
theorem distinct_member : ∀ {ms : List (JsString × Json)} {key : JsString} {v : Json},
    DistinctMembers ms → ms.lookup key = some v → v.Distinct
  | [], _, _, _, h => by simp at h
  | (k, w) :: ms, key, v, hd, h => by
    rw [List.lookup_cons] at h
    split at h
    · rw [← Option.some.inj h]
      exact hd.1
    · exact distinct_member hd.2 h

/-- and so does an entry. -/
theorem distinct_item : ∀ {vs : List Json} {v : Json}, DistinctItems vs → v ∈ vs → v.Distinct
  | [], _, _, h => absurd h List.not_mem_nil
  | w :: vs, v, hd, h => by
    rcases List.mem_cons.1 h with rfl | h
    · exact hd.1
    · exact distinct_item hd.2 h

mutual
/-- A sound value has distinct keys; what soundness asks beyond that is of its numbers. -/
theorem distinct_of_sound {nearest : Decimal → JsNumber} : ∀ v : Json, v.Sound nearest → v.Distinct
  | .null, _ => trivial
  | .bool _, _ => trivial
  | .num _, _ => trivial
  | .str _, _ => trivial
  | .arr items, h => distinctItems_of_sound items h
  | .obj _ ms, h => ⟨h.1, distinctMembers_of_sound ms h.2⟩

/-- The same for entries -/
theorem distinctItems_of_sound {nearest : Decimal → JsNumber} : ∀ vs : List Json,
    SoundItems nearest vs → DistinctItems vs
  | [], _ => trivial
  | v :: vs, h => ⟨distinct_of_sound v h.1, distinctItems_of_sound vs h.2⟩

/-- and for members. -/
theorem distinctMembers_of_sound {nearest : Decimal → JsNumber} : ∀ ms : List (JsString × Json),
    SoundMembers nearest ms → DistinctMembers ms
  | [], _ => trivial
  | (_, v) :: ms, h => ⟨distinct_of_sound v h.1, distinctMembers_of_sound ms h.2⟩
end

mutual
/-- A value that has a canonical form has no infinity in it. -/
theorem sound_of_canonicalize : ∀ (v : Json) {text : JsString}, v.Distinct →
    canonicalize v = .ok text → v.Sound JsNumber.finite
  | .null, _, _, _ => trivial
  | .bool _, _, _, _ => trivial
  | .num (.finite _), _, _, _ => rfl
  | .num (.infinite _), _, _, h => by simp [canonicalize] at h
  | .str _, _, _, _ => trivial
  | .arr items, _, hd, h => by
    rw [canonicalize, bind_ok] at h
    obtain ⟨texts, htexts, -⟩ := h
    exact soundItems_of_canonicalize items hd htexts
  | .obj _ ms, _, hd, h => by
    rw [canonicalize, bind_ok] at h
    obtain ⟨texts, htexts, -⟩ := h
    exact ⟨hd.1, soundMembers_of_canonicalize ms hd.2 htexts⟩

/-- Entries that serialize hold no number without a text. -/
theorem soundItems_of_canonicalize : ∀ (vs : List Json) {texts : List JsString},
    DistinctItems vs → canonicalizeItems vs = .ok texts → SoundItems JsNumber.finite vs
  | [], _, _, _ => trivial
  | v :: vs, _, hd, h => by
    simp only [canonicalizeItems, bind_ok] at h
    obtain ⟨t, ht, ts, hts, -⟩ := h
    exact ⟨sound_of_canonicalize v hd.1 ht, soundItems_of_canonicalize vs hd.2 hts⟩

/-- Nor do members that serialize. -/
theorem soundMembers_of_canonicalize : ∀ (ms : List (JsString × Json))
    {texts : List (JsString × JsString)}, DistinctMembers ms → canonicalizeMembers ms = .ok texts →
    SoundMembers JsNumber.finite ms
  | [], _, _, _ => trivial
  | (k, v) :: ms, _, hd, h => by
    simp only [canonicalizeMembers, bind_ok] at h
    obtain ⟨t, ht, ts, hts, -⟩ := h
    exact ⟨sound_of_canonicalize v hd.1 ht, soundMembers_of_canonicalize ms hd.2 hts⟩
end

namespace JsonText

/-- Setting a member keeps its siblings distinct inside. -/
theorem distinct_mapSet {key : JsString} {v : Json} (hv : v.Distinct) :
    ∀ {ms : List (JsString × Json)}, DistinctMembers ms → DistinctMembers (mapSet key v ms)
  | [], _ => ⟨hv, trivial⟩
  | (k, w) :: ms, hd => by
    by_cases hk : k = key
    · rw [mapSet, if_pos hk]
      exact ⟨hv, hd.2⟩
    · rw [mapSet, if_neg hk]
      exact ⟨hd.1, distinct_mapSet hv hd.2⟩

/-- So does setting one after another. -/
theorem distinct_foldl : ∀ (ms acc : List (JsString × Json)), DistinctMembers ms →
    DistinctMembers acc → DistinctMembers (ms.foldl (fun acc m => mapSet m.1 m.2 acc) acc)
  | [], _, _, hacc => hacc
  | (_, _) :: ms, _, hd, hacc => distinct_foldl ms _ hd.2 (distinct_mapSet hd.1 hacc)

/-- What a parser builds from its members has each key once, the last value winning. -/
theorem distinct_defineAll {ms : List (JsString × Json)} (hd : DistinctMembers ms) :
    ((defineAll ms).map Prod.fst).Nodup ∧ DistinctMembers (defineAll ms) :=
  ⟨@nodup_foldl_mapSet Json [] ms List.nodup_nil, distinct_foldl ms [] hd trivial⟩

/-- Everything the reader builds has distinct keys. -/
theorem read_distinct (nearest : Decimal → JsNumber) : ∀ n : ℕ,
    (∀ {s v rest}, readValue nearest n s = some (v, rest) → v.Distinct) ∧
    (∀ {s vs rest}, readItems nearest n s = some (vs, rest) → DistinctItems vs) ∧
    (∀ {s ms rest}, readMembers nearest n s = some (ms, rest) → DistinctMembers ms)
  | 0 => by
    refine ⟨?_, ?_, ?_⟩ <;> intro s x rest h
    · simp [readValue] at h
    · simp [readItems] at h
    · simp [readMembers] at h
  | n + 1 => by
    obtain ⟨ihv, ihi, ihm⟩ := read_distinct nearest n
    refine ⟨?_, ?_, ?_⟩
    · intro s v rest h
      cases hs : skipSpace s with
      | nil => simp [readValue, hs] at h
      | cons u us =>
        rw [readValue, hs] at h
        simp only at h
        split at h
        · obtain ⟨p, -, heq⟩ := Option.map_eq_some_iff.1 h
          cases heq
          trivial
        split at h
        · split at h
          · cases h
            trivial
          · obtain ⟨p, hitems, heq⟩ := Option.map_eq_some_iff.1 h
            cases heq
            exact ihi hitems
        split at h
        · split at h
          · cases h
            exact ⟨List.nodup_nil, trivial⟩
          · obtain ⟨p, hmembers, heq⟩ := Option.map_eq_some_iff.1 h
            cases heq
            exact distinct_defineAll (ihm hmembers)
        -- the other values have no keys
        split at h
        · obtain ⟨p, -, heq⟩ := Option.map_eq_some_iff.1 h
          cases heq
          trivial
        split at h
        · obtain ⟨p, -, heq⟩ := Option.map_eq_some_iff.1 h
          cases heq
          trivial
        split at h
        · obtain ⟨p, -, heq⟩ := Option.map_eq_some_iff.1 h
          cases heq
          trivial
        · obtain ⟨p, -, heq⟩ := Option.map_eq_some_iff.1 h
          cases heq
          trivial
    · intro s vs rest h
      simp only [readItems, Option.bind_eq_bind, Option.bind_eq_some_iff] at h
      obtain ⟨⟨v, s₁⟩, hv, ⟨more, s₂⟩, -, h⟩ := h
      cases more with
      | false =>
        cases h
        exact ⟨ihv hv, trivial⟩
      | true =>
        simp only [if_true, Option.bind_eq_some_iff] at h
        obtain ⟨⟨ws, s₃⟩, hws, h⟩ := h
        cases h
        exact ⟨ihv hv, ihi hws⟩
    · intro s ms rest h
      simp only [readMembers, Option.bind_eq_bind, Option.bind_eq_some_iff] at h
      obtain ⟨s₀, -, ⟨key, s₁⟩, -, s₂, -, ⟨v, s₃⟩, hv, ⟨more, s₄⟩, -, h⟩ := h
      cases more with
      | false =>
        cases h
        exact ⟨ihv hv, trivial⟩
      | true =>
        simp only [if_true, Option.bind_eq_some_iff] at h
        obtain ⟨⟨ns, s₅⟩, hns, h⟩ := h
        cases h
        exact ⟨ihv hv, ihm hns⟩

end JsonText

/-- So whatever is parsed has distinct keys at every level. -/
theorem parse_distinct {nearest : Decimal → JsNumber} {text : JsString} {v : Json}
    (h : Json.parse nearest text = some v) : v.Distinct := by
  unfold Json.parse at h
  cases hread : JsonText.readValue nearest (text.length + 1) text with
  | none => simp [hread] at h
  | some p =>
    obtain ⟨w, rest⟩ := p
    simp only [hread, Option.ite_none_right_eq_some, Option.some.injEq] at h
    rw [← h.2]
    exact (JsonText.read_distinct nearest _).1 hread

/-! ## Stored policies and provider queries -/

variable {nearest : Decimal → JsNumber} {sha256 : List UInt8 → JsString} {dialect : PolicyDialect}

/-- A text is verified when its hash matches and it parses, to a document that is valid and
whose canonical form it is. -/
theorem verifyStoredPolicy_ok {R : PolicyReading} {text hash : JsString} {policy : Policy} :
    verifyStoredPolicy R text hash = .ok (.ok policy) ↔
      R.sha256 (utf8 text) = toLowerCase hash ∧ ∃ doc, R.parse text = some doc ∧
        validatePolicy doc R.dialect = .ok policy ∧ canonicalize doc = .ok text := by
  unfold verifyStoredPolicy
  by_cases hhash : R.sha256 (utf8 text) ≠ toLowerCase hash
  · simp [hhash]
  rw [if_neg hhash]
  rw [not_not] at hhash
  simp only [hhash, true_and]
  constructor
  · intro h
    cases hparse : R.parse text with
    | none => simp [hparse] at h
    | some doc =>
      cases hcanon : canonicalize doc with
      | error e => simp [hparse, hcanon, Except.map] at h
      | ok canonical =>
        simp only [hparse, hcanon, Except.map, Except.ok.injEq] at h
        by_cases htext : canonical ≠ text
        · simp [htext] at h
        rw [if_neg htext] at h
        cases hvalid : validatePolicy doc R.dialect with
        | error e => simp [hvalid] at h
        | ok p =>
          simp only [hvalid, Except.ok.injEq] at h
          rw [not_not] at htext
          exact ⟨doc, rfl, by rw [hvalid, h], by rw [hcanon, htext]⟩
  · rintro ⟨doc, hparse, hvalid, hcanon⟩
    simp [hparse, hcanon, Except.map, hvalid]

/-- **A stored policy has one accepted text.** The text has to be the canonical one of what it
parses to, and that is determined by the policy it validates to. -/
theorem verifyStoredPolicy_inj {text text' hash hash' : JsString} {policy : Policy}
    (h : verifyStoredPolicy ⟨sha256, Json.parse nearest, dialect⟩ text hash = .ok (.ok policy))
    (h' : verifyStoredPolicy ⟨sha256, Json.parse nearest, dialect⟩ text' hash' =
      .ok (.ok policy)) : text = text' := by
  obtain ⟨-, doc, hparse, hvalid, hcanon⟩ := verifyStoredPolicy_ok.1 h
  obtain ⟨-, doc', hparse', hvalid', hcanon'⟩ := verifyStoredPolicy_ok.1 h'
  have hsame : doc.Same doc' := Schema.faithful_policy (validatePolicy_ok.1 hvalid).1
    (validatePolicy_ok.1 hvalid').1
  have hsound := sound_of_canonicalize doc (parse_distinct hparse) hcanon
  have hsound' := sound_of_canonicalize doc' (parse_distinct hparse') hcanon'
  have heq := (canonicalize_eq_iff hsound hsound').2 hsame
  rw [hcanon, hcanon', Except.ok.injEq] at heq
  exact heq

/-- The document of a provider query. -/
def queryDoc (provider : JsString) (args : ProviderArgs) : Json :=
  .obj .ordinary [(js "provider", .str provider),
    (js "args", .obj .ordinary [(js "contract", .str args.contract), (js "scope", .str args.scope),
      (js "table", .str args.table), (js "key", .str args.key)])]

/-- The document of a query holds only strings. -/
theorem queryDoc_sound (provider : JsString) (args : ProviderArgs) :
    (queryDoc provider args).Sound JsNumber.finite := by
  have houter : [js "provider", js "args"].Nodup := by decide
  have hinner : [js "contract", js "scope", js "table", js "key"].Nodup := by decide
  exact ⟨houter, trivial, ⟨hinner, trivial, trivial, trivial, trivial, trivial⟩, trivial⟩

/-- **An evidence key determines the provider and its four arguments**, because the key is a
canonical text of them. -/
theorem evidenceKey_inj {provider provider' : JsString} {args args' : ProviderArgs}
    (h : evidenceKey provider args = evidenceKey provider' args') :
    provider = provider' ∧ args = args' := by
  have hsame : (queryDoc provider args).Same (queryDoc provider' args') :=
    (canonicalize_eq_iff (queryDoc_sound provider args) (queryDoc_sound provider' args')).1 h
  have hprovider := (hsame.at (k := js "provider") rfl rfl).str_eq
  have hargs := hsame.at (k := js "args") rfl rfl
  have hcontract := (hargs.at (k := js "contract") rfl rfl).str_eq
  have hscope := (hargs.at (k := js "scope") rfl rfl).str_eq
  have htable := (hargs.at (k := js "table") rfl rfl).str_eq
  have hkey := (hargs.at (k := js "key") rfl rfl).str_eq
  refine ⟨hprovider, ?_⟩
  cases args
  cases args'
  simp_all

/-- **The canonical form is one text for each JSON value.** Two values have one text exactly when
they are the same, and the reader takes the text back to a value with that text. So a stored policy
that verifies is stored as the canonical text of a document that validates to it, no other text
verifies to the same policy, and different provider queries have different evidence keys. -/
theorem canonical_form (nearest : Decimal → JsNumber) (sha256 : List UInt8 → JsString)
    (dialect : PolicyDialect) :
    (∀ u v : Json, u.Sound nearest → v.Sound nearest →
      (canonicalize u = canonicalize v ↔ u.Same v)) ∧
    (∀ v : Json, v.Sound nearest → ∃ text w, canonicalize v = .ok text ∧
      Json.parse nearest text = some w ∧ w.Same v ∧ canonicalize w = .ok text) ∧
    (∀ text hash policy,
      verifyStoredPolicy ⟨sha256, Json.parse nearest, dialect⟩ text hash = .ok (.ok policy) →
      ∃ doc, Json.parse nearest text = some doc ∧ validatePolicy doc dialect = .ok policy ∧
        canonicalize doc = .ok text) ∧
    (∀ text text' hash hash' policy,
      verifyStoredPolicy ⟨sha256, Json.parse nearest, dialect⟩ text hash = .ok (.ok policy) →
      verifyStoredPolicy ⟨sha256, Json.parse nearest, dialect⟩ text' hash' = .ok (.ok policy) →
      text = text') ∧
    (∀ provider provider' args args',
      evidenceKey provider args = evidenceKey provider' args' →
      provider = provider' ∧ args = args') := by
  refine ⟨fun u v => canonicalize_eq_iff, ?_, ?_, ?_, ?_⟩
  · intro v hv
    obtain ⟨text, htext, hparse, hagain⟩ := parse_canonicalize hv
    refine ⟨text, v.canonical, htext, hparse, ?_, hagain⟩
    exact (canonical_eq_iff _ v (canonical_sound v hv) hv).1 (canonical_canonical v)
  · intro text hash policy h
    exact (verifyStoredPolicy_ok.1 h).2
  · intro text text' hash hash' policy h h'
    exact verifyStoredPolicy_inj h h'
  · intro provider provider' args args' h
    exact evidenceKey_inj h

/-! The canonical empty policy of a chain, and the same document in another order. -/

namespace EmptyPolicy

/-- The identifier of the main network. -/
def chainId : JsString := js "384da888112027f0321850a169f737c33e53b388aad48b5adace4bab97f437e0"

/-- The digest of the empty policy, as the onboarding writes it. -/
def policyhash : JsString := js "98237953cd2602d6a478016b266f47e36f72652dd1b7e023631ba9c77fc6264d"

/-- The empty policy as a document. -/
def doc : Json :=
  .obj .ordinary [(js "chain", .obj .ordinary [(js "chainId", .str chainId),
      (js "name", .str (js "xpr"))]),
    (js "default", .str (js "deny")), (js "rules", .arr []),
    (js "schemaVersion", .num (.finite (.ofNat 1)))]

/-- The same with its members in another order. -/
def shuffled : Json :=
  .obj .bare [(js "schemaVersion", .num (.finite (.ofNat 1))), (js "rules", .arr []),
    (js "chain", .obj .bare [(js "name", .str (js "xpr")), (js "chainId", .str chainId)]),
    (js "default", .str (js "deny"))]

/-- The document is sound, -/
theorem doc_sound : doc.Sound JsNumber.finite := by
  have houter : [js "chain", js "default", js "rules", js "schemaVersion"].Nodup := by decide
  have hchain : [js "chainId", js "name"].Nodup := by decide
  exact ⟨houter, ⟨hchain, trivial, trivial, trivial⟩, trivial, trivial, rfl, trivial⟩

/-- in either order. -/
theorem shuffled_sound : shuffled.Sound JsNumber.finite := by
  have houter : [js "schemaVersion", js "rules", js "chain", js "default"].Nodup := by decide
  have hchain : [js "name", js "chainId"].Nodup := by decide
  exact ⟨houter, rfl, trivial, ⟨hchain, trivial, trivial, trivial⟩, trivial, trivial⟩

/-- The digest is that of the text of `doc`. -/
theorem verified : verifyStoredPolicy ⟨fun _ => policyhash, Json.parse .finite, xprDialect⟩
    doc.stringify policyhash = .ok (.ok (emptyPolicy (js "xpr") chainId)) := by
  have hordinary : doc.ordinary = doc := rfl
  have hhash : policyhash = toLowerCase policyhash := rfl
  refine verifyStoredPolicy_ok.2 ⟨hhash, doc, ?_, rfl, canonicalize_ok doc doc_sound⟩
  dsimp only
  rw [parse_stringify doc_sound, hordinary]

/-- Both orders have one canonical text, and it reads back as the document. -/
theorem canonical_form_empty :
    (canonicalize doc = canonicalize shuffled ↔ doc.Same shuffled) ∧
    (∃ text w, canonicalize shuffled = .ok text ∧ Json.parse .finite text = some w ∧
      w.Same shuffled ∧ canonicalize w = .ok text) ∧
    (∃ d, Json.parse .finite doc.stringify = some d ∧
      validatePolicy d xprDialect = .ok (emptyPolicy (js "xpr") chainId) ∧
      canonicalize d = .ok doc.stringify) ∧
    doc.stringify = shuffled.canonical.stringify ∧
    js "xpr.rpc.tableRow" = js "xpr.rpc.tableRow" ∧
      (⟨js "eosio", js "eosio", js "voters", js "bot"⟩ : ProviderArgs) =
        ⟨js "eosio", js "eosio", js "voters", js "bot"⟩ := by
  obtain ⟨hsame, hparse, hdoc, hunique, hkey⟩ :=
    canonical_form .finite (fun _ => policyhash) xprDialect
  have hcanonical : shuffled.canonical = doc := rfl
  exact ⟨hsame doc shuffled doc_sound shuffled_sound, hparse shuffled shuffled_sound,
    hdoc _ _ _ verified, hunique _ _ _ _ _ verified (by rw [hcanonical]; exact verified),
    hkey _ _ _ _ rfl⟩

end EmptyPolicy

end Signbox
