import Signbox.Guard.HashChain
import Signbox.Proof.StoredText
import Signbox.Proof.Utf8
import Signbox.Spec.AuditLog

/-!
# What the audit log commits to

The records of a table are a hash chain exactly when `verify` accepts it, and exactly when
`append` produces them from their entries. With an injective hash the last entry hash commits
to all of them.

* `verifyFrom_none`, `appendAll_iff`: the two walks as one chain.
* `toRecord_entryRow`: what is read back of an entry's row.
* `commits`: a hash determines the fields it covers.
* `verifyFrom_kept`: the walk along what is left of appended rows.
* `audit_log`: the three results.
-/

namespace Signbox

open Guard

/-! ## Integers as numbers -/

/-- Dropping trailing zeros raises the exponent, keeps the value and leaves a digit that is not
zero. -/
theorem strip_spec : ∀ (fuel c : ℕ) (e : ℤ), 0 < c → c ≤ fuel →
    (Decimal.strip fuel c e).coeff % 10 ≠ 0 ∧ e ≤ (Decimal.strip fuel c e).exp ∧
      (Decimal.strip fuel c e).coeff * 10 ^ ((Decimal.strip fuel c e).exp - e).toNat = c
  | 0, c, e, hpos, hle => by omega
  | fuel + 1, c, e, hpos, hle => by
    by_cases hc : c % 10 ≠ 0
    · rw [Decimal.strip, dif_pos hc]
      exact ⟨hc, le_rfl, by simp⟩
    · obtain ⟨hcoeff, hexp, hvalue⟩ := strip_spec fuel (c / 10) (e + 1) (by omega) (by omega)
      rw [Decimal.strip, dif_neg hc]
      refine ⟨hcoeff, by omega, ?_⟩
      generalize Decimal.strip fuel (c / 10) (e + 1) = d at hexp hvalue ⊢
      have hsucc : (d.exp - e).toNat = (d.exp - (e + 1)).toNat + 1 := by omega
      rw [hsucc, pow_succ, ← Nat.mul_assoc, hvalue]
      omega

/-- The number of an integer is that integer. -/
theorem toInt?_ofInt (i : ℤ) : (JsNumber.finite (.ofInt i)).toInt? = some i := by
  by_cases hi : i = 0
  · subst hi
    decide
  · obtain ⟨hcoeff, hexp, hvalue⟩ := strip_spec i.natAbs i.natAbs 0 (by omega) le_rfl
    unfold Decimal.ofInt Decimal.ofParts JsNumber.toInt?
    rw [dif_pos hcoeff]
    simp only
    rw [if_pos hexp]
    rw [sub_zero] at hvalue
    rw [hvalue, Option.some.injEq]
    by_cases hneg : i < 0
    · rw [if_pos (by simpa using hneg)]
      omega
    · rw [if_neg (by simpa using hneg)]
      omega

namespace AuditLog

/-- Integers of the same number are equal, as the numbers of a row are. -/
theorem number_inj {i j : ℤ} (h : (number i).Same (number j)) : i = j := by
  have hj := toInt?_ofInt j
  rw [← h.num_eq, toInt?_ofInt] at hj
  exact Option.some.inj hj

/-! ## Records as a chain -/

variable {sha256 : List UInt8 → JsString} {nearest : Decimal → JsNumber} {t t' : AuditTable}
  {r : AuditRecord} {rs rs' : List AuditRecord} {row : AuditRow} {rows : List AuditRow}
  {e : AuditEntryInput} {first : JsString} {n : ℤ}

/-- The link of the chain that a record is: its number, the hash before it, its own, and the
entry. -/
def AuditRecord.link (r : AuditRecord) : Link JsString AuditEntryInput :=
  ⟨r.seq, r.prevHash, r.entryHash, r.toAuditEntryInput⟩

/-- What an entry hash covers: the number, the hash before it, and all fields of the entry. -/
def Hashed (sha256 : List UInt8 → JsString) (seq : ℤ) (prevHash : JsString) (e : AuditEntryInput)
    (entryHash : JsString) : Prop := computeHash sha256 seq prevHash e = .ok entryHash

/-- A record that reads has the row's place and its two hashes. -/
theorem toRecord_ok (h : toRecord nearest row = .ok r) :
    r.seq = row.seq ∧ r.prevHash = row.prevHash ∧ r.entryHash = row.entryHash := by
  simp only [toRecord, bind_ok, pure_eq, Except.ok.injEq] at h
  obtain ⟨contracts, -, ruleIds, -, rfl⟩ := h
  exact ⟨rfl, rfl, rfl⟩

/-- **The walk finds nothing broken exactly on a chain**: the rows can be read, each stands at its
place, names the hash before it and carries the hash of its fields. -/
theorem verifyFrom_none : ∀ {rows : List AuditRow} {first : JsString} {n : ℤ},
    verifyFrom sha256 nearest first n rows = .ok none ↔
      ∃ rs, rows.mapM (toRecord nearest) = .ok rs ∧
        Chain (Hashed sha256) first n (rs.map AuditRecord.link)
  | [], first, n => by simp [verifyFrom, Chain]
  | row :: rows, first, n => by
    have ih := fun p => @verifyFrom_none rows p (n + 1)
    rw [verifyFrom]
    constructor
    -- the walk went past this row, so none of its three tests has failed
    · intro h
      by_cases hseq : row.seq ≠ n
      · simp [hseq] at h
      rw [if_neg hseq] at h
      by_cases hprev : row.prevHash ≠ first
      · simp [hprev] at h
      rw [if_neg hprev, bind_ok] at h
      obtain ⟨r, hr, h⟩ := h
      rw [bind_ok] at h
      obtain ⟨hash, hhash, h⟩ := h
      by_cases heq : hash ≠ row.entryHash
      · simp [heq] at h
      rw [if_neg heq] at h
      rw [not_not] at hseq hprev heq
      obtain ⟨rs, hrs, hchain⟩ := (ih _).1 h
      obtain ⟨h₁, h₂, h₃⟩ := toRecord_ok hr
      refine ⟨r :: rs, by simp [List.mapM_cons, hr, hrs], ?_⟩
      refine ⟨h₁.trans hseq, h₂.trans hprev, ?_, ?_⟩
      · show computeHash sha256 r.seq r.prevHash r.toAuditEntryInput = .ok r.entryHash
        rw [h₁, h₂, h₃, hhash, heq]
      · show Chain (Hashed sha256) r.entryHash (n + 1) (rs.map AuditRecord.link)
        rwa [h₃]
    -- conversely every test passes on a link of the chain
    · rintro ⟨rs, hrs, hchain⟩
      simp only [List.mapM_cons, bind_ok, pure_eq, Except.ok.injEq] at hrs
      obtain ⟨r, hr, rs, hrs, rfl⟩ := hrs
      obtain ⟨h₁, h₂, h₃⟩ := toRecord_ok hr
      obtain ⟨hseq, hprev, hhash, hchain⟩ := hchain
      have hseq' : row.seq = n := h₁.symm.trans hseq
      have hprev' : row.prevHash = first := h₂.symm.trans hprev
      have hhash' : computeHash sha256 row.seq row.prevHash r.toAuditEntryInput =
          .ok row.entryHash := by
        rw [← h₁, ← h₂, ← h₃]
        exact hhash
      have hrest : verifyFrom sha256 nearest row.entryHash (n + 1) rows = .ok none := by
        refine (ih _).2 ⟨rs, hrs, ?_⟩
        rw [← h₃]
        exact hchain
      rw [if_neg (not_not.2 hseq'), if_neg (not_not.2 hprev'), hr, ok_bind, hhash', ok_bind,
        if_neg (not_not.2 rfl)]
      exact hrest

/-- After a row is pushed, the next one follows it. -/
theorem next_push {h : row.seq = t.next.1} :
    (t.push row h).next = (row.seq + 1, row.entryHash) := by
  unfold AuditTable.next AuditTable.push
  rw [List.getLast?_concat]

/-- Appending succeeds exactly when the entry hashes at the next place, and then pushes its row. -/
theorem append_ok {p : AuditTable × AuditRecord} : append sha256 t e = .ok p ↔
    ∃ hash, Hashed sha256 t.next.1 t.next.2 e hash ∧
      p = (t.push (entryRow t.next.1 t.next.2 hash e) (entryRow_seq ..),
        { e with seq := t.next.1, prevHash := t.next.2, entryHash := hash }) := by
  unfold append Hashed
  cases computeHash sha256 t.next.1 t.next.2 e with
  | error err => simp [Except.map]
  | ok hash => simp [Except.map, eq_comm]

/-- **Appending the entries of records gives these records exactly when they are a chain.** The
induction is on the records, from the place and the hash at which the table stands. -/
theorem appendAll_iff : ∀ {rs : List AuditRecord} {t : AuditTable},
    (∃ t', appendAll sha256 t (rs.map AuditRecord.toAuditEntryInput) = .ok (t', rs)) ↔
      Chain (Hashed sha256) t.next.2 t.next.1 (rs.map AuditRecord.link)
  | [], t => by simp [appendAll, Chain]
  | r :: rs, t => by
    have ih := fun t => @appendAll_iff rs t
    rw [List.map_cons, appendAll, List.map_cons, Chain]
    constructor
    · rintro ⟨t', h⟩
      rw [bind_ok] at h
      obtain ⟨⟨t₁, r₁⟩, happend, h⟩ := h
      rw [bind_ok] at h
      obtain ⟨⟨t₂, rs₂⟩, hall, h⟩ := h
      simp only [pure_eq, Except.ok.injEq, Prod.mk.injEq, List.cons.injEq] at h
      obtain ⟨rfl, rfl, rfl⟩ := h
      obtain ⟨hash, hhash, hp⟩ := append_ok.1 happend
      obtain ⟨rfl, hr⟩ := Prod.mk.inj hp
      have hchain := (ih _).1 ⟨_, hall⟩
      rw [next_push] at hchain
      rw [hr] at hchain ⊢
      exact ⟨rfl, rfl, hhash, hchain⟩
    · rintro ⟨hseq, hprev, hhash, hchain⟩
      obtain ⟨e, seq, prevHash, entryHash⟩ := r
      simp only [AuditRecord.link] at hseq hprev hhash hchain
      subst hseq hprev
      have happend := append_ok.2 ⟨entryHash, hhash, rfl⟩
      obtain ⟨t', hall⟩ := (ih (t.push (entryRow t.next.1 t.next.2 entryHash e)
        (entryRow_seq ..))).2 (by rw [next_push]; exact hchain)
      refine ⟨t', ?_⟩
      rw [happend, ok_bind]
      simp only [hall, ok_bind, pure_eq]

/-- `verify` counts the rows of a chain. -/
theorem verify_ok {k : ℕ} : verify sha256 nearest t = .ok (.ok k) ↔ k = t.rows.length ∧
    ∃ rs, records nearest t = .ok rs ∧
      Chain (Hashed sha256) GENESIS_HASH 1 (rs.map AuditRecord.link) := by
  have hiff := @verifyFrom_none sha256 nearest t.rows GENESIS_HASH 1
  unfold records
  rw [← hiff, verify]
  cases verifyFrom sha256 nearest GENESIS_HASH 1 t.rows with
  | error err => simp
  | ok broken =>
    cases broken with
    | none => simp [eq_comm]
    | some b => simp

/-! ## Appended logs read back -/

mutual
/-- Serializing does not look at prototypes, -/
theorem canonicalize_ordinary : ∀ v : Json, canonicalize v.ordinary = canonicalize v
  | .null => rfl
  | .bool _ => rfl
  | .num _ => rfl
  | .str _ => rfl
  | .arr items => by
    rw [Json.ordinary, canonicalize, canonicalize, canonicalizeItems_ordinary items]
  | .obj _ ms => by
    rw [Json.ordinary, canonicalize, canonicalize, canonicalizeMembers_ordinary ms]

/-- in entries -/
theorem canonicalizeItems_ordinary : ∀ vs : List Json,
    canonicalizeItems (ordinaryItems vs) = canonicalizeItems vs
  | [] => rfl
  | v :: vs => by
    rw [ordinaryItems, canonicalizeItems, canonicalizeItems, canonicalize_ordinary v,
      canonicalizeItems_ordinary vs]

/-- or in members. -/
theorem canonicalizeMembers_ordinary : ∀ ms : List (JsString × Json),
    canonicalizeMembers (ordinaryMembers ms) = canonicalizeMembers ms
  | [] => rfl
  | (k, v) :: ms => by
    rw [ordinaryMembers, canonicalizeMembers, canonicalizeMembers, canonicalize_ordinary v,
      canonicalizeMembers_ordinary ms]
end

/-- The strings of an entry that are written to a column as they are. The two JSON fields are
escaped, and so do not count. -/
def AuditEntryInput.texts (e : AuditEntryInput) : List JsString :=
  [e.requestId, e.agent, e.decision] ++ e.code.toList ++ e.digest.toList ++ e.broadcast.toList

/-- The strings of the entry are well-formed Unicode: none has a lone surrogate. Such a string
comes back from its column as it was. -/
def AuditEntryInput.Unicode (e : AuditEntryInput) : Prop := ∀ s ∈ e.texts, WellFormed s

/-- The two JSON fields hold JSON values, with distinct keys and numbers that read back as
themselves. -/
structure AuditEntryInput.Sound (nearest : Decimal → JsNumber) (e : AuditEntryInput) : Prop where
  contracts : e.contracts.Sound nearest
  ruleIds : ∀ v, e.ruleIds = some v → v.Sound nearest

/-- The entry with the strings that its columns give back. It is the entry itself when its strings
are well-formed. -/
def AuditEntryInput.stored (e : AuditEntryInput) : AuditEntryInput :=
  { e with
    requestId := AuditLog.stored e.requestId
    agent := AuditLog.stored e.agent
    decision := AuditLog.stored e.decision
    code := e.code.map AuditLog.stored
    digest := e.digest.map AuditLog.stored
    broadcast := e.broadcast.map AuditLog.stored }

/-- The entry with the JSON values that are read from its columns. -/
def AuditEntryInput.ordinary (e : AuditEntryInput) : AuditEntryInput :=
  { e with
    contracts := e.contracts.ordinary
    ruleIds := e.ruleIds.map Json.ordinary }

/-- A column of well-formed Unicode comes back from the table as it was put in. -/
theorem map_stored_eq {s : Option JsString} (h : ∀ t ∈ s.toList, WellFormed t) :
    s.map stored = s := by
  cases s with
  | none => rfl
  | some t => exact congrArg some (decode_utf8 (h t (by simp)))

/-- A column that comes back unchanged was well formed, or absent. -/
theorem wellFormed_of_map {s : Option JsString} (h : s.map stored = s) :
    ∀ t ∈ s.toList, WellFormed t := by
  intro t ht
  have hs : s = some t := Option.mem_toList.1 ht
  rw [hs, Option.map_some, Option.some.injEq] at h
  exact wellFormed_of_decode h

/-- The columns give well-formed strings back as they were. -/
theorem stored_eq (h : e.Unicode) : e.stored = e := by
  have hone : ∀ s ∈ e.texts, stored s = s := fun s hs => decode_utf8 (h s hs)
  have hmap : ∀ s : Option JsString, (∀ t ∈ s.toList, t ∈ e.texts) → s.map stored = s :=
    fun s hs => map_stored_eq fun t ht => h t (hs t ht)
  unfold AuditEntryInput.stored
  rw [hone e.requestId (by simp [AuditEntryInput.texts]), hone e.agent (by simp [AuditEntryInput.texts]),
    hone e.decision (by simp [AuditEntryInput.texts]),
    hmap e.code fun t ht => by simp [AuditEntryInput.texts, Option.mem_toList.1 ht],
    hmap e.digest fun t ht => by simp [AuditEntryInput.texts, Option.mem_toList.1 ht],
    hmap e.broadcast fun t ht => by simp [AuditEntryInput.texts, Option.mem_toList.1 ht]]

/-- Reading the JSON columns back does not change what is hashed. -/
theorem computeHash_ordinary (seq : ℤ) (prevHash : JsString) (e : AuditEntryInput) :
    computeHash sha256 seq prevHash e.ordinary = computeHash sha256 seq prevHash e := by
  have hfields : hashableFields seq prevHash e.ordinary =
      (hashableFields seq prevHash e).ordinary := by
    have hnull : ∀ s : Option JsString, (orNull s).ordinary = orNull s := by
      intro s
      cases s <;> rfl
    have hnumber : ∀ i : Option ℤ,
        (i.elim Json.null number).ordinary = i.elim Json.null number := by
      intro i
      cases i <;> rfl
    have hrules : (e.ruleIds.map Json.ordinary).getD .null = (e.ruleIds.getD .null).ordinary := by
      cases e.ruleIds <;> rfl
    unfold hashableFields AuditEntryInput.ordinary
    rw [Json.ordinary, ordinaryMembers_eq, List.map_append]
    cases e.broadcast <;>
      simp [hnull, hnumber, hrules, Json.ordinary, number]
  unfold computeHash
  rw [hfields, canonicalize_ordinary]

/-- A JSON text is well-formed whatever its value holds, so its column gives the value back. -/
theorem parseColumn_stringify {v : Json} (h : v.Sound nearest) :
    parseColumn nearest (stored v.stringify) = .ok v.ordinary := by
  rw [stored, decode_utf8 (wellFormed_stringify v), parseColumn, parse_stringify h]

/-- **What is read back of an entry's row**: the entry with its texts as the columns give them back
and its objects ordinary, and the place and hashes of the row. -/
theorem toRecord_entryRow (h : e.Sound nearest) (seq : ℤ) (prevHash entryHash : JsString) :
    toRecord nearest (entryRow seq prevHash entryHash e) =
      .ok { e.stored.ordinary with seq, prevHash, entryHash } := by
  have hrules : parseNullable nearest (e.ruleIds.map fun v => stored v.stringify) =
      .ok (e.ruleIds.map Json.ordinary) := by
    cases hr : e.ruleIds with
    | none => rfl
    | some v =>
      have hparse := parseColumn_stringify (h.ruleIds v hr)
      simp [parseNullable, hparse, Except.map]
  have hcontracts := parseColumn_stringify h.contracts
  unfold toRecord entryRow
  simp only
  rw [hcontracts, hrules]
  rfl

/-- The rows of appended entries: each hashes its entry, and is chained to the one before. The
first is chained to what came before them. -/
def Appended (sha256 : List UInt8 → JsString) :
    JsString → ℤ → List AuditEntryInput → List AuditRow → Prop
  | prev, n, e :: entries, row :: rows => ∃ hash, Hashed sha256 n prev e hash ∧
      row = entryRow n prev hash e ∧ Appended sha256 hash (n + 1) entries rows
  | _, _, entries, rows => entries = [] ∧ rows = []

/-- Appending adds one row for each entry. -/
theorem appendAll_rows : ∀ {entries : List AuditEntryInput} {t t' : AuditTable}
    {rs : List AuditRecord}, appendAll sha256 t entries = .ok (t', rs) →
    ∃ rows, t'.rows = t.rows ++ rows ∧ Appended sha256 t.next.2 t.next.1 entries rows
  | [], t, t', rs, h => by
    simp only [appendAll, Except.ok.injEq, Prod.mk.injEq] at h
    exact ⟨[], by simp [h.1], rfl, rfl⟩
  | e :: entries, t, t', rs, h => by
    rw [appendAll, bind_ok] at h
    obtain ⟨⟨t₁, r₁⟩, happend, h⟩ := h
    rw [bind_ok] at h
    obtain ⟨⟨t₂, rs₂⟩, hall, h⟩ := h
    simp only [pure_eq, Except.ok.injEq, Prod.mk.injEq] at h
    obtain ⟨rfl, -⟩ := h
    obtain ⟨hash, hhash, hp⟩ := append_ok.1 happend
    obtain ⟨rfl, -⟩ := Prod.mk.inj hp
    obtain ⟨rows, hrows, happended⟩ := appendAll_rows hall
    rw [next_push] at happended
    refine ⟨entryRow t.next.1 t.next.2 hash e :: rows, ?_, hash, hhash, rfl, happended⟩
    rw [hrows, AuditTable.push]
    simp

/-- There are as many rows as entries. -/
theorem Appended.length {entries : List AuditEntryInput} {rows : List AuditRow} {first : JsString}
    {n : ℤ} (h : Appended sha256 first n entries rows) : rows.length = entries.length := by
  induction entries generalizing rows first n with
  | nil =>
    cases rows with
    | nil => rfl
    | cons row rows => exact absurd h.2 (List.cons_ne_nil _ _)
  | cons e entries ih =>
    cases rows with
    | nil => exact absurd h.1 (List.cons_ne_nil _ _)
    | cons row rows =>
      obtain ⟨hash, -, -, hrest⟩ := h
      rw [List.length_cons, List.length_cons, ih hrest]

/-! ## What a hash commits to -/

/-- The two columns of JSON have distinct keys at every level, as whatever is parsed has. -/
structure AuditEntryInput.Distinct (e : AuditEntryInput) : Prop where
  contracts : e.contracts.Distinct
  ruleIds : (e.ruleIds.getD .null).Distinct

/-- Entries that agree in every field, where an absent `ruleIds` counts as `null`. -/
structure AuditEntryInput.Same (e e' : AuditEntryInput) : Prop where
  requestId : e.requestId = e'.requestId
  agent : e.agent = e'.agent
  decision : e.decision = e'.decision
  code : e.code = e'.code
  ruleIds : (e.ruleIds.getD .null).Same (e'.ruleIds.getD .null)
  policyVersion : e.policyVersion = e'.policyVersion
  contracts : e.contracts.Same e'.contracts
  digest : e.digest = e'.digest
  broadcast : e.broadcast = e'.broadcast
  timestampMs : e.timestampMs = e'.timestampMs

/-- A column that parses has distinct keys. -/
theorem parseColumn_distinct {text : JsString} {v : Json} (h : parseColumn nearest text = .ok v) :
    v.Distinct := by
  unfold parseColumn at h
  cases hparse : Json.parse nearest text with
  | none => simp [hparse] at h
  | some w =>
    simp only [hparse, Except.ok.injEq] at h
    rw [← h]
    exact parse_distinct hparse

/-- So a record read from a row has them. -/
theorem toRecord_distinct (h : toRecord nearest row = .ok r) :
    r.toAuditEntryInput.Distinct := by
  simp only [toRecord, bind_ok, pure_eq, Except.ok.injEq] at h
  obtain ⟨contracts, hcontracts, ruleIds, hrules, rfl⟩ := h
  refine ⟨parseColumn_distinct hcontracts, ?_⟩
  cases hnull : row.ruleIds with
  | none =>
    simp only [hnull, parseNullable, Except.ok.injEq] at hrules
    rw [← hrules]
    trivial
  | some text =>
    simp only [hnull, parseNullable] at hrules
    cases hparse : parseColumn nearest text with
    | error err => simp [hparse, Except.map] at hrules
    | ok v =>
      simp only [hparse, Except.map, Except.ok.injEq] at hrules
      rw [← hrules]
      exact parseColumn_distinct hparse

/-- A text or `null` in its place is the same value only of the same text. -/
theorem orNull_inj {s s' : Option JsString} (h : (orNull s).Same (orNull s')) : s = s' := by
  cases s with
  | none =>
    cases s' with
    | none => rfl
    | some _ => cases h
  | some _ =>
    cases s' with
    | none => cases h
    | some _ => exact congrArg some h.str_eq

/-- A number or `null` likewise. -/
theorem optional_number_inj {i i' : Option ℤ}
    (h : (i.elim Json.null number).Same (i'.elim Json.null number)) : i = i' := by
  cases i with
  | none =>
    cases i' with
    | none => rfl
    | some _ => cases h
  | some _ =>
    cases i' with
    | none => cases h
    | some _ => exact congrArg some (number_inj h)

/-- A member that may be missing is the same only of the same text, and missing only when
absent. -/
theorem option_str_inj {s s' : Option JsString}
    (h : Option.Rel Json.Same (s.map .str) (s'.map .str)) : s = s' := by
  cases s with
  | none =>
    cases s' with
    | none => rfl
    | some _ => cases h
  | some _ =>
    cases s' with
    | none => cases h
    | some _ =>
      cases h with
      | some hsame => exact congrArg some hsame.str_eq

/-- The broadcast id is hashed under its own key when it is there and not at all when it is not. -/
theorem lookup_broadcast {ms : List (JsString × Json)} {seq : ℤ} {prevHash : JsString}
    (h : hashableFields seq prevHash e = .obj .ordinary ms) :
    ms.lookup (js "broadcast") = e.broadcast.map .str := by
  unfold hashableFields at h
  rw [Json.obj.injEq] at h
  rw [← h.2]
  cases e.broadcast <;> rfl

/-- What is hashed has distinct keys at every level. -/
theorem hashableFields_distinct (seq : ℤ) (prevHash : JsString) (hd : e.Distinct) :
    (hashableFields seq prevHash e).Distinct := by
  have hkeys : ([js "seq", js "prevHash", js "requestId", js "agent", js "decision", js "code",
      js "ruleIds", js "policyVersion", js "contracts", js "digest", js "timestampMs"] ++
      [js "broadcast"]).Nodup := by decide
  have hnull : ∀ s : Option JsString, (orNull s).Distinct := by
    intro s
    cases s <;> trivial
  have hnumber : ∀ i : Option ℤ, (i.elim Json.null number).Distinct := by
    intro i
    cases i <;> trivial
  cases hb : e.broadcast with
  | none =>
    unfold hashableFields
    rw [hb]
    exact ⟨hkeys.of_append_left, trivial, trivial, trivial, trivial, trivial,
      hnull _, hd.ruleIds, hnumber _, hd.contracts, hnull _, trivial, trivial⟩
  | some outcome =>
    unfold hashableFields
    rw [hb]
    exact ⟨hkeys, trivial, trivial, trivial, trivial, trivial,
      hnull _, hd.ruleIds, hnumber _, hd.contracts, hnull _, trivial, trivial, trivial⟩

/-- The hashed fields are a value that has a text when the two JSON fields are. -/
theorem hashableFields_sound (seq : ℤ) (prevHash : JsString)
    (hcontracts : e.contracts.Sound JsNumber.finite)
    (hrules : (e.ruleIds.getD .null).Sound JsNumber.finite) :
    (hashableFields seq prevHash e).Sound JsNumber.finite := by
  have hkeys : ([js "seq", js "prevHash", js "requestId", js "agent", js "decision", js "code",
      js "ruleIds", js "policyVersion", js "contracts", js "digest", js "timestampMs"] ++
      [js "broadcast"]).Nodup := by decide
  have hnull : ∀ s : Option JsString, (orNull s).Sound JsNumber.finite := by
    intro s
    cases s <;> trivial
  have hnumber : ∀ i : Option ℤ, (i.elim Json.null number).Sound JsNumber.finite := by
    intro i
    cases i with
    | none => trivial
    | some i => rfl
  cases hb : e.broadcast with
  | none =>
    unfold hashableFields
    rw [hb]
    exact ⟨hkeys.of_append_left, rfl, trivial, trivial, trivial, trivial,
      hnull _, hrules, hnumber _, hcontracts, hnull _, rfl, trivial⟩
  | some outcome =>
    unfold hashableFields
    rw [hb]
    exact ⟨hkeys, rfl, trivial, trivial, trivial, trivial,
      hnull _, hrules, hnumber _, hcontracts, hnull _, rfl, trivial, trivial⟩

/-- **A hash determines the fields it covers**, up to how their JSON is written and up to an absent
list against a `null` one, which are hashed alike. -/
theorem commits (hinj : Function.Injective sha256) {seq seq' : ℤ} {prevHash prevHash' hash : JsString}
    {e e' : AuditEntryInput} (hd : e.Distinct) (hd' : e'.Distinct)
    (h : Hashed sha256 seq prevHash e hash) (h' : Hashed sha256 seq' prevHash' e' hash) :
    seq = seq' ∧ prevHash = prevHash' ∧ e.Same e' := by
  unfold Hashed computeHash at h h'
  cases htext : canonicalize (hashableFields seq prevHash e) with
  | error err => simp [htext, Except.map] at h
  | ok text =>
    cases htext' : canonicalize (hashableFields seq' prevHash' e') with
    | error err => simp [htext', Except.map] at h'
    | ok text' =>
      simp only [htext, htext', Except.map, Except.ok.injEq] at h h'
      have hsound := sound_of_canonicalize _ (hashableFields_distinct seq prevHash hd) htext
      have hsound' := sound_of_canonicalize _ (hashableFields_distinct seq' prevHash' hd') htext'
      -- the bytes determine the text, and the text determines the fields
      have hwf : WellFormed text := by
        rw [canonicalize_ok _ hsound, Except.ok.injEq] at htext
        rw [← htext]
        exact wellFormed_stringify _
      have hwf' : WellFormed text' := by
        rw [canonicalize_ok _ hsound', Except.ok.injEq] at htext'
        rw [← htext']
        exact wellFormed_stringify _
      have heq : text = text' := utf8_inj hwf hwf' (hinj (h.trans h'.symm))
      have hsame : (Json.obj _ _).Same (.obj _ _) :=
        (canonicalize_eq_iff hsound hsound').1 (by rw [htext, htext', heq])
      refine ⟨number_inj (hsame.at (k := js "seq") rfl rfl),
        (hsame.at (k := js "prevHash") rfl rfl).str_eq, ?_⟩
      exact {
        requestId := (hsame.at (k := js "requestId") rfl rfl).str_eq
        agent := (hsame.at (k := js "agent") rfl rfl).str_eq
        decision := (hsame.at (k := js "decision") rfl rfl).str_eq
        code := orNull_inj (hsame.at (k := js "code") rfl rfl)
        ruleIds := hsame.at (k := js "ruleIds") rfl rfl
        policyVersion := optional_number_inj (hsame.at (k := js "policyVersion") rfl rfl)
        contracts := hsame.at (k := js "contracts") rfl rfl
        digest := orNull_inj (hsame.at (k := js "digest") rfl rfl)
        broadcast := by
          have hrel := hsame.rel (js "broadcast")
          rw [lookup_broadcast rfl, lookup_broadcast rfl] at hrel
          exact option_str_inj hrel
        timestampMs := number_inj (hsame.at (k := js "timestampMs") rfl rfl) }

/-! ## The walk along appended rows -/

/-- A sound entry has distinct keys. -/
theorem AuditEntryInput.Sound.distinct (h : e.Sound nearest) : e.Distinct := by
  refine ⟨distinct_of_sound _ h.contracts, ?_⟩
  cases hr : e.ruleIds with
  | none => trivial
  | some v => exact distinct_of_sound v (h.ruleIds v hr)

/-- An entry that was hashed can be hashed as it is read back. -/
theorem hashed_stored (hsound : e.Sound nearest) {seq : ℤ} {prevHash hash : JsString}
    (h : Hashed sha256 seq prevHash e hash) :
    ∃ hash', Hashed sha256 seq prevHash e.stored hash' := by
  unfold Hashed computeHash at h
  cases htext : canonicalize (hashableFields seq prevHash e) with
  | error err => simp [htext, Except.map] at h
  | ok text =>
    -- only the strings have changed, and any string has a text
    obtain ⟨-, hmembers⟩ :=
      sound_of_canonicalize _ (hashableFields_distinct seq prevHash hsound.distinct) htext
    rw [soundMembers_iff] at hmembers
    have hcontracts : e.contracts.Sound JsNumber.finite :=
      hmembers (js "contracts", e.contracts) (by simp)
    have hrules : (e.ruleIds.getD .null).Sound JsNumber.finite :=
      hmembers (js "ruleIds", e.ruleIds.getD .null) (by simp)
    have hfields : (hashableFields seq prevHash e.stored).Sound JsNumber.finite :=
      hashableFields_sound seq prevHash hcontracts hrules
    refine ⟨sha256 (utf8 (hashableFields seq prevHash e.stored).canonical.stringify), ?_⟩
    rw [Hashed, computeHash, canonicalize_ok _ hfields]
    rfl

/-- The hash of an entry's row is that of the entry when its strings are well-formed. -/
theorem hashed_of_unicode (h : e.Unicode) {seq : ℤ} {prevHash hash : JsString} :
    Hashed sha256 seq prevHash e.stored hash ↔ Hashed sha256 seq prevHash e hash := by
  rw [stored_eq h]

/-- With an injective hash it is so only then. -/
theorem unicode_of_hashed (hinj : Function.Injective sha256) (hsound : e.Sound nearest) {seq : ℤ}
    {prevHash hash : JsString} (h : Hashed sha256 seq prevHash e hash)
    (h' : Hashed sha256 seq prevHash e.stored hash) : e.Unicode := by
  have hdistinct : e.stored.Distinct := ⟨hsound.distinct.contracts, hsound.distinct.ruleIds⟩
  obtain ⟨-, -, hsame⟩ := commits hinj hdistinct hsound.distinct h' h
  intro s hs
  simp only [AuditEntryInput.texts, List.mem_append, List.mem_cons, List.not_mem_nil,
    or_false] at hs
  rcases hs with (((rfl | rfl | rfl) | hs) | hs) | hs
  · exact wellFormed_of_decode hsame.requestId
  · exact wellFormed_of_decode hsame.agent
  · exact wellFormed_of_decode hsame.decision
  · exact wellFormed_of_map hsame.code s hs
  · exact wellFormed_of_map hsame.digest s hs
  · exact wellFormed_of_map hsame.broadcast s hs

/-- What is left of appended rows is walked up to the first row that does not follow the one before
it, or whose hash is not that of what is read back. The induction is on what is left; the entries of
the rows that are dropped play no part in the walk. -/
theorem verifyFrom_kept {rows kept : List AuditRow} (hsub : kept.Sublist rows) :
    ∀ {first : JsString} {n : ℤ} {entries : List AuditEntryInput},
      (rows.Pairwise fun a b => a.seq < b.seq) → Appended sha256 first n entries rows →
      (∀ e ∈ entries, e.Sound nearest) →
      (∀ e ∈ entries, ∀ seq prevHash hash, Hashed sha256 seq prevHash e hash →
        (Hashed sha256 seq prevHash e.stored hash ↔ e.Unicode)) →
      ∃ broken, verifyFrom sha256 nearest first n kept = .ok broken ∧
        (broken = none ↔ kept <+: rows ∧ ∀ e ∈ entries.take kept.length, e.Unicode) := by
  induction hsub with
  | slnil =>
    intro first n entries _ _ _ _
    exact ⟨none, rfl, by simp⟩
  | @cons kept rows row hkept _ =>
    intro first n entries hsorted happended _ _
    cases entries with
    | nil => exact absurd happended.2 (List.cons_ne_nil _ _)
    | cons e entries =>
      obtain ⟨hash, -, rfl, -⟩ := happended
      cases kept with
      | nil => exact ⟨none, rfl, by simp⟩
      | cons next kept =>
        -- the first row is gone, and all others have larger numbers
        have hlt : n < next.seq := (List.pairwise_cons.1 hsorted).1 next (hkept.subset (by simp))
        have hgap : next.seq ≠ n := by omega
        refine ⟨_, by rw [verifyFrom, if_pos hgap], ?_⟩
        rw [List.cons_prefix_cons]
        constructor
        · intro h
          cases h
        · rintro ⟨⟨rfl, -⟩, -⟩
          exact absurd rfl hgap
  | @cons_cons kept rows row _ ih =>
    intro first n entries hsorted happended hsound hrehash
    cases entries with
    | nil => exact absurd happended.2 (List.cons_ne_nil _ _)
    | cons e entries =>
      obtain ⟨hash, hhash, rfl, hrest⟩ := happended
      have hrow := toRecord_entryRow (hsound e (by simp)) n first hash
      obtain ⟨hash', hhash'⟩ := hashed_stored (hsound e (by simp)) hhash
      have hrecomputed : computeHash sha256 n first e.stored.ordinary = .ok hash' :=
        (computeHash_ordinary _ _ _).trans hhash'
      have hiff := hrehash e (by simp) n first hash hhash
      have hstep : verifyFrom sha256 nearest first n (entryRow n first hash e :: kept) =
          if hash' ≠ hash then .ok (some (n, js "entry hash mismatch (edited entry)"))
          else verifyFrom sha256 nearest hash (n + 1) kept := by
        have hseq : (entryRow n first hash e).seq = n := rfl
        have hprev : (entryRow n first hash e).prevHash = first := rfl
        rw [verifyFrom, if_neg (not_not.2 hseq), if_neg (not_not.2 hprev), hrow, ok_bind, hseq,
          hprev, hrecomputed, ok_bind]
        rfl
      by_cases hsame : hash' = hash
      · rw [hsame] at hhash'
        obtain ⟨broken, hwalk, hbroken⟩ := ih (List.pairwise_cons.1 hsorted).2 hrest
          (fun e' he' => hsound e' (List.mem_cons_of_mem _ he'))
          (fun e' he' => hrehash e' (List.mem_cons_of_mem _ he'))
        refine ⟨broken, by rw [hstep, if_neg (not_not.2 hsame), hwalk], ?_⟩
        rw [hbroken, List.prefix_cons_inj, List.length_cons, List.take_succ_cons,
          List.forall_mem_cons]
        exact and_congr_right fun _ => (and_iff_right (hiff.1 hhash')).symm
      · refine ⟨_, by rw [hstep, if_pos hsame], ?_⟩
        have hgarbled : ¬ e.Unicode := by
          intro hunicode
          have hback : Hashed sha256 n first e.stored hash := hiff.2 hunicode
          exact hsame (Except.ok.inj (hhash'.symm.trans hback))
        simp [hgarbled]

/-- The same record, up to how its JSON is written and a `ruleIds` that is `null`. The hash sees no
more than this. -/
structure AuditRecord.Same (r r' : AuditRecord) : Prop where
  seq : r.seq = r'.seq
  prevHash : r.prevHash = r'.prevHash
  entryHash : r.entryHash = r'.entryHash
  entry : r.toAuditEntryInput.Same r'.toAuditEntryInput

/-- So have all records read from a table. -/
theorem records_distinct : ∀ {rows : List AuditRow} {rs : List AuditRecord},
    rows.mapM (toRecord nearest) = .ok rs → ∀ r ∈ rs, r.toAuditEntryInput.Distinct
  | [], rs, h => by
    rw [List.mapM_nil, pure_eq, Except.ok.injEq] at h
    simp [← h]
  | row :: rows, rs, h => by
    simp only [List.mapM_cons, bind_ok, pure_eq, Except.ok.injEq] at h
    obtain ⟨r, hr, rs, hrs, rfl⟩ := h
    intro r' hr'
    rcases List.mem_cons.1 hr' with rfl | hr'
    · exact toRecord_distinct hr
    · exact records_distinct hrs r' hr'

/-- The links of the records carry the hashes of the rows, in their order. -/
theorem records_lastHash : ∀ {rows : List AuditRow} {rs : List AuditRecord},
    rows.mapM (toRecord nearest) = .ok rs →
    (rs.map AuditRecord.link).map Link.hash = rows.map AuditRow.entryHash
  | [], rs, h => by
    rw [List.mapM_nil, pure_eq, Except.ok.injEq] at h
    simp [← h]
  | row :: rows, rs, h => by
    simp only [List.mapM_cons, bind_ok, pure_eq, Except.ok.injEq] at h
    obtain ⟨r, hr, rs, hrs, rfl⟩ := h
    have hhash : r.link.hash = row.entryHash := (toRecord_ok hr).2.2
    rw [List.map_cons, List.map_cons, List.map_cons, hhash, records_lastHash hrs]

/-- **The last entry hash commits to the log.** Two tables that verify with the same number of rows
and end in one hash have the same records, so nothing before the end can have been changed in only
one of them. -/
theorem records_same (hinj : Function.Injective sha256) {k k' : ℕ}
    (hv : verify sha256 nearest t = .ok (.ok k)) (hv' : verify sha256 nearest t' = .ok (.ok k'))
    (hlast : t.rows.getLast?.map AuditRow.entryHash = t'.rows.getLast?.map AuditRow.entryHash) :
    ∃ rs rs', records nearest t = .ok rs ∧ records nearest t' = .ok rs' ∧
      List.Forall₂ AuditRecord.Same rs rs' := by
  obtain ⟨-, rs, hrs, hchain⟩ := verify_ok.1 hv
  obtain ⟨-, rs', hrs', hchain'⟩ := verify_ok.1 hv'
  refine ⟨rs, rs', hrs, hrs', ?_⟩
  have hhash : ∀ {t : AuditTable} {rs : List AuditRecord}, records nearest t = .ok rs →
      (rs.map AuditRecord.link).getLast?.map Link.hash =
        t.rows.getLast?.map AuditRow.entryHash := by
    intro t rs h
    rw [← List.getLast?_map, ← List.getLast?_map, records_lastHash h]
  have hcommit := hchain.commit (R := AuditEntryInput.Same) ?_ hchain'
    (by rw [hhash hrs, hhash hrs', hlast])
  · rw [List.forall₂_map_left_iff, List.forall₂_map_right_iff] at hcommit
    refine hcommit.imp fun r r' h => ?_
    exact ⟨h.1, h.2.1, h.2.2.1, h.2.2.2⟩
  · intro l hl l' hl' heq hh hh'
    obtain ⟨r, hr, rfl⟩ := List.mem_map.1 hl
    obtain ⟨r', hr', rfl⟩ := List.mem_map.1 hl'
    exact commits hinj (records_distinct hrs r hr) (records_distinct hrs' r' hr') hh (heq ▸ hh')

/-- **Appended logs verify.** A log of entries whose strings are well-formed is accepted, with the
number of its entries. -/
theorem verify_appended {entries : List AuditEntryInput} (hsound : ∀ e ∈ entries, e.Sound nearest)
    (hunicode : ∀ e ∈ entries, e.Unicode)
    (hall : appendAll sha256 .empty entries = .ok (t, rs)) :
    verify sha256 nearest t = .ok (.ok entries.length) := by
  obtain ⟨rows, hrows, happended⟩ := appendAll_rows hall
  have hrows' : t.rows = rows := hrows
  have hsorted := t.sorted
  rw [hrows'] at hsorted
  obtain ⟨broken, hwalk, hbroken⟩ := verifyFrom_kept (List.Sublist.refl rows) hsorted happended
    hsound fun e he _ _ _ h => iff_of_true ((hashed_of_unicode (hunicode e he)).2 h) (hunicode e he)
  have hnone : broken = none :=
    hbroken.2 ⟨List.prefix_rfl, fun e he => hunicode e (List.mem_of_mem_take he)⟩
  have hwalk' : verifyFrom sha256 nearest GENESIS_HASH 1 rows = .ok broken := hwalk
  rw [verify, hrows', hwalk', ok_bind, hnone, happended.length]
  rfl

/-- **The audit log.** `verify` accepts a table exactly when appending the entries of its
records, one by one, to an empty log produces these records; it accepts every log that was
appended from entries with well-formed strings; and with an injective hash the last entry hash of
a verified log commits to its records, but for an absent `ruleIds` against a `null` one. -/
theorem audit_log (sha256 : List UInt8 → JsString) (nearest : Decimal → JsNumber) :
    (∀ t, verify sha256 nearest t = .ok (.ok t.rows.length) ↔
      ∃ rs, records nearest t = .ok rs ∧ ∃ t',
        appendAll sha256 .empty (rs.map AuditRecord.toAuditEntryInput) = .ok (t', rs)) ∧
    (∀ entries t rs, (∀ e ∈ entries, e.Sound nearest) → (∀ e ∈ entries, e.Unicode) →
      appendAll sha256 .empty entries = .ok (t, rs) →
      verify sha256 nearest t = .ok (.ok entries.length)) ∧
    (Function.Injective sha256 → ∀ t t', verify sha256 nearest t = .ok (.ok t.rows.length) →
      verify sha256 nearest t' = .ok (.ok t'.rows.length) →
      t.rows.getLast?.map AuditRow.entryHash = t'.rows.getLast?.map AuditRow.entryHash →
      ∃ rs rs', records nearest t = .ok rs ∧ records nearest t' = .ok rs' ∧
        List.Forall₂ AuditRecord.Same rs rs') := by
  refine ⟨?_, ?_, ?_⟩
  · intro t
    rw [verify_ok]
    simp only [true_and]
    exact exists_congr fun rs => and_congr_right fun _ =>
      (@appendAll_iff sha256 rs .empty).symm
  · intro entries t rs hsound hunicode hall
    exact verify_appended hsound hunicode hall
  · intro hinj t t' hv hv' hlast
    exact records_same hinj hv hv' hlast

/-! A denial recorded without rule ids, and with `null` for them. -/

namespace Nullish

/-- An injective hash: the bytes themselves. -/
def bytes : List UInt8 → JsString := List.map UInt8.toUInt16

/-- Writing out the bytes is an injective hash, which is all the example needs of one. -/
theorem bytes_injective : Function.Injective bytes := by
  refine List.map_injective_iff.2 fun a b h => ?_
  have := congrArg UInt16.toUInt8 h
  simpa using this

/-- A denied request; only its rule ids are left open. -/
def entry (ruleIds : Option Json) : AuditEntryInput where
  requestId := js "r1"
  agent := js "superagent"
  decision := js "denied"
  code := some (js "DEFAULT_DENY")
  ruleIds
  policyVersion := none
  contracts := .arr [.str (js "eviltoken::transfer")]
  digest := none
  broadcast := none
  timestampMs := 0

/-- The hash under which the first entry is chained. -/
def hash : JsString := bytes (utf8 (hashableFields 1 GENESIS_HASH (entry none)).canonical.stringify)

/-- The record that is read back. -/
def record (ruleIds : Option Json) : AuditRecord :=
  { entry ruleIds with seq := 1, prevHash := GENESIS_HASH, entryHash := hash }

/-- The table with that one row. -/
def table (ruleIds : Option Json) : AuditTable :=
  ⟨[entryRow 1 GENESIS_HASH hash (entry ruleIds)], List.pairwise_singleton _ _⟩

/-- The entry is sound without rule ids and with `null` in their place. -/
theorem entry_sound {ruleIds : Option Json} (h : ruleIds = none ∨ ruleIds = some .null) :
    (entry ruleIds).Sound JsNumber.finite := by
  refine ⟨⟨trivial, trivial⟩, ?_⟩
  intro v hv
  rcases h with rfl | rfl
  · simp [entry] at hv
  · cases hv
    trivial

/-- Its texts are plain letters. -/
theorem entry_unicode {ruleIds : Option Json} : (entry ruleIds).Unicode := by
  have hplain : ∀ s ∈ (entry none).texts, s.all (Plain ·) = true := by decide
  exact fun s hs => wellFormed_literal (hplain s hs)

/-- Both spellings hash to the same text, because a missing list is hashed as `null`. -/
theorem entry_hashed {ruleIds : Option Json} (h : ruleIds = none ∨ ruleIds = some .null) :
    Hashed bytes 1 GENESIS_HASH (entry ruleIds) hash := by
  have hfields : hashableFields 1 GENESIS_HASH (entry ruleIds) =
      hashableFields 1 GENESIS_HASH (entry none) := by
    rcases h with rfl | rfl <;> rfl
  have hsound : (hashableFields 1 GENESIS_HASH (entry none)).Sound JsNumber.finite :=
    hashableFields_sound 1 GENESIS_HASH ⟨trivial, trivial⟩ trivial
  rw [Hashed, computeHash, hfields, canonicalize_ok _ hsound]
  rfl

/-- The table reads back as the one record. -/
theorem table_records {ruleIds : Option Json} (h : ruleIds = none ∨ ruleIds = some .null) :
    records .finite (table ruleIds) = .ok [record ruleIds] := by
  have hordinary : (entry ruleIds).stored.ordinary = entry ruleIds := by
    rw [stored_eq entry_unicode]
    rcases h with rfl | rfl <;> rfl
  have hrow := toRecord_entryRow (entry_sound h) 1 GENESIS_HASH hash
  rw [hordinary] at hrow
  rw [records, table, List.mapM_cons, hrow]
  rfl

/-- And it verifies. -/
theorem table_verified {ruleIds : Option Json} (h : ruleIds = none ∨ ruleIds = some .null) :
    verify bytes .finite (table ruleIds) = .ok (.ok 1) :=
  verify_ok.2 ⟨rfl, [record ruleIds], table_records h, rfl, rfl, entry_hashed h, trivial⟩

/-- Both tables verify and end in the same hash, and their records differ. -/
theorem null_unseen : Function.Injective bytes ∧
    verify bytes .finite (table none) = .ok (.ok 1) ∧
    verify bytes .finite (table (some .null)) = .ok (.ok 1) ∧
    (table none).rows.getLast?.map AuditRow.entryHash =
      (table (some .null)).rows.getLast?.map AuditRow.entryHash ∧
    records .finite (table none) = .ok [record none] ∧
    records .finite (table (some .null)) = .ok [record (some .null)] ∧
    (record none).ruleIds = none ∧ (record (some .null)).ruleIds = some .null :=
  ⟨bytes_injective, table_verified (.inl rfl), table_verified (.inr rfl), rfl,
    table_records (.inl rfl), table_records (.inr rfl), rfl, rfl⟩

/-- The appended table verifies, and with `null` written into the column it reads as the same
record. -/
theorem audit_log_denied :
    (∃ rs, records .finite (table none) = .ok rs ∧ ∃ t',
      appendAll bytes .empty (rs.map AuditRecord.toAuditEntryInput) = .ok (t', rs)) ∧
    verify bytes .finite (table none) = .ok (.ok [entry none].length) ∧
    (∃ rs rs', records .finite (table none) = .ok rs ∧
      records .finite (table (some .null)) = .ok rs' ∧ List.Forall₂ AuditRecord.Same rs rs') := by
  obtain ⟨hiff, happended, hcommits⟩ := audit_log bytes .finite
  have hall : appendAll bytes .empty [entry none] = .ok (table none, [record none]) := by
    have hhashed := @entry_hashed none (.inl rfl)
    have happend : append bytes .empty (entry none) = .ok (table none, record none) :=
      append_ok.2 ⟨hash, hhashed, rfl⟩
    rw [appendAll, happend]
    rfl
  refine ⟨(hiff _).1 (table_verified (.inl rfl)), happended _ _ _ ?_ ?_ hall,
    hcommits bytes_injective _ _ (table_verified (.inl rfl)) (table_verified (.inr rfl)) rfl⟩
  · intro e he
    rw [List.mem_singleton.1 he]
    exact entry_sound (.inl rfl)
  · intro e he
    rw [List.mem_singleton.1 he]
    exact entry_unicode

end Nullish

end AuditLog

end Signbox
