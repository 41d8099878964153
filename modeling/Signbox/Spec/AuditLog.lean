import Signbox.Spec.Parse

/-!
# The audit log

`daemon/auditLog.ts`: the table `audit_log`, whose rows are chained by their hashes. `append`
hashes the entry it is given and writes its columns; `verify` hashes what `toRecord` rebuilds
from the columns. A `TEXT` column holds UTF-8, so a string with a lone surrogate does not come back
from it as it was.
-/

namespace Signbox

/-- An integer, as a number. -/
def Decimal.ofInt (i : ℤ) : Decimal := .ofParts (decide (i < 0)) i.natAbs 0

namespace AuditLog

/-- An entry, with what its caller or a row can put in each field. The lists are JSON values, since
a row read back may hold any. -/
structure AuditEntryInput where
  requestId : JsString
  agent : JsString
  decision : JsString
  code : Option JsString
  ruleIds : Option Json
  policyVersion : Option ℤ
  contracts : Json
  digest : Option JsString
  broadcast : Option JsString
  timestampMs : ℤ

structure AuditRecord extends AuditEntryInput where
  seq : ℤ
  prevHash : JsString
  entryHash : JsString

def GENESIS_HASH : JsString := List.replicate 64 (unit '0')

/-- A row of `audit_log`, as its columns are read back. The columns `rule_ids` and `contracts` hold
JSON texts, and those of the hashes hexadecimal digits. -/
structure AuditRow where
  seq : ℤ
  requestId : JsString
  agent : JsString
  decision : JsString
  code : Option JsString
  ruleIds : Option JsString
  policyVersion : Option ℤ
  contracts : JsString
  digest : Option JsString
  broadcast : Option JsString
  timestampMs : ℤ
  prevHash : JsString
  entryHash : JsString
  deriving DecidableEq

/-- The table, in the order of its integer primary key. The key is unique, so the order is
strict. -/
structure AuditTable where
  rows : List AuditRow
  sorted : rows.Pairwise fun a b => a.seq < b.seq

def AuditTable.empty : AuditTable := ⟨[], .nil⟩

/-! ## The hash -/

def number (i : ℤ) : Json := .num (.finite (.ofInt i))

/-- `s ?? null`. -/
def orNull (s : Option JsString) : Json := s.elim .null .str

/-- The fields covered by the chain hash; `broadcast` is one only when it is present, so older
entries keep their hashes. -/
def hashableFields (seq : ℤ) (prevHash : JsString) (e : AuditEntryInput) : Json :=
  .obj .ordinary
    ([(js "seq", number seq), (js "prevHash", .str prevHash), (js "requestId", .str e.requestId),
      (js "agent", .str e.agent), (js "decision", .str e.decision), (js "code", orNull e.code),
      (js "ruleIds", e.ruleIds.getD .null), (js "policyVersion", e.policyVersion.elim .null number),
      (js "contracts", e.contracts), (js "digest", orNull e.digest),
      (js "timestampMs", number e.timestampMs)] ++
    match e.broadcast with
    | none => []
    | some outcome => [(js "broadcast", .str outcome)])

def computeHash (sha256 : List UInt8 → JsString) (seq : ℤ) (prevHash : JsString)
    (e : AuditEntryInput) : Except JsError JsString :=
  (canonicalize (hashableFields seq prevHash e)).map fun text => sha256 (utf8 text)

/-! ## Appending -/

/-- The number and the hash the next entry is chained to: those of the last row, or the genesis of
an empty table. -/
def AuditTable.next (t : AuditTable) : ℤ × JsString :=
  match t.rows.getLast? with
  | none => (1, GENESIS_HASH)
  | some last => (last.seq + 1, last.entryHash)

theorem AuditTable.lt_next (t : AuditTable) : ∀ r ∈ t.rows, r.seq < t.next.1 := by
  intro r hr
  unfold next
  rcases List.eq_nil_or_concat t.rows with hnil | ⟨rows, last, hrows⟩
  · rw [hnil] at hr
    simp at hr
  · have hsorted := t.sorted
    rw [hrows, List.concat_eq_append, List.pairwise_append] at hsorted
    rw [hrows, List.concat_eq_append, List.getLast?_concat]
    rw [hrows, List.concat_eq_append, List.mem_append, List.mem_singleton] at hr
    simp only
    rcases hr with hr | rfl
    · have := hsorted.2.2 r hr last (by simp)
      omega
    · omega

/-- Insert a row after the last one. Its number is the next one, which keeps the table in order. -/
def AuditTable.push (t : AuditTable) (row : AuditRow) (h : row.seq = t.next.1) : AuditTable where
  rows := t.rows ++ [row]
  sorted := by
    rw [List.pairwise_append]
    refine ⟨t.sorted, List.pairwise_singleton _ _, ?_⟩
    intro r hr r' hr'
    rw [List.mem_singleton.1 hr', h]
    exact t.lt_next r hr

/-- What a `TEXT` column gives back of a string that is written to it: the column holds the UTF-8
bytes of the string, in which a lone surrogate has become U+FFFD. -/
def stored (s : JsString) : JsString := decodeUtf8 (utf8 s)

/-- The columns of an entry. The digits of a hash are stored as they are, and every other text as
its column gives it back. -/
def entryRow (seq : ℤ) (prevHash entryHash : JsString) (entry : AuditEntryInput) : AuditRow where
  seq
  requestId := stored entry.requestId
  agent := stored entry.agent
  decision := stored entry.decision
  code := entry.code.map stored
  ruleIds := entry.ruleIds.map fun v => stored v.stringify
  policyVersion := entry.policyVersion
  contracts := stored entry.contracts.stringify
  digest := entry.digest.map stored
  broadcast := entry.broadcast.map stored
  timestampMs := entry.timestampMs
  prevHash
  entryHash

theorem entryRow_seq (seq : ℤ) (prevHash entryHash : JsString) (entry : AuditEntryInput) :
    (entryRow seq prevHash entryHash entry).seq = seq := rfl

/-- Append one entry to the chain. What is hashed is the entry as it was given, not as the columns
hold it. -/
def append (sha256 : List UInt8 → JsString) (t : AuditTable) (entry : AuditEntryInput) :
    Except JsError (AuditTable × AuditRecord) :=
  (computeHash sha256 t.next.1 t.next.2 entry).map fun entryHash =>
    (t.push (entryRow t.next.1 t.next.2 entryHash entry) (entryRow_seq ..),
      { entry with
        seq := t.next.1
        prevHash := t.next.2
        entryHash })

/-- Append entries one by one, with the records of the appends. -/
def appendAll (sha256 : List UInt8 → JsString) : AuditTable → List AuditEntryInput →
    Except JsError (AuditTable × List AuditRecord)
  | t, [] => .ok (t, [])
  | t, entry :: entries => do
    let (t, record) ← append sha256 t entry
    let (t, records) ← appendAll sha256 t entries
    return (t, record :: records)

/-! ## Reading back -/

/-- `JSON.parse` of a column; a text that is not JSON throws. The column may have been altered in
any way. -/
def parseColumn (nearest : Decimal → JsNumber) (text : JsString) : Except JsError Json :=
  match Json.parse nearest text with
  | some v => .ok v
  | none => .error .type

/-- A column that may be `NULL`, which leaves its field out. -/
def parseNullable (nearest : Decimal → JsNumber) : Option JsString → Except JsError (Option Json)
  | none => .ok none
  | some text => (parseColumn nearest text).map some

/-- The record of a row: a nullable column that is `NULL` leaves its field out. This is what the
verification hashes again. -/
def toRecord (nearest : Decimal → JsNumber) (row : AuditRow) : Except JsError AuditRecord := do
  let contracts ← parseColumn nearest row.contracts
  let ruleIds ← parseNullable nearest row.ruleIds
  return {
    requestId := row.requestId
    agent := row.agent
    decision := row.decision
    code := row.code
    ruleIds
    policyVersion := row.policyVersion
    contracts
    digest := row.digest
    broadcast := row.broadcast
    timestampMs := row.timestampMs
    seq := row.seq
    prevHash := row.prevHash
    entryHash := row.entryHash }

/-- The records of a table, in the order of their numbers. -/
def records (nearest : Decimal → JsNumber) (t : AuditTable) : Except JsError (List AuditRecord) :=
  t.rows.mapM (toRecord nearest)

/-! ## Verification -/

inductive VerifyResult where
  | ok (count : ℕ)
  | broken (brokenAt : ℤ) (reason : JsString)
  deriving DecidableEq

/-- The walk along the chain: the first broken entry and why it is. The numbers, the links and the
hashes are checked in this order. -/
def verifyFrom (sha256 : List UInt8 → JsString) (nearest : Decimal → JsNumber) :
    JsString → ℤ → List AuditRow → Except JsError (Option (ℤ × JsString))
  | _, _, [] => .ok none
  | prevHash, expectedSeq, row :: rows =>
    if row.seq ≠ expectedSeq then
      .ok (some (row.seq, js "sequence gap (deleted or reordered entry)"))
    else if row.prevHash ≠ prevHash then .ok (some (row.seq, js "previous-hash link broken"))
    else do
      let record ← toRecord nearest row
      let recomputed ← computeHash sha256 row.seq row.prevHash record.toAuditEntryInput
      if recomputed ≠ row.entryHash then
        return some (row.seq, js "entry hash mismatch (edited entry)")
      else verifyFrom sha256 nearest row.entryHash (expectedSeq + 1) rows

def verify (sha256 : List UInt8 → JsString) (nearest : Decimal → JsNumber) (t : AuditTable) :
    Except JsError VerifyResult := do
  match ← verifyFrom sha256 nearest GENESIS_HASH 1 t.rows with
  | none => return .ok t.rows.length
  | some (brokenAt, reason) => return .broken brokenAt reason

end AuditLog

end Signbox
