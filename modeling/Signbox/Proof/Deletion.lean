import Signbox.Proof.AuditLog

/-!
# Deleted audit entries

The rows of a log are numbered without a gap. When some of them are deleted, the first row that
follows a deleted one has the wrong number, and `verify` stops there. Rows deleted at the end
leave no row behind them, so what is left is the log as it was before they were appended.

* `broken_iff`: what is left is intact only when it is an initial segment that reads back.
* `deletion_detected`: a deletion is detected exactly when a later row is kept.
* `TwoEntries.tail_unseen`: the last entry can be deleted without a trace.
-/

namespace Signbox

open Guard

namespace AuditLog

variable {sha256 : List UInt8 → JsString} {nearest : Decimal → JsNumber} {t t' : AuditTable}
  {rs : List AuditRecord}

/-- `verify` reports a broken entry exactly when the walk finds one. -/
theorem verify_broken : (∃ seq reason, verify sha256 nearest t = .ok (.broken seq reason)) ↔
    ∃ b, verifyFrom sha256 nearest GENESIS_HASH 1 t.rows = .ok (some b) := by
  unfold verify
  cases verifyFrom sha256 nearest GENESIS_HASH 1 t.rows with
  | error err => simp
  | ok broken => cases broken <;> simp

/-- What is left of an appended log is reported unless it is an initial segment of it, and the
strings of the entries that are left are well-formed. -/
theorem broken_iff {entries : List AuditEntryInput} (hsound : ∀ e ∈ entries, e.Sound nearest)
    (hlog : appendAll sha256 .empty entries = .ok (t, rs)) (hsub : t'.rows.Sublist t.rows)
    (hrehash : ∀ e ∈ entries, ∀ seq prevHash hash, Hashed sha256 seq prevHash e hash →
      (Hashed sha256 seq prevHash e.stored hash ↔ e.Unicode)) :
    (∃ seq reason, verify sha256 nearest t' = .ok (.broken seq reason)) ↔
      ¬ (t'.rows <+: t.rows ∧ ∀ e ∈ entries.take t'.rows.length, e.Unicode) := by
  obtain ⟨rows, hrows, happended⟩ := appendAll_rows hlog
  have hrows' : t.rows = rows := hrows
  have hsorted := t.sorted
  rw [hrows'] at hsub hsorted ⊢
  obtain ⟨broken, hwalk, hbroken⟩ := verifyFrom_kept hsub hsorted happended hsound hrehash
  have hwalk' : verifyFrom sha256 nearest GENESIS_HASH 1 t'.rows = .ok broken := hwalk
  rw [verify_broken, hwalk', ← hbroken]
  cases broken with
  | none => simp
  | some b => simp

/-- **Deleted entries.** When rows of an appended log are deleted, and its strings are well-formed,
`verify` reports it exactly when a row after one of them is left. With an injective hash, and
whatever the strings are, it reports what is left of the log exactly then or when an entry that is
left has a string with a lone surrogate, which its column does not give back. -/
theorem deletion_detected {entries : List AuditEntryInput}
    (hsound : ∀ e ∈ entries, e.Sound nearest)
    (hlog : appendAll sha256 .empty entries = .ok (t, rs))
    (hsub : t'.rows.Sublist t.rows) (_ : t'.rows ≠ t.rows) :
    ((∀ e ∈ entries, e.Unicode) →
      ((∃ seq reason, verify sha256 nearest t' = .ok (.broken seq reason)) ↔
        ¬ t'.rows <+: t.rows)) ∧
    (Function.Injective sha256 →
      ((∃ seq reason, verify sha256 nearest t' = .ok (.broken seq reason)) ↔
        ¬ t'.rows <+: t.rows ∨ ∃ e ∈ entries.take t'.rows.length, ¬ e.Unicode)) := by
  constructor
  · intro hunicode
    rw [broken_iff hsound hlog hsub fun e he _ _ _ h =>
      iff_of_true ((hashed_of_unicode (hunicode e he)).2 h) (hunicode e he)]
    have hkept : ∀ e ∈ entries.take t'.rows.length, e.Unicode :=
      fun e he => hunicode e (List.mem_of_mem_take he)
    rw [not_congr (and_iff_left hkept)]
  · intro hinj
    rw [broken_iff hsound hlog hsub fun e he _ _ _ h =>
      ⟨unicode_of_hashed hinj (hsound e he) h, fun hunicode => (hashed_of_unicode hunicode).2 h⟩]
    rw [not_and_or]
    simp only [not_forall, exists_prop]

/-! A log of two denials. -/

namespace TwoEntries

open Nullish

/-- The second entry is chained to the first. -/
def second : JsString := bytes (utf8 (hashableFields 2 hash (entry none)).canonical.stringify)

def row (seq : ℤ) (prevHash entryHash : JsString) : AuditRow :=
  entryRow seq prevHash entryHash (entry none)

def log : AuditTable := (table none).push (row 2 hash second) rfl

def secondRecord : AuditRecord :=
  { entry none with seq := 2, prevHash := hash, entryHash := second }

/-- The log without its first entry. -/
def tail : AuditTable := ⟨[row 2 hash second], List.pairwise_singleton _ _⟩

theorem second_hashed : Hashed bytes 2 hash (entry none) second := by
  have hsound : (hashableFields 2 hash (entry none)).Sound JsNumber.finite :=
    hashableFields_sound 2 hash ⟨trivial, trivial⟩ trivial
  rw [Hashed, computeHash, canonicalize_ok _ hsound]
  rfl

theorem log_appended : ∃ rs, appendAll bytes .empty [entry none, entry none] = .ok (log, rs) := by
  have hfirst : append bytes .empty (entry none) = .ok (table none, record none) :=
    append_ok.2 ⟨hash, entry_hashed (.inl rfl), rfl⟩
  have hsecond : append bytes (table none) (entry none) = .ok (log, secondRecord) :=
    append_ok.2 ⟨second, second_hashed, rfl⟩
  refine ⟨[record none, secondRecord], ?_⟩
  rw [appendAll, hfirst, ok_bind]
  dsimp only
  rw [appendAll, hsecond]
  rfl

theorem entries_sound : ∀ e ∈ [entry none, entry none], e.Sound JsNumber.finite := by
  intro e he
  have hentry : e = entry none := by simpa using he
  rw [hentry]
  exact entry_sound (.inl rfl)

/-- **A deletion without a trace.** Of two rows the last is deleted, and what is left verifies: a
hash chain says nothing about how long it was. -/
theorem tail_unseen : ∃ rs, appendAll bytes .empty [entry none, entry none] = .ok (log, rs) ∧
    (table none).rows.Sublist log.rows ∧ (table none).rows ≠ log.rows ∧
    verify bytes .finite (table none) = .ok (.ok 1) := by
  obtain ⟨rs, hlog⟩ := log_appended
  have hshorter : (table none).rows ≠ log.rows := by
    intro heq
    exact absurd (congrArg List.length heq) (by decide)
  exact ⟨rs, hlog, List.sublist_append_left _ _, hshorter, table_verified (.inl rfl)⟩

theorem entries_unicode : ∀ e ∈ [entry none, entry none], e.Unicode := by
  intro e he
  have hentry : e = entry none := by simpa using he
  rw [hentry]
  exact entry_unicode

/-- Of two rows the first is deleted. What is left is no initial part of the log, so `verify`
reports it; and both entries have well-formed strings, so there is no other reason. -/
theorem deletion_detected_first :
    ((∃ seq reason, verify bytes .finite tail = .ok (.broken seq reason)) ↔
      ¬ tail.rows <+: log.rows) ∧
    ((∃ seq reason, verify bytes .finite tail = .ok (.broken seq reason)) ↔
      ¬ tail.rows <+: log.rows ∨
        ∃ e ∈ [entry none, entry none].take tail.rows.length, ¬ e.Unicode) := by
  obtain ⟨rs, hlog⟩ := log_appended
  have hshorter : tail.rows ≠ log.rows := by
    intro heq
    exact absurd (congrArg List.length heq) (by decide)
  obtain ⟨hunicode, hinjective⟩ :=
    deletion_detected entries_sound hlog (List.sublist_append_right _ _) hshorter
  exact ⟨hunicode entries_unicode, hinjective bytes_injective⟩

end TwoEntries

end AuditLog

end Signbox
