import Signbox.Spec.Engine

/-!
# The quota journal

`daemon/quotaJournal.ts`: the table `quota_events` and the three transactions on it. A
reservation holds capacity from the moment it is made, a commit attaches the digest of the
signed transaction, and a release returns the capacity. Reservation ids are random and
distinct; here they are numbered in the order they are drawn.
-/

namespace Signbox

open Guard

def HOUR_MS : ℤ := 3600000

def DAY_MS : ℤ := 86400000

/-- Events older than this can no longer influence any window or cooldown: two days, when the
longest window is one. -/
def RETENTION_MS : ℤ := 2 * DAY_MS

inductive EventState where
  | reserved
  | committed
  | released
  deriving DecidableEq

/-- A row of `quota_events`: what one demand of one reservation counts for, and what became of
it. -/
structure QuotaEvent where
  reservationId : ℕ
  agent : JsString
  ruleId : JsString
  digest : Option JsString
  recipient : Option JsString
  units : ℕ
  symbol : JsString
  precision : ℕ
  state : EventState
  createdAtMs : ℤ
  deriving DecidableEq

inductive ReserveRefusal where
  | limit
  | cooldown
  | ambiguous
  deriving DecidableEq

inductive ReserveResult where
  | ok (reservationId : ℕ)
  | refused (reason : ReserveRefusal)
  deriving DecidableEq

/-- The table, and the number of reservation ids drawn so far. The number is no part of the table:
a refused reservation has drawn one too. -/
structure QuotaJournal where
  rows : List QuotaEvent
  issued : ℕ
  deriving DecidableEq

namespace QuotaJournal

def empty : QuotaJournal := ⟨[], 0⟩

/-! ## Queries -/

/-- Non-released events of a rule in the window that ends now. An event exactly as old as the
window is outside of it. -/
def inWindow (rows : List QuotaEvent) (agent ruleId : JsString) (windowMs nowMs : ℤ) :
    List QuotaEvent :=
  rows.filter fun e => e.agent = agent ∧ e.ruleId = ruleId ∧ e.state ≠ .released ∧
    e.createdAtMs > nowMs - windowMs

/-- Sum of non-released units for a rule window. Units of another symbol or precision are not
added. -/
def consumed (rows : List QuotaEvent) (agent ruleId symbol : JsString) (precision : ℕ)
    (windowMs nowMs : ℤ) : ℕ :=
  (((inWindow rows agent ruleId windowMs nowMs).filter fun e =>
    e.symbol = symbol ∧ e.precision = precision).map QuotaEvent.units).sum

/-- Count of non-released events for a rule in a window. -/
def countInWindow (rows : List QuotaEvent) (agent ruleId : JsString) (windowMs nowMs : ℤ) : ℕ :=
  (inWindow rows agent ruleId windowMs nowMs).length

/-- Count of non-released events to a recipient for a rule in a window. Events that name no
recipient do not count. -/
def countToRecipient (rows : List QuotaEvent) (agent ruleId recipient : JsString)
    (windowMs nowMs : ℤ) : ℕ :=
  ((inWindow rows agent ruleId windowMs nowMs).filter fun e => e.recipient = some recipient).length

/-! ## Reserving -/

def checkWindow (rows : List QuotaEvent) (agent ruleId : JsString) (amount cap : AssetAmount)
    (windowMs nowMs : ℤ) : Except ReserveRefusal Unit := do
  failIf (cap.symbol ≠ amount.symbol ∨ cap.precision ≠ amount.precision) .ambiguous
  failIf (consumed rows agent ruleId amount.symbol amount.precision windowMs nowMs + amount.units >
    cap.units) .limit

/-- A limit per recipient needs a recipient. A demand without one is ambiguous, and never
passes. -/
def checkRecipient (demand : QuotaDemand) (check : JsString → Except ReserveRefusal Unit) :
    Except ReserveRefusal Unit :=
  match demand.recipient with
  | none => .error .ambiguous
  | some recipient => check recipient

/-- The checks of one demand, in the order the journal makes them. The first that fails is the
reason of the refusal. -/
def checkDemand (agent : JsString) (nowMs : ℤ) (rows : List QuotaEvent) (demand : QuotaDemand) :
    Except ReserveRefusal Unit := do
  whenSome demand.maxPerHour fun cap =>
    checkWindow rows agent demand.ruleId demand.amount cap HOUR_MS nowMs
  whenSome demand.maxPerDay fun cap =>
    checkWindow rows agent demand.ruleId demand.amount cap DAY_MS nowMs
  whenSome demand.cooldownPerRecipientMs fun cooldown => checkRecipient demand fun recipient =>
    failIf (countToRecipient rows agent demand.ruleId recipient cooldown nowMs > 0) .cooldown
  whenSome demand.maxCountPerHour fun max =>
    failIf (countInWindow rows agent demand.ruleId HOUR_MS nowMs ≥ max) .limit
  whenSome demand.maxCountPerDay fun max =>
    failIf (countInWindow rows agent demand.ruleId DAY_MS nowMs ≥ max) .limit
  whenSome demand.maxCountPerRecipientPerHour fun max => checkRecipient demand fun recipient =>
    failIf (countToRecipient rows agent demand.ruleId recipient HOUR_MS nowMs ≥ max) .limit

/-- The row a demand inserts. -/
def eventOf (reservationId : ℕ) (agent : JsString) (nowMs : ℤ) (demand : QuotaDemand) :
    QuotaEvent where
  reservationId := reservationId
  agent := agent
  ruleId := demand.ruleId
  digest := none
  recipient := demand.recipient
  units := demand.amount.units
  symbol := demand.amount.symbol
  precision := demand.amount.precision
  state := .reserved
  createdAtMs := nowMs

/-- Opportunistic pruning: events past every window and cooldown. It happens inside of the
reserving transaction, whatever their state. -/
def prune (rows : List QuotaEvent) (nowMs : ℤ) : List QuotaEvent :=
  rows.filter fun e => ¬ e.createdAtMs < nowMs - RETENTION_MS

/-- The body of the reserving transaction: a refusal rolls it back. Each demand is checked with the
rows of the demands before it. -/
def reserveRows (reservationId : ℕ) (agent : JsString) (demands : List QuotaDemand) (nowMs : ℤ)
    (rows : List QuotaEvent) : Except ReserveRefusal (List QuotaEvent) :=
  demands.foldlM (fun rows demand => do
    checkDemand agent nowMs rows demand
    return rows ++ [eventOf reservationId agent nowMs demand]) (prune rows nowMs)

/-- Atomically reserve all demands, or none. The rows are held from here on, until the reservation
is finalised. -/
def reserve (journal : QuotaJournal) (agent : JsString) (demands : List QuotaDemand)
    (nowMs : ℤ) : QuotaJournal × ReserveResult :=
  match reserveRows journal.issued agent demands nowMs journal.rows with
  | .ok rows => (⟨rows, journal.issued + 1⟩, .ok journal.issued)
  | .error reason => (⟨journal.rows, journal.issued + 1⟩, .refused reason)

/-! ## Finalising -/

/-- `UPDATE quota_events SET … WHERE reservation_id = ?`, on all rows of the reservation and on no
other. -/
def update (reservationId : ℕ) (set : QuotaEvent → QuotaEvent) (rows : List QuotaEvent) :
    List QuotaEvent :=
  rows.map fun e => if e.reservationId = reservationId then set e else e

/-- Is the digest committed for this agent? Only committed rows count, so a digest that was
released can be committed again. -/
def hasCommitted (rows : List QuotaEvent) (agent digest : JsString) : Bool :=
  rows.any fun e => e.agent = agent ∧ e.digest = some digest ∧ e.state = .committed

/-- `SET state = 'released'`. -/
def toReleased (e : QuotaEvent) : QuotaEvent := { e with state := .released }

/-- `SET state = 'committed', digest = ?`. -/
def toCommitted (digest : JsString) (e : QuotaEvent) : QuotaEvent :=
  { e with state := .committed, digest := some digest }

/-- Attach the signed digest to a reservation, or release it when the same digest is
already committed for this agent. -/
def commit (journal : QuotaJournal) (reservationId : ℕ) (agent digest : JsString) : QuotaJournal :=
  if hasCommitted journal.rows agent digest then
    { journal with rows := update reservationId toReleased journal.rows }
  else { journal with rows := update reservationId (toCommitted digest) journal.rows }

/-- Return the reserved capacity, e.g. after a failed signing. The rows stay in the table, in a
state that no window counts. -/
def release (journal : QuotaJournal) (reservationId : ℕ) : QuotaJournal :=
  { journal with rows := update reservationId toReleased journal.rows }

end QuotaJournal

end Signbox
