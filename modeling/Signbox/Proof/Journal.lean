import Signbox.Guard.Window
import Signbox.Spec.Journal
import Mathlib.Algebra.Order.Ring.Int
import Mathlib.Algebra.Order.Ring.Nat
import Mathlib.Data.List.Induction

/-!
# The windowed limits of the journal

The journal checks one trailing window when it reserves. `rates_obeyed` is what that gives
over whole runs: for a rule with fixed limits, the events that are not released obey every
limit in every window, wherever it lies. It holds of the events in the table and of all
events ever reserved, pruned ones included (`Ledger.history`); the latter needs clocks that
disagree by at most a day.

* A limit is a `Meter`: which events it counts, how much each weighs, over what window, and
  its cap. `Meter.Enforced` says that the journal's checks keep an event out that would not
  fit; the three `…Meter_enforced` lemmas cover the six limits.
* `Ledger.Inv` is what a run keeps about pruning and finalising, and `meter_admitted` what
  it keeps about a meter.
-/

namespace Signbox

open Guard Window

/-! ## Runs -/

inductive JournalOp where
  | reserve (agent : JsString) (demands : List QuotaDemand) (nowMs : ℤ)
  | commit (reservationId : ℕ) (agent digest : JsString)
  | release (reservationId : ℕ)

namespace JournalOp

def apply (journal : QuotaJournal) : JournalOp → QuotaJournal
  | reserve agent demands nowMs => (journal.reserve agent demands nowMs).1
  | commit reservationId agent digest => journal.commit reservationId agent digest
  | release reservationId => journal.release reservationId

/-- The clock a reservation reads. -/
def now? : JournalOp → Option ℤ
  | reserve _ _ nowMs => some nowMs
  | _ => none

/-- The reservation a commit or release finalises. -/
def finalises? : JournalOp → Option ℕ
  | commit reservationId _ _ => some reservationId
  | release reservationId => some reservationId
  | reserve .. => none

end JournalOp

/-- The journal after a run, from an empty table. -/
def journalAfter (ops : List JournalOp) : QuotaJournal := ops.foldl JournalOp.apply .empty

/-- Each reservation is finalised at most once: one commit, one release, or neither. -/
def FinalisedOnce (ops : List JournalOp) : Prop := (ops.filterMap JournalOp.finalises?).Nodup

/-- The clock runs out of order by at most one day, which is what the retention leaves room for. -/
def ClockOrdered (ops : List JournalOp) : Prop :=
  (ops.filterMap JournalOp.now?).Pairwise fun t t' => t ≤ t' + DAY_MS

/-! ## Limits -/

/-- The windowed limits of a rule: two sums, two counts, and two limits for each recipient. -/
structure RateLimits where
  maxPerHour : Option AssetAmount
  maxPerDay : Option AssetAmount
  cooldownPerRecipientMs : Option ℕ
  maxCountPerHour : Option ℕ
  maxCountPerDay : Option ℕ
  maxCountPerRecipientPerHour : Option ℕ

/-- The limits a demand carries. -/
def QuotaDemand.rates (d : QuotaDemand) : RateLimits :=
  ⟨d.maxPerHour, d.maxPerDay, d.cooldownPerRecipientMs, d.maxCountPerHour, d.maxCountPerDay,
    d.maxCountPerRecipientPerHour⟩

/-- Every demand of the agent under the rule carries the same limits, which they do as long as the
policy is not changed. -/
def FixedRates (agent ruleId : JsString) (L : RateLimits) (ops : List JournalOp) : Prop :=
  ∀ demands nowMs, JournalOp.reserve agent demands nowMs ∈ ops →
    ∀ d ∈ demands, d.ruleId = ruleId → d.rates = L

/-- The non-released events of an agent and a rule: those that a window counts, whatever their
age. -/
def live (agent ruleId : JsString) (rows : List QuotaEvent) : List QuotaEvent :=
  rows.filter fun e => e.agent = agent ∧ e.ruleId = ruleId ∧ e.state ≠ .released

/-- Created in `(a, a + W]`. -/
def between (a W : ℤ) (e : QuotaEvent) : Bool := a < e.createdAtMs ∧ e.createdAtMs ≤ a + W

/-- **The law of the limits**: they hold in every window of the length they speak of, wherever it
begins, and not only in those that end at a reservation. -/
structure RateLimits.Obeyed (L : RateLimits) (events : List QuotaEvent) : Prop where
  perHour : ∀ cap, L.maxPerHour = some cap → ∀ a,
    ((events.filter (between a HOUR_MS)).map QuotaEvent.units).sum ≤ cap.units
  perDay : ∀ cap, L.maxPerDay = some cap → ∀ a,
    ((events.filter (between a DAY_MS)).map QuotaEvent.units).sum ≤ cap.units
  countPerHour : ∀ n, L.maxCountPerHour = some n → ∀ a,
    (events.filter (between a HOUR_MS)).length ≤ n
  countPerDay : ∀ n, L.maxCountPerDay = some n → ∀ a,
    (events.filter (between a DAY_MS)).length ≤ n
  countPerRecipient : ∀ n, L.maxCountPerRecipientPerHour = some n → ∀ r a,
    ((events.filter fun e => e.recipient = some r).filter (between a HOUR_MS)).length ≤ n
  cooldown : ∀ cd, L.cooldownPerRecipientMs = some cd → events.Pairwise fun e e' =>
    ∀ r, e.recipient = some r → e'.recipient = some r → (cd : ℤ) ≤ |e'.createdAtMs - e.createdAtMs|

/-! ## Meters -/

/-- One limit: the events it counts, their weight, its window and its cap. Neither the
selection nor the weight looks at what a finalisation changes. -/
structure Meter where
  select : QuotaEvent → Bool
  weight : QuotaEvent → ℕ
  window : ℤ
  cap : ℕ
  select_stable : ∀ e s d, select { e with state := s, digest := d } = select e
  weight_stable : ∀ e s d, weight { e with state := s, digest := d } = weight e

namespace Meter

/-- The times and weights of the events a meter counts. Nothing else of an event matters for its
law. -/
def stamps (m : Meter) (events : List QuotaEvent) : List (ℤ × ℕ) :=
  (events.filter m.select).map fun e => (e.createdAtMs, m.weight e)

/-- The checks of a demand of the rule let it pass only when it fits: with its own weight the
window stays within the cap. -/
def Enforced (m : Meter) (agent ruleId : JsString) (L : RateLimits) : Prop :=
  ∀ rows nowMs rid (d : QuotaDemand), d.ruleId = ruleId → d.rates = L →
    QuotaJournal.checkDemand agent nowMs rows d = .ok () →
    m.select (QuotaJournal.eventOf rid agent nowMs d) →
    total (nowMs - m.window < ·) (m.stamps (live agent ruleId rows)) +
      m.weight (QuotaJournal.eventOf rid agent nowMs d) ≤ m.cap

/-- Units in one symbol and precision. Events of another asset do not count. -/
def units (cap : AssetAmount) (window : ℤ) : Meter where
  select e := e.symbol = cap.symbol ∧ e.precision = cap.precision
  weight := QuotaEvent.units
  window := window
  cap := cap.units
  select_stable _ _ _ := rfl
  weight_stable _ _ _ := rfl

/-- All events, counted. -/
def count (n : ℕ) (window : ℤ) : Meter where
  select _ := true
  weight _ := 1
  window := window
  cap := n
  select_stable _ _ _ := rfl
  weight_stable _ _ _ := rfl

/-- The events to one recipient, counted. -/
def recipient (r : JsString) (n : ℕ) (window : ℤ) : Meter where
  select e := e.recipient = some r
  weight _ := 1
  window := window
  cap := n
  select_stable _ _ _ := rfl
  weight_stable _ _ _ := rfl

variable {m : Meter} {agent ruleId : JsString} {L : RateLimits}

theorem total_stamps (p : ℤ → Prop) [DecidablePred p] (events : List QuotaEvent) :
    total p (m.stamps events) =
      (((events.filter m.select).filter fun e => p e.createdAtMs).map m.weight).sum := by
  unfold total stamps
  rw [List.filter_map, List.map_map]
  rfl

theorem total_live (rows : List QuotaEvent) (W nowMs : ℤ) :
    total (nowMs - W < ·) (m.stamps (live agent ruleId rows)) =
      (((QuotaJournal.inWindow rows agent ruleId W nowMs).filter m.select).map m.weight).sum := by
  rw [total_stamps]
  unfold live QuotaJournal.inWindow
  simp only [List.filter_filter]
  congr 2
  refine List.filter_congr fun e _ => ?_
  rw [Bool.eq_iff_iff]
  simp only [Bool.and_eq_true, decide_eq_true_eq, gt_iff_lt]
  tauto

end Meter

/-! ## What the checks enforce -/

variable {agent ruleId : JsString} {L : RateLimits} {rows : List QuotaEvent} {nowMs : ℤ}
  {d : QuotaDemand}

theorem checkWindow_ok {amount cap : AssetAmount} {W : ℤ} :
    QuotaJournal.checkWindow rows agent ruleId amount cap W nowMs = .ok () ↔
      (cap.symbol = amount.symbol ∧ cap.precision = amount.precision) ∧
        QuotaJournal.consumed rows agent ruleId amount.symbol amount.precision W nowMs +
          amount.units ≤ cap.units := by
  unfold QuotaJournal.checkWindow
  simp only [bind_ok, failIf_ok]
  constructor
  · rintro ⟨-, hs, hu⟩
    exact ⟨by tauto, by omega⟩
  · rintro ⟨hs, hu⟩
    exact ⟨(), by tauto, by omega⟩

theorem checkRecipient_ok {check : JsString → Except ReserveRefusal Unit} :
    QuotaJournal.checkRecipient d check = .ok () ↔
      ∃ r, d.recipient = some r ∧ check r = .ok () := by
  unfold QuotaJournal.checkRecipient
  cases d.recipient <;> simp

/-- A demand passes exactly when each limit it carries lets it. -/
theorem checkDemand_ok : QuotaJournal.checkDemand agent nowMs rows d = .ok () ↔
    (∀ cap, d.maxPerHour = some cap →
      QuotaJournal.checkWindow rows agent d.ruleId d.amount cap HOUR_MS nowMs = .ok ()) ∧
    (∀ cap, d.maxPerDay = some cap →
      QuotaJournal.checkWindow rows agent d.ruleId d.amount cap DAY_MS nowMs = .ok ()) ∧
    (∀ cd, d.cooldownPerRecipientMs = some cd → ∃ r, d.recipient = some r ∧
      QuotaJournal.countToRecipient rows agent d.ruleId r cd nowMs = 0) ∧
    (∀ n, d.maxCountPerHour = some n →
      QuotaJournal.countInWindow rows agent d.ruleId HOUR_MS nowMs < n) ∧
    (∀ n, d.maxCountPerDay = some n →
      QuotaJournal.countInWindow rows agent d.ruleId DAY_MS nowMs < n) ∧
    ∀ n, d.maxCountPerRecipientPerHour = some n → ∃ r, d.recipient = some r ∧
      QuotaJournal.countToRecipient rows agent d.ruleId r HOUR_MS nowMs < n := by
  unfold QuotaJournal.checkDemand
  simp only [bind_ok, whenSome_ok, checkRecipient_ok, failIf_ok, gt_iff_lt, ge_iff_le, not_lt,
    not_le, Nat.le_zero_eq, exists_const]

theorem rates_eq (h : d.rates = L) : d.maxPerHour = L.maxPerHour ∧ d.maxPerDay = L.maxPerDay ∧
    d.cooldownPerRecipientMs = L.cooldownPerRecipientMs ∧ d.maxCountPerHour = L.maxCountPerHour ∧
    d.maxCountPerDay = L.maxCountPerDay ∧
    d.maxCountPerRecipientPerHour = L.maxCountPerRecipientPerHour := by
  subst h
  exact ⟨rfl, rfl, rfl, rfl, rfl, rfl⟩

/-- A window check leaves room for the demand among the events it sums. -/
theorem checkWindow_fits {cap : AssetAmount} {W : ℤ} (hid : d.ruleId = ruleId)
    (h : QuotaJournal.checkWindow rows agent d.ruleId d.amount cap W nowMs = .ok ()) :
    total (nowMs - W < ·) ((Meter.units cap W).stamps (live agent ruleId rows)) +
      d.amount.units ≤ cap.units := by
  obtain ⟨⟨hs, hp⟩, hle⟩ := checkWindow_ok.1 h
  rw [Meter.total_live]
  subst hid
  unfold QuotaJournal.consumed at hle
  rw [← hs, ← hp] at hle
  exact hle

theorem unitsMeter_enforced {cap : AssetAmount} {W : ℤ}
    (hL : (L.maxPerHour = some cap ∧ W = HOUR_MS) ∨ (L.maxPerDay = some cap ∧ W = DAY_MS)) :
    (Meter.units cap W).Enforced agent ruleId L := by
  intro rows nowMs rid d hid hrates hcheck _
  obtain ⟨hh, hd, -⟩ := rates_eq hrates
  obtain ⟨hhour, hday, -⟩ := checkDemand_ok.1 hcheck
  rcases hL with ⟨hL, rfl⟩ | ⟨hL, rfl⟩
  · exact checkWindow_fits hid (hhour cap (hh.trans hL))
  · exact checkWindow_fits hid (hday cap (hd.trans hL))

theorem countMeter_enforced {n : ℕ} {W : ℤ}
    (hL : (L.maxCountPerHour = some n ∧ W = HOUR_MS) ∨ (L.maxCountPerDay = some n ∧ W = DAY_MS)) :
    (Meter.count n W).Enforced agent ruleId L := by
  intro rows nowMs rid d hid hrates hcheck _
  obtain ⟨-, -, -, hh, hd, -⟩ := rates_eq hrates
  obtain ⟨-, -, -, hhour, hday, -⟩ := checkDemand_ok.1 hcheck
  have hcount : ∀ W', (((QuotaJournal.inWindow rows agent d.ruleId W' nowMs).filter
      (Meter.count n W').select).map (Meter.count n W').weight).sum =
        QuotaJournal.countInWindow rows agent d.ruleId W' nowMs := by
    intro W'
    simp [Meter.count, QuotaJournal.countInWindow]
  rw [Meter.total_live, ← hid]
  rcases hL with ⟨hL, rfl⟩ | ⟨hL, rfl⟩
  · have hlt := hhour n (hh.trans hL)
    rw [← hcount] at hlt
    exact hlt
  · have hlt := hday n (hd.trans hL)
    rw [← hcount] at hlt
    exact hlt

theorem recipientMeter_enforced {r : JsString} {n : ℕ} {W : ℤ}
    (hL : (L.maxCountPerRecipientPerHour = some n ∧ W = HOUR_MS) ∨
      (∃ cd : ℕ, L.cooldownPerRecipientMs = some cd ∧ W = cd ∧ n = 1)) :
    (Meter.recipient r n W).Enforced agent ruleId L := by
  intro rows nowMs rid d hid hrates hcheck hsel
  have hr : d.recipient = some r := of_decide_eq_true hsel
  obtain ⟨-, -, hc, -, -, hm⟩ := rates_eq hrates
  obtain ⟨-, -, hcool, -, -, hhour⟩ := checkDemand_ok.1 hcheck
  have hcount : (((QuotaJournal.inWindow rows agent d.ruleId W nowMs).filter
      (Meter.recipient r n W).select).map (Meter.recipient r n W).weight).sum =
        QuotaJournal.countToRecipient rows agent d.ruleId r W nowMs := by
    simp [Meter.recipient, QuotaJournal.countToRecipient]
  rw [Meter.total_live, ← hid]
  rcases hL with ⟨hL, rfl⟩ | ⟨cd, hL, rfl, rfl⟩
  · obtain ⟨r', hr', hlt⟩ := hhour n (hm.trans hL)
    rw [hr, Option.some.injEq] at hr'
    subst hr'
    rw [← hcount] at hlt
    exact hlt
  · obtain ⟨r', hr', hzero⟩ := hcool cd (hc.trans hL)
    rw [hr, Option.some.injEq] at hr'
    subst hr'
    rw [← hcount] at hzero
    rw [show (Meter.recipient r 1 (cd : ℤ)).window = cd from rfl, hzero]
    exact Nat.le_refl 1

/-! ## Ledgers -/

/-- A journal with all events ever reserved, in their present states: what the table would
be without pruning. -/
structure Ledger where
  journal : QuotaJournal
  history : List QuotaEvent

namespace Ledger

def empty : Ledger := ⟨.empty, []⟩

/-- The events an operation adds: none when it refuses, and none when it finalises. -/
def added (journal : QuotaJournal) : JournalOp → List QuotaEvent
  | .reserve agent demands nowMs =>
    match QuotaJournal.reserveRows journal.issued agent demands nowMs journal.rows with
    | .ok _ => demands.map (QuotaJournal.eventOf journal.issued agent nowMs)
    | .error _ => []
  | _ => []

/-- What an operation does to events that are there. -/
def changed (journal : QuotaJournal) (events : List QuotaEvent) : JournalOp → List QuotaEvent
  | .reserve .. => events
  | .commit rid agent digest =>
    if QuotaJournal.hasCommitted journal.rows agent digest then
      QuotaJournal.update rid QuotaJournal.toReleased events
    else QuotaJournal.update rid (QuotaJournal.toCommitted digest) events
  | .release rid => QuotaJournal.update rid QuotaJournal.toReleased events

def apply (s : Ledger) (op : JournalOp) : Ledger :=
  ⟨op.apply s.journal, changed s.journal s.history op ++ added s.journal op⟩

end Ledger

def ledgerAfter (ops : List JournalOp) : Ledger := ops.foldl Ledger.apply .empty

theorem ledgerAfter_append (ops : List JournalOp) (op : JournalOp) :
    ledgerAfter (ops ++ [op]) = (ledgerAfter ops).apply op := by
  simp [ledgerAfter]

/-- The ledger's journal is the journal. -/
theorem ledgerAfter_journal (ops : List JournalOp) :
    (ledgerAfter ops).journal = journalAfter ops := by
  induction ops using List.reverseRecOn with
  | nil => rfl
  | append_singleton ops op ih =>
    rw [ledgerAfter_append, Ledger.apply, ih]
    simp [journalAfter]

/-- A finalisation changes the state and the digest of the reservation's events only. Times and
amounts stay. -/
def Finalising (set : QuotaEvent → QuotaEvent) : Prop :=
  ∀ e, ∃ s d, set e = { e with state := s, digest := d }

theorem toReleased_finalising : Finalising QuotaJournal.toReleased :=
  fun e => ⟨.released, e.digest, rfl⟩

theorem toCommitted_finalising (digest : JsString) :
    Finalising (QuotaJournal.toCommitted digest) := fun _ => ⟨.committed, some digest, rfl⟩

/-- What an operation does to the events it finds, in one form: nothing, or a finalisation
of its reservation. -/
theorem changed_cases (journal : QuotaJournal) (op : JournalOp) :
    (∀ events, Ledger.changed journal events op = events) ∨
      ∃ rid set, op.finalises? = some rid ∧ Finalising set ∧
        ∀ events, Ledger.changed journal events op = QuotaJournal.update rid set events := by
  cases op with
  | reserve agent demands nowMs => exact Or.inl fun _ => rfl
  | commit rid agent digest =>
    by_cases hc : QuotaJournal.hasCommitted journal.rows agent digest
    · exact Or.inr ⟨rid, _, rfl, toReleased_finalising, fun events => by simp [Ledger.changed, hc]⟩
    · exact Or.inr ⟨rid, _, rfl, toCommitted_finalising digest,
        fun events => by simp [Ledger.changed, hc]⟩
  | release rid => exact Or.inr ⟨rid, _, rfl, toReleased_finalising, fun _ => rfl⟩

/-- The table after an operation: unless the operation reserves, the events it found, changed. -/
theorem apply_rows (journal : QuotaJournal) (op : JournalOp) :
    (op.apply journal).rows = Ledger.changed journal journal.rows op ∧
        Ledger.added journal op = [] ∨
      ∃ agent demands nowMs, op = .reserve agent demands nowMs ∧
        QuotaJournal.reserveRows journal.issued agent demands nowMs journal.rows =
          .ok (QuotaJournal.prune journal.rows nowMs ++
            demands.map (QuotaJournal.eventOf journal.issued agent nowMs)) ∧
        (op.apply journal).rows = QuotaJournal.prune journal.rows nowMs ++ Ledger.added journal op ∧
        Ledger.added journal op =
          demands.map (QuotaJournal.eventOf journal.issued agent nowMs) := by
  cases op with
  | reserve agent demands nowMs =>
    cases hr : QuotaJournal.reserveRows journal.issued agent demands nowMs journal.rows with
    | error reason =>
      refine Or.inl ⟨?_, by simp [Ledger.added, hr]⟩
      simp [JournalOp.apply, QuotaJournal.reserve, hr, Ledger.changed]
    | ok rows =>
      obtain ⟨rfl, -⟩ := foldlM_guarded.1 hr
      refine Or.inr ⟨agent, demands, nowMs, rfl, hr, ?_, by simp [Ledger.added, hr]⟩
      simp [JournalOp.apply, QuotaJournal.reserve, hr, Ledger.added]
  | commit rid agent digest =>
    refine Or.inl ⟨?_, rfl⟩
    by_cases hc : QuotaJournal.hasCommitted journal.rows agent digest <;>
      simp [JournalOp.apply, QuotaJournal.commit, Ledger.changed, hc]
  | release rid => exact Or.inl ⟨rfl, rfl⟩

/-! ## What a run keeps -/

theorem filter_update {rid : ℕ} {set : QuotaEvent → QuotaEvent} (hset : Finalising set)
    {p : QuotaEvent → Bool} (hp : ∀ e s d, p { e with state := s, digest := d } = p e)
    (events : List QuotaEvent) : (QuotaJournal.update rid set events).filter p =
      QuotaJournal.update rid set (events.filter p) := by
  induction events with
  | nil => rfl
  | cons e events ih =>
    have hpe : p (if e.reservationId = rid then set e else e) = p e := by
      obtain ⟨s, d, hse⟩ := hset e
      split
      · rw [hse, hp]
      · rfl
    unfold QuotaJournal.update at ih ⊢
    rw [List.map_cons, List.filter_cons, List.filter_cons, hpe, ih]
    split <;> rfl

/-- Younger than a day, at time `T`. -/
def youngAt (T : ℤ) (e : QuotaEvent) : Bool := T - DAY_MS < e.createdAtMs

/-- What a run keeps. The table and the history agree on events young enough for any clock
still to come, the table has nothing else, and only finalised reservations have events that
are not reserved. -/
structure Ledger.Inv (ops : List JournalOp) (s : Ledger) : Prop where
  young : ∀ T, (∀ n ∈ ops.filterMap JournalOp.now?, n ≤ T + DAY_MS) →
    s.journal.rows.filter (youngAt T) = s.history.filter (youngAt T)
  sublist : s.journal.rows.Sublist s.history
  pending : ∀ e ∈ s.history, e.reservationId ∉ ops.filterMap JournalOp.finalises? →
    e.state = .reserved

theorem mem_filterMap_append {β : Type} {f : JournalOp → Option β} {ops : List JournalOp}
    {op : JournalOp} {b : β} :
    b ∈ (ops ++ [op]).filterMap f ↔ b ∈ ops.filterMap f ∨ f op = some b := by
  rw [List.filterMap_append, List.mem_append]
  simp

theorem youngAt_prune {T nowMs : ℤ} (hT : nowMs ≤ T + DAY_MS) (rows : List QuotaEvent) :
    (QuotaJournal.prune rows nowMs).filter (youngAt T) = rows.filter (youngAt T) := by
  unfold QuotaJournal.prune
  rw [List.filter_filter]
  refine List.filter_congr fun e _ => ?_
  rw [Bool.eq_iff_iff]
  simp only [youngAt, RETENTION_MS, Bool.and_eq_true, decide_eq_true_eq, not_lt]
  constructor
  · exact fun h => h.1
  · intro h
    exact ⟨h, by omega⟩

theorem Ledger.Inv.step {ops : List JournalOp} {s : Ledger} (h : Ledger.Inv ops s)
    (op : JournalOp) : Ledger.Inv (ops ++ [op]) (s.apply op) := by
  have hold : ∀ T, (∀ n ∈ (ops ++ [op]).filterMap JournalOp.now?, n ≤ T + DAY_MS) →
      s.journal.rows.filter (youngAt T) = s.history.filter (youngAt T) := fun T hT =>
    h.young T fun n hn => hT n (mem_filterMap_append.2 (Or.inl hn))
  -- a row that no operation has finalised is reserved, also after this one
  have hpend : ∀ e ∈ Ledger.changed s.journal s.history op,
      e.reservationId ∉ (ops ++ [op]).filterMap JournalOp.finalises? → e.state = .reserved := by
    intro e he hout
    rw [mem_filterMap_append, not_or] at hout
    rcases changed_cases s.journal op with hsame | ⟨rid, set, hfin, hset, hupd⟩
    · rw [hsame] at he
      exact h.pending e he hout.1
    · rw [hupd] at he
      obtain ⟨e₀, he₀, rfl⟩ := List.mem_map.1 he
      by_cases hrid : e₀.reservationId = rid
      · obtain ⟨st, dg, hse⟩ := hset e₀
        rw [if_pos hrid, hse] at hout
        exact absurd (by rw [hfin]; exact congrArg some hrid.symm) hout.2
      · rw [if_neg hrid] at hout ⊢
        exact h.pending e₀ he₀ hout.1
  rcases apply_rows s.journal op with ⟨hrows, hadd⟩ | ⟨agent, demands, nowMs, rfl, -, hrows, hadd⟩
  -- no rows are added: the history changes as the journal does
  · have hhist : (s.apply op).history = Ledger.changed s.journal s.history op := by
      simp [Ledger.apply, hadd]
    refine ⟨fun T hT => ?_, ?_, ?_⟩
    · show (op.apply s.journal).rows.filter _ = _
      rw [hrows, hhist]
      rcases changed_cases s.journal op with hsame | ⟨rid, set, -, hset, hupd⟩
      · rw [hsame, hsame]
        exact hold T hT
      · rw [hupd, hupd, filter_update hset (fun _ _ _ => rfl), filter_update hset (fun _ _ _ => rfl),
          hold T hT]
    · show (op.apply s.journal).rows.Sublist _
      rw [hrows, hhist]
      rcases changed_cases s.journal op with hsame | ⟨rid, set, -, -, hupd⟩
      · rw [hsame, hsame]
        exact h.sublist
      · rw [hupd, hupd]
        exact h.sublist.map _
    · rw [hhist]
      exact hpend
  -- a reservation adds its rows to both, and prunes the journal of rows past the retention
  · have hhist : (s.apply (.reserve agent demands nowMs)).history = s.history ++
        Ledger.added s.journal (.reserve agent demands nowMs) := rfl
    refine ⟨fun T hT => ?_, ?_, ?_⟩
    · show (JournalOp.apply s.journal _).rows.filter _ = _
      have hnow : nowMs ≤ T + DAY_MS := hT nowMs (mem_filterMap_append.2 (Or.inr rfl))
      rw [hrows, hhist, List.filter_append, List.filter_append, youngAt_prune hnow, hold T hT]
    · show (JournalOp.apply s.journal _).rows.Sublist _
      rw [hrows, hhist]
      exact (List.filter_sublist.trans h.sublist).append (List.Sublist.refl _)
    · intro e he hout
      rw [hhist] at he
      rcases List.mem_append.1 he with he | he
      · exact hpend e he hout
      · rw [hadd] at he
        obtain ⟨d, -, rfl⟩ := List.mem_map.1 he
        rfl

theorem ledger_inv (ops : List JournalOp) : Ledger.Inv ops (ledgerAfter ops) := by
  induction ops using List.reverseRecOn with
  | nil => exact ⟨fun _ _ => rfl, List.Sublist.refl _, by simp [ledgerAfter, Ledger.empty]⟩
  | append_singleton ops op ih =>
    rw [ledgerAfter_append]
    exact ih.step op

/-! ## What a run keeps about a meter -/

theorem filterMap_sublist {α β : Type} {f g : α → Option β} {l : List α}
    (h : ∀ x ∈ l, f x = none ∨ f x = g x) : (l.filterMap f).Sublist (l.filterMap g) := by
  induction l with
  | nil => exact List.Sublist.slnil
  | cons a l ih =>
    have hl := ih fun x hx => h x (by simp [hx])
    rw [List.filterMap_cons, List.filterMap_cons]
    rcases h a (by simp) with hn | hs
    · rw [hn]
      cases g a with
      | none => exact hl
      | some b => exact hl.cons b
    · rw [hs]
      cases g a with
      | none => exact hl
      | some b => exact hl.cons_cons b

namespace Meter

variable {m : Meter}

/-- The stamp of one event, when it is live and counted. -/
def stamp? (m : Meter) (agent ruleId : JsString) (e : QuotaEvent) : Option (ℤ × ℕ) :=
  if (e.agent = agent ∧ e.ruleId = ruleId ∧ e.state ≠ .released) ∧ m.select e then
    some (e.createdAtMs, m.weight e)
  else none

theorem stamps_live (events : List QuotaEvent) :
    m.stamps (live agent ruleId events) = events.filterMap (m.stamp? agent ruleId) := by
  induction events with
  | nil => rfl
  | cons e events ih =>
    rw [List.filterMap_cons, ← ih]
    unfold stamps live stamp?
    by_cases hl : e.agent = agent ∧ e.ruleId = ruleId ∧ e.state ≠ .released
    · by_cases hs : m.select e = true <;> simp [hl, hs]
    · simp [hl]

/-- Finalising reserved events takes stamps away at most. -/
theorem stamps_update {set : QuotaEvent → QuotaEvent} (hset : Finalising set) {rid : ℕ}
    {events : List QuotaEvent}
    (hpend : ∀ e ∈ events, e.reservationId = rid → e.state = .reserved) :
    (m.stamps (live agent ruleId (QuotaJournal.update rid set events))).Sublist
      (m.stamps (live agent ruleId events)) := by
  rw [stamps_live, stamps_live, QuotaJournal.update, List.filterMap_map]
  refine filterMap_sublist fun e he => ?_
  rw [Function.comp_apply]
  by_cases hrid : e.reservationId = rid
  · obtain ⟨s, d, hse⟩ := hset e
    rw [if_pos hrid, hse]
    have hres : e.state ≠ .released := by rw [hpend e he hrid]; simp
    unfold stamp?
    rw [m.select_stable, m.weight_stable]
    by_cases hs : s = .released
    · exact Or.inl (by simp [hs])
    · exact Or.inr (by simp [hs, hres])
  · rw [if_neg hrid]
    exact Or.inr rfl

/-- A meter over at most a day sees the young events only. -/
theorem total_young {T : ℤ} (hW : m.window ≤ DAY_MS) {events events' : List QuotaEvent}
    (h : events.filter (youngAt T) = events'.filter (youngAt T)) :
    total (T - m.window < ·) (m.stamps (live agent ruleId events)) =
      total (T - m.window < ·) (m.stamps (live agent ruleId events')) := by
  have hsee : ∀ l : List QuotaEvent, total (T - m.window < ·) (m.stamps (live agent ruleId l)) =
      total (T - m.window < ·) (m.stamps (live agent ruleId (l.filter (youngAt T)))) := by
    intro l
    rw [total_stamps, total_stamps]
    unfold live
    simp only [List.filter_filter]
    congr 2
    refine List.filter_congr fun e _ => ?_
    rw [Bool.eq_iff_iff]
    simp only [youngAt, Bool.and_eq_true, decide_eq_true_eq]
    constructor
    · rintro ⟨ht, hs, hl⟩
      exact ⟨ht, hs, hl, by omega⟩
    · rintro ⟨ht, hs, hl, -⟩
      exact ⟨ht, hs, hl⟩
  rw [hsee, h, ← hsee]

/-- A passed check admits the event: the log stays admitted with it. -/
theorem admitted_insert (hm : m.Enforced agent ruleId L) (hW : m.window ≤ DAY_MS)
    {agent' : JsString} {rid : ℕ} (hrates : agent' = agent → d.ruleId = ruleId → d.rates = L)
    {history : List QuotaEvent} (hyoung : rows.filter (youngAt nowMs) =
      history.filter (youngAt nowMs))
    (hcheck : QuotaJournal.checkDemand agent' nowMs rows d = .ok ())
    (hadm : Admitted m.window m.cap (m.stamps (live agent ruleId history)).reverse) :
    Admitted m.window m.cap (m.stamps (live agent ruleId
      (history ++ [QuotaJournal.eventOf rid agent' nowMs d]))).reverse := by
  rw [stamps_live, List.filterMap_append, ← stamps_live]
  by_cases hin : (agent' = agent ∧ d.ruleId = ruleId) ∧
      m.select (QuotaJournal.eventOf rid agent' nowMs d) = true
  · obtain ⟨⟨rfl, hid⟩, hsel⟩ := hin
    have hstamp : m.stamp? agent' ruleId (QuotaJournal.eventOf rid agent' nowMs d) =
        some (nowMs, m.weight (QuotaJournal.eventOf rid agent' nowMs d)) := by
      unfold stamp?
      rw [if_pos ⟨⟨rfl, hid, by simp [QuotaJournal.eventOf]⟩, hsel⟩]
      rfl
    have hfit := hm rows nowMs rid d hid (hrates rfl hid) hcheck hsel
    rw [total_young hW hyoung] at hfit
    simp only [List.filterMap_cons, hstamp, List.filterMap_nil, List.reverse_append,
      List.reverse_cons, List.reverse_nil, List.nil_append, List.cons_append]
    refine ⟨?_, hadm⟩
    rw [total_reverse]
    exact hfit
  · have hstamp : m.stamp? agent ruleId (QuotaJournal.eventOf rid agent' nowMs d) = none := by
      unfold stamp?
      rw [if_neg]
      rintro ⟨⟨ha, hr, -⟩, hs⟩
      exact hin ⟨⟨ha, hr⟩, hs⟩
    simpa [hstamp] using hadm

end Meter

/-- A reservation that passes its checks one by one keeps the log admitted. -/
theorem admitted_reserve {m : Meter} (hm : m.Enforced agent ruleId L) (hW : m.window ≤ DAY_MS)
    {agent' : JsString} {rid : ℕ} {demands : List QuotaDemand}
    (hrates : agent' = agent → ∀ d ∈ demands, d.ruleId = ruleId → d.rates = L)
    {history : List QuotaEvent} (hyoung : rows.filter (youngAt nowMs) =
      history.filter (youngAt nowMs))
    (hchecks : ∀ pre d post, demands = pre ++ d :: post → QuotaJournal.checkDemand agent' nowMs
      (rows ++ pre.map (QuotaJournal.eventOf rid agent' nowMs)) d = .ok ())
    (hadm : Admitted m.window m.cap (m.stamps (live agent ruleId history)).reverse) :
    Admitted m.window m.cap (m.stamps (live agent ruleId
      (history ++ demands.map (QuotaJournal.eventOf rid agent' nowMs)))).reverse := by
  -- the demands are inserted one at a time; the prefix already inserted carries the induction
  suffices hpre : ∀ pre post, demands = pre ++ post → Admitted m.window m.cap
      (m.stamps (live agent ruleId
        (history ++ pre.map (QuotaJournal.eventOf rid agent' nowMs)))).reverse from
    hpre demands [] (by simp)
  intro pre
  induction pre using List.reverseRecOn with
  | nil => intro post _; simpa using hadm
  | append_singleton pre d ih =>
    intro post hpost
    have hsplit : demands = pre ++ d :: post := by rw [hpost]; simp
    have hmem : d ∈ demands := by rw [hsplit]; simp
    rw [List.map_append, List.map_singleton, ← List.append_assoc]
    refine Meter.admitted_insert hm hW (fun ha => hrates ha d hmem) ?_ (hchecks pre d post hsplit)
      (ih (d :: post) hsplit)
    rw [List.filter_append, List.filter_append, hyoung]

/-- **A run keeps every enforced meter.** Each reservation was checked against the rows of its
window, and pruning removes only rows that no later window holds. -/
theorem meter_admitted {m : Meter} (hm : m.Enforced agent ruleId L) (hW : m.window ≤ DAY_MS)
    {ops : List JournalOp} (hfin : FinalisedOnce ops) (hclock : ClockOrdered ops)
    (hrates : FixedRates agent ruleId L ops) :
    Admitted m.window m.cap
      (m.stamps (live agent ruleId (ledgerAfter ops).history)).reverse := by
  -- by induction on the operations, the last one at the end
  induction ops using List.reverseRecOn with
  | nil => trivial
  | append_singleton ops op ih =>
    unfold FinalisedOnce at hfin
    unfold ClockOrdered at hclock
    rw [List.filterMap_append] at hfin hclock
    obtain ⟨hfin₀, -, hfresh⟩ := List.nodup_append.1 hfin
    obtain ⟨hclock₀, -, hlater⟩ := List.pairwise_append.1 hclock
    have hadm := ih hfin₀ hclock₀ fun demands nowMs hop =>
      hrates demands nowMs (List.mem_append_left _ hop)
    have hinv := ledger_inv ops
    rw [ledgerAfter_append]
    generalize ledgerAfter ops = s at hadm hinv ⊢
    rcases apply_rows s.journal op with ⟨-, hadd⟩ | ⟨agent', demands, nowMs, rfl, hres, -, hadd⟩
    -- a commit or a release adds nothing, and can only take stamps away
    · have hhist : (s.apply op).history = Ledger.changed s.journal s.history op := by
        simp [Ledger.apply, hadd]
      rw [hhist]
      rcases changed_cases s.journal op with hsame | ⟨rid, set, hf, hset, hupd⟩
      · rw [hsame]
        exact hadm
      · rw [hupd]
        have hpend : ∀ e ∈ s.history, e.reservationId = rid → e.state = .reserved := by
          intro e he hrid
          refine hinv.pending e he fun hmem => ?_
          exact hfresh _ hmem rid (by simp [hf]) hrid
        exact hadm.sublist (Meter.stamps_update hset hpend).reverse
    -- a reservation was checked against what the journal still holds of the window
    · have hhist : (s.apply (.reserve agent' demands nowMs)).history =
          s.history ++ demands.map (QuotaJournal.eventOf s.journal.issued agent' nowMs) := by
        rw [← hadd]
        rfl
      obtain ⟨-, hchecks⟩ := foldlM_guarded.1 hres
      -- the pruning has left these rows, as the clock is at most a day behind
      have hnow : ∀ n ∈ ops.filterMap JournalOp.now?, n ≤ nowMs + DAY_MS :=
        fun n hn => hlater n hn nowMs (by simp [JournalOp.now?])
      rw [hhist]
      refine admitted_reserve hm hW ?_ ?_ hchecks hadm
      · rintro rfl
        exact hrates demands nowMs (by simp)
      · rw [youngAt_prune (by unfold DAY_MS; omega)]
        exact hinv.young nowMs hnow

/-- What every passed check says of its event, and finalising does not change, holds of all
events of the rule. -/
theorem history_forall {Q : QuotaEvent → Prop}
    (hstable : ∀ e s d, Q e → Q { e with state := s, digest := d })
    (hcheck : ∀ rows nowMs rid (d : QuotaDemand), d.ruleId = ruleId → d.rates = L →
      QuotaJournal.checkDemand agent nowMs rows d = .ok () →
      Q (QuotaJournal.eventOf rid agent nowMs d))
    {ops : List JournalOp} (hrates : FixedRates agent ruleId L ops) :
    ∀ e ∈ (ledgerAfter ops).history, e.agent = agent → e.ruleId = ruleId → Q e := by
  induction ops using List.reverseRecOn with
  | nil => simp [ledgerAfter, Ledger.empty]
  | append_singleton ops op ih =>
    have hold := ih fun demands nowMs hop => hrates demands nowMs (List.mem_append_left _ hop)
    rw [ledgerAfter_append]
    generalize ledgerAfter ops = s at hold ⊢
    intro e he ha hr
    rcases List.mem_append.1 he with he | he
    · rcases changed_cases s.journal op with hsame | ⟨rid, set, -, hset, hupd⟩
      · rw [hsame] at he
        exact hold e he ha hr
      · rw [hupd] at he
        obtain ⟨e₀, he₀, rfl⟩ := List.mem_map.1 he
        obtain ⟨st, dg, hse⟩ := hset e₀
        split at ha
        · rename_i hrid
          rw [if_pos hrid] at hr ⊢
          rw [hse] at ha hr ⊢
          exact hstable e₀ st dg (hold e₀ he₀ ha hr)
        · rename_i hrid
          rw [if_neg hrid] at hr ⊢
          exact hold e₀ he₀ ha hr
    · rcases apply_rows s.journal op with ⟨-, hadd⟩ | ⟨agent', demands, nowMs, rfl, hres, -, hadd⟩
      · rw [hadd] at he
        simp at he
      · rw [hadd] at he
        obtain ⟨d, hd, rfl⟩ := List.mem_map.1 he
        have hagent : agent' = agent := ha
        subst hagent
        obtain ⟨pre, post, hsplit⟩ := List.append_of_mem hd
        exact hcheck _ nowMs _ d hr (hrates demands nowMs (by simp) d hd hr)
          ((foldlM_guarded.1 hres).2 pre d post hsplit)

/-! ## The law -/

/-- An admitted meter caps every window. -/
theorem Meter.law {m : Meter} {events : List QuotaEvent}
    (h : Admitted m.window m.cap (m.stamps events).reverse) (a : ℤ) :
    (((events.filter m.select).filter (between a m.window)).map m.weight).sum ≤ m.cap := by
  have hlaw := h.window a
  rw [total_reverse, Meter.total_stamps] at hlaw
  exact hlaw

theorem units_law {cap : AssetAmount} {W : ℤ} {events : List QuotaEvent}
    (h : Admitted W cap.units ((Meter.units cap W).stamps events).reverse)
    (hsame : ∀ e ∈ events, e.symbol = cap.symbol ∧ e.precision = cap.precision) (a : ℤ) :
    ((events.filter (between a W)).map QuotaEvent.units).sum ≤ cap.units := by
  have hall : events.filter (Meter.units cap W).select = events :=
    List.filter_eq_self.2 fun e he => decide_eq_true (hsame e he)
  have hlaw := Meter.law (m := Meter.units cap W) h a
  rw [hall] at hlaw
  exact hlaw

theorem count_law {n : ℕ} {W : ℤ} {events : List QuotaEvent}
    (h : Admitted W n ((Meter.count n W).stamps events).reverse) (a : ℤ) :
    (events.filter (between a W)).length ≤ n := by
  have hlaw := Meter.law (m := Meter.count n W) h a
  simpa [Meter.count] using hlaw

theorem recipient_law {r : JsString} {n : ℕ} {W : ℤ} {events : List QuotaEvent}
    (h : Admitted W n ((Meter.recipient r n W).stamps events).reverse) (a : ℤ) :
    ((events.filter fun e => e.recipient = some r).filter (between a W)).length ≤ n := by
  have hlaw := Meter.law (m := Meter.recipient r n W) h a
  simpa [Meter.recipient] using hlaw

/-- Under a cooldown, any two events to one recipient are that far apart. -/
theorem cooldown_law {cd : ℕ} {events : List QuotaEvent}
    (h : ∀ r, Admitted (cd : ℤ) 1 ((Meter.recipient r 1 cd).stamps events).reverse) :
    events.Pairwise fun e e' => ∀ r, e.recipient = some r → e'.recipient = some r →
      (cd : ℤ) ≤ |e'.createdAtMs - e.createdAtMs| := by
  have hr : ∀ r, events.Pairwise fun e e' => e.recipient = some r → e'.recipient = some r →
      (cd : ℤ) ≤ |e'.createdAtMs - e.createdAtMs| := by
    intro r
    have hone : ∀ s ∈ ((Meter.recipient r 1 cd).stamps events).reverse, s.2 = 1 := by
      intro s hs
      obtain ⟨e, -, rfl⟩ := List.mem_map.1 (List.mem_reverse.1 hs)
      rfl
    have hpair := (h r).apart hone
    rw [List.pairwise_reverse, Meter.stamps, List.pairwise_map, List.pairwise_filter] at hpair
    refine hpair.imp fun {e e'} hee he he' => ?_
    have hle : e.createdAtMs ≤ e'.createdAtMs - cd := hee (decide_eq_true he) (decide_eq_true he')
    exact le_trans (by omega) (le_abs_self _)
  rw [List.pairwise_iff_forall_sublist]
  intro e e' hsub r he he'
  exact List.pairwise_iff_forall_sublist.1 (hr r) hsub he he'

/-- Fewer events obey as well. -/
theorem RateLimits.Obeyed.sublist {events events' : List QuotaEvent} (h : L.Obeyed events)
    (hsub : events'.Sublist events) : L.Obeyed events' where
  perHour cap hc a := le_trans
    (((hsub.filter _).map _).sum_le_sum fun _ _ => Nat.zero_le _) (h.perHour cap hc a)
  perDay cap hc a := le_trans
    (((hsub.filter _).map _).sum_le_sum fun _ _ => Nat.zero_le _) (h.perDay cap hc a)
  countPerHour n hn a := le_trans (hsub.filter _).length_le (h.countPerHour n hn a)
  countPerDay n hn a := le_trans (hsub.filter _).length_le (h.countPerDay n hn a)
  countPerRecipient n hn r a :=
    le_trans ((hsub.filter _).filter _).length_le (h.countPerRecipient n hn r a)
  cooldown cd hcd := (h.cooldown cd hcd).sublist hsub

/-- All events ever reserved obey the limits. -/
theorem history_obeyed {ops : List JournalOp} (hfin : FinalisedOnce ops)
    (hclock : ClockOrdered ops) (hrates : FixedRates agent ruleId L ops)
    (hcd : ∀ cd, L.cooldownPerRecipientMs = some cd → (cd : ℤ) ≤ DAY_MS) :
    L.Obeyed (live agent ruleId (ledgerAfter ops).history) := by
  have hkeep : ∀ m : Meter, m.Enforced agent ruleId L → m.window ≤ DAY_MS → Admitted m.window m.cap
      (m.stamps (live agent ruleId (ledgerAfter ops).history)).reverse :=
    fun m hm hW => meter_admitted hm hW hfin hclock hrates
  have hhour : HOUR_MS ≤ DAY_MS := by decide
  have hsame : ∀ cap, L.maxPerHour = some cap ∨ L.maxPerDay = some cap →
      ∀ e ∈ live agent ruleId (ledgerAfter ops).history,
        e.symbol = cap.symbol ∧ e.precision = cap.precision := by
    intro cap hc e he
    simp only [live, List.mem_filter, decide_eq_true_eq] at he
    refine history_forall (Q := fun e => e.symbol = cap.symbol ∧ e.precision = cap.precision)
      (fun _ _ _ h => h) ?_ hrates e he.1 he.2.1 he.2.2.1
    intro rows nowMs rid d _ hd hcheck
    obtain ⟨hh, hdy, -⟩ := rates_eq hd
    obtain ⟨hch, hcd, -⟩ := checkDemand_ok.1 hcheck
    rcases hc with hc | hc
    · exact (checkWindow_ok.1 (hch cap (hh.trans hc))).1.imp Eq.symm Eq.symm
    · exact (checkWindow_ok.1 (hcd cap (hdy.trans hc))).1.imp Eq.symm Eq.symm
  constructor
  · intro cap hc a
    exact units_law (hkeep (.units cap HOUR_MS) (unitsMeter_enforced (Or.inl ⟨hc, rfl⟩)) hhour)
      (hsame cap (Or.inl hc)) a
  · intro cap hc a
    exact units_law (hkeep (.units cap DAY_MS) (unitsMeter_enforced (Or.inr ⟨hc, rfl⟩)) le_rfl)
      (hsame cap (Or.inr hc)) a
  · intro n hn a
    exact count_law (hkeep (.count n HOUR_MS) (countMeter_enforced (Or.inl ⟨hn, rfl⟩)) hhour) a
  · intro n hn a
    exact count_law (hkeep (.count n DAY_MS) (countMeter_enforced (Or.inr ⟨hn, rfl⟩)) le_rfl) a
  · intro n hn r a
    exact recipient_law
      (hkeep (.recipient r n HOUR_MS) (recipientMeter_enforced (Or.inl ⟨hn, rfl⟩)) hhour) a
  · intro cd hc
    exact cooldown_law fun r => hkeep (.recipient r 1 cd)
      (recipientMeter_enforced (Or.inr ⟨cd, hc, rfl, rfl⟩)) (hcd cd hc)

/-- A refused reservation leaves the table as it was: nothing inserted, nothing pruned. -/
theorem reserve_refused {journal : QuotaJournal} {demands : List QuotaDemand}
    {reason : ReserveRefusal} (h : (journal.reserve agent demands nowMs).2 = .refused reason) :
    (journal.reserve agent demands nowMs).1.rows = journal.rows := by
  unfold QuotaJournal.reserve at h ⊢
  cases hr : QuotaJournal.reserveRows journal.issued agent demands nowMs journal.rows with
  | ok rows => simp [hr] at h
  | error reason' => rfl

/-- A reservation that is granted inserts the rows of its demands. -/
theorem reserve_ok {journal journal' : QuotaJournal} {demands : List QuotaDemand} {rid : ℕ}
    (h : journal.reserve agent demands nowMs = (journal', .ok rid)) :
    rid = journal.issued ∧ journal'.issued = journal.issued + 1 ∧
      journal'.rows = QuotaJournal.prune journal.rows nowMs ++
        demands.map (QuotaJournal.eventOf rid agent nowMs) := by
  unfold QuotaJournal.reserve at h
  cases hr : QuotaJournal.reserveRows journal.issued agent demands nowMs journal.rows with
  | error reason => simp [hr] at h
  | ok rows =>
    obtain ⟨hrows, -⟩ := foldlM_guarded.1 hr
    simp only [hr, Prod.mk.injEq, ReserveResult.ok.injEq] at h
    obtain ⟨rfl, rfl⟩ := h
    exact ⟨rfl, rfl, hrows⟩

theorem reserve_issued (journal : QuotaJournal) (agent : JsString) (demands : List QuotaDemand)
    (nowMs : ℤ) : (journal.reserve agent demands nowMs).1.issued = journal.issued + 1 := by
  unfold QuotaJournal.reserve
  split <;> rfl

/-- **The sliding-window law of the journal.** After every run in which reservations are
finalised at most once and the clock runs out of order by at most a day, the non-released
events of an agent and a rule with fixed limits obey them in every window: those in the
table, and all there ever were. And a refused reservation leaves the table as it was. -/
theorem rates_obeyed {ops : List JournalOp} (hfin : FinalisedOnce ops)
    (hclock : ClockOrdered ops) (hrates : FixedRates agent ruleId L ops)
    (hcd : ∀ cd, L.cooldownPerRecipientMs = some cd → (cd : ℤ) ≤ DAY_MS) :
    L.Obeyed (live agent ruleId (journalAfter ops).rows) ∧
      L.Obeyed (live agent ruleId (ledgerAfter ops).history) ∧
        ∀ agent' demands nowMs reason,
          ((journalAfter ops).reserve agent' demands nowMs).2 = .refused reason →
            ((journalAfter ops).reserve agent' demands nowMs).1.rows = (journalAfter ops).rows := by
  have hhist := history_obeyed hfin hclock hrates hcd
  refine ⟨hhist.sublist ?_, hhist, fun _ _ _ _ => reserve_refused⟩
  rw [← ledgerAfter_journal]
  exact (ledger_inv ops).sublist.filter _

namespace TwoTips

/-- A tip of 1000 units to alice, under 2500 an hour and a cooldown of a minute. -/
def tip : QuotaDemand :=
  ⟨js "tips", ⟨1000, js "XPR", 4⟩, some (js "alice"), some ⟨2500, js "XPR", 4⟩, none, some 60000,
    none, none, none⟩

/-- Two tips, the second stamped before the first, which is committed in between. -/
def ops : List JournalOp :=
  [.reserve (js "bot") [tip] 120000, .commit 0 (js "bot") (js "d0"), .reserve (js "bot") [tip] 0,
    .reserve (js "bot") [tip] 240000]

/-- The second of the three tips is refused, by the cooldown; two tips are in the table, and the
limits hold of them in every window. -/
theorem tips_obeyed : ((journalAfter ops).rows.map fun e => (e.createdAtMs, e.state)) =
      [(120000, .committed), (240000, .reserved)] ∧
    tip.rates.Obeyed (live (js "bot") (js "tips") (journalAfter ops).rows) := by
  have hrates : FixedRates (js "bot") (js "tips") tip.rates ops := by
    intro demands nowMs hop d hd _
    have hdemands : demands = [tip] := by
      simp only [ops, List.mem_cons, JournalOp.reserve.injEq, List.not_mem_nil, or_false,
        reduceCtorEq, false_or] at hop
      rcases hop with ⟨-, h, -⟩ | ⟨-, h, -⟩ | ⟨-, h, -⟩ <;> exact h
    rw [hdemands, List.mem_singleton] at hd
    rw [hd]
  have hcd : ∀ cd, tip.rates.cooldownPerRecipientMs = some cd → (cd : ℤ) ≤ DAY_MS := by
    rintro cd ⟨⟩
    decide
  exact ⟨by decide, (rates_obeyed (by unfold FinalisedOnce; decide) (by unfold ClockOrdered; decide)
    hrates hcd).1⟩

end TwoTips

end Signbox
