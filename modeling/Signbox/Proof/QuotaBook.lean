import Signbox.Proof.Journal

/-!
# The book of reservations

Over the journal's rows, a book that remembers for each reservation what it was made for, what
was signed under it, and whether its request is still under way. Six moves change it; the
journal follows each of them.

* `holding`: the rows of one reservation, and what each journal operation makes of them.
* `QuotaBook.Inv`: the rows of a reservation are exactly its demands in the state the book
  says, until a later reservation prunes them; every signed digest is covered by a reservation
  that is not released; and of the settled reservations over one digest at most one is live.
* `QuotaMove.Permitted`: when a move keeps that. A release needs another reservation that covers
  the digest; a commit or a reservation left behind must find no other that stands for it.
* `inv_apply`: every allowed move keeps the invariant.
-/

namespace Signbox

open Guard

/-! ## The rows of one reservation -/

/-- The rows with this reservation id. -/
def holding (rows : List QuotaEvent) (r : ℕ) : List QuotaEvent :=
  rows.filter fun e => e.reservationId = r

/-- The rows of a reservation are those that carry its id. -/
theorem mem_holding {rows : List QuotaEvent} {r : ℕ} {row : QuotaEvent} :
    row ∈ holding rows r ↔ row ∈ rows ∧ row.reservationId = r := by simp [holding]

/-- Rows added at the end come last. -/
theorem holding_append (rows rows' : List QuotaEvent) (r : ℕ) :
    holding (rows ++ rows') r = holding rows r ++ holding rows' r := List.filter_append ..

/-- Pruning does not mix reservations. -/
theorem holding_prune (rows : List QuotaEvent) (nowMs : ℤ) (r : ℕ) :
    holding (QuotaJournal.prune rows nowMs) r = QuotaJournal.prune (holding rows r) nowMs := by
  unfold holding QuotaJournal.prune
  rw [List.filter_filter, List.filter_filter]
  simp only [Bool.and_comm]

/-- Finalising a row leaves its reservation alone, -/
theorem update_reservationId {set : QuotaEvent → QuotaEvent} (hset : Finalising set) {r : ℕ}
    (e : QuotaEvent) : (if e.reservationId = r then set e else e).reservationId =
      e.reservationId := by
  obtain ⟨s, d, hse⟩ := hset e
  split
  · rw [hse]
  · rfl

/-- so the rows of one reservation are finalised together and all others stay. -/
theorem holding_update {set : QuotaEvent → QuotaEvent} (hset : Finalising set) (r r' : ℕ)
    (rows : List QuotaEvent) : holding (QuotaJournal.update r set rows) r' =
      if r' = r then (holding rows r').map set else holding rows r' := by
  induction rows with
  | nil => simp [holding, QuotaJournal.update]
  | cons e rows ih =>
    unfold holding QuotaJournal.update at ih ⊢
    rw [List.map_cons, List.filter_cons, List.filter_cons, update_reservationId hset, ih]
    by_cases he : e.reservationId = r'
    · subst he
      by_cases hr : e.reservationId = r <;> simp [hr]
    · simp [he]

/-- What a reservation was made for: its id, its agent, the demands, and the time that its rows are
dated with. -/
structure Hold where
  reservationId : ℕ
  agent : JsString
  demands : List QuotaDemand
  createdAtMs : ℤ

/-- The rows of a reservation, in some state. There is one for each demand, in the order of the
demands. -/
def Hold.events (p : Hold) (state : EventState) (digest : Option JsString) : List QuotaEvent :=
  p.demands.map fun d => { QuotaJournal.eventOf p.reservationId p.agent p.createdAtMs d with
    state := state, digest := digest }

/-- The rows of a hold carry its id, its agent and its time, and differ only in their demand. -/
theorem Hold.mem_events {p : Hold} {state : EventState} {digest : Option JsString}
    {row : QuotaEvent} (h : row ∈ p.events state digest) : row.reservationId = p.reservationId ∧
      row.agent = p.agent ∧ row.state = state ∧ row.digest = digest ∧
        row.createdAtMs = p.createdAtMs := by
  obtain ⟨d, -, rfl⟩ := List.mem_map.1 h
  exact ⟨rfl, rfl, rfl, rfl, rfl⟩

/-- A hold with demands has rows. -/
theorem Hold.events_ne_nil {p : Hold} (h : p.demands ≠ []) (state : EventState)
    (digest : Option JsString) : p.events state digest ≠ [] := by
  unfold Hold.events
  simpa using h

/-- A reservation that has outlived the retention at `nowMs`. The next reservation prunes its
rows. -/
def Hold.Outlived (p : Hold) (nowMs : ℤ) : Prop := p.createdAtMs < nowMs - RETENTION_MS

/-- A hold past the retention loses all of its rows at once, -/
theorem prune_outlived {p : Hold} {nowMs : ℤ} (h : p.Outlived nowMs) (state : EventState)
    (digest : Option JsString) : QuotaJournal.prune (p.events state digest) nowMs = [] := by
  refine List.filter_eq_nil_iff.2 fun row hrow => ?_
  have hc := (Hold.mem_events hrow).2.2.2.2
  unfold Hold.Outlived at h
  simp [hc, h]

/-- and one within it keeps them all, since they share one time. -/
theorem prune_kept {p : Hold} {nowMs : ℤ} (h : ¬ p.Outlived nowMs) (state : EventState)
    (digest : Option JsString) :
    QuotaJournal.prune (p.events state digest) nowMs = p.events state digest := by
  refine List.filter_eq_self.2 fun row hrow => ?_
  have hc := (Hold.mem_events hrow).2.2.2.2
  unfold Hold.Outlived at h
  simpa [hc] using h

/-! ## The book -/

/-- A reservation, the digest of what was signed under it, the state of its rows, and whether
its request is still under way. -/
structure QuotaEntry where
  hold : Hold
  digest : Option JsString
  state : EventState
  inFlight : Bool

namespace QuotaEntry

/-- The rows the journal has for the reservation. -/
def events (e : QuotaEntry) : List QuotaEvent :=
  e.hold.events e.state (if e.state = .committed then e.digest else none)

/-- The reservation was signed for by this agent over this digest. What became of its rows is not
said. -/
structure Covers (e : QuotaEntry) (agent digest : JsString) : Prop where
  agent : e.hold.agent = agent
  digest : e.digest = some digest

end QuotaEntry

/-- The journal together with the book of what was ever reserved in it. The book is not in the
source: the laws of the journal are stated over it. -/
structure QuotaBook where
  journal : QuotaJournal
  entries : List QuotaEntry

namespace QuotaBook

/-- A later reservation came when `p` had outlived the retention. Its rows are gone, and no window
reached them any more. -/
def Pruned (entries : List QuotaEntry) (p : Hold) : Prop :=
  ∃ q ∈ entries, p.reservationId < q.hold.reservationId ∧ p.Outlived q.hold.createdAtMs

/-- A reservation that still counts although its request is over: its rows are in the table and not
released. -/
structure Standing (entries : List QuotaEntry) (e : QuotaEntry) : Prop where
  ended : e.inFlight = false
  live : e.state ≠ .released
  kept : ¬ Pruned entries e.hold

/-- The invariant of the book: the journal holds exactly the rows of its entries that have not been
pruned, no digest counts twice, and every digest that has left is covered by an entry that still
counts. -/
structure Inv (b : QuotaBook) : Prop where
  drawn : ∀ e ∈ b.entries, e.hold.reservationId < b.journal.issued
  nodup : (b.entries.map fun e => e.hold.reservationId).Nodup
  owned : ∀ row ∈ b.journal.rows, ∃ e ∈ b.entries, e.hold.reservationId = row.reservationId
  demands : ∀ e ∈ b.entries, e.hold.demands ≠ []
  held : ∀ e ∈ b.entries, ¬ Pruned b.entries e.hold →
    holding b.journal.rows e.hold.reservationId = e.events
  gone : ∀ e ∈ b.entries, Pruned b.entries e.hold →
    holding b.journal.rows e.hold.reservationId = []
  reserved : ∀ e ∈ b.entries, e.inFlight = true → e.state = .reserved
  covered : ∀ e ∈ b.entries, ∀ digest, e.digest = some digest → ∃ q ∈ b.entries,
    q.Covers e.hold.agent digest ∧ (q.state ≠ .released ∨ Pruned b.entries q.hold)
  single : ∀ e ∈ b.entries, ∀ q ∈ b.entries, ∀ digest, e.digest = some digest →
    q.Covers e.hold.agent digest → Standing b.entries e → Standing b.entries q →
      e.hold.reservationId = q.hold.reservationId

/-! ## Moves -/

/-- Change the entry of one reservation. -/
def set (r : ℕ) (f : QuotaEntry → QuotaEntry) (entries : List QuotaEntry) : List QuotaEntry :=
  entries.map fun e => if e.hold.reservationId = r then f e else e

end QuotaBook

/-- A change of the book: ids are drawn in vain, quota is reserved for an agent, a reservation
is signed for, and the request of a reservation ends, with its rows released, committed for
the digest, or left as they are. -/
inductive QuotaMove where
  | idle (ids : ℕ)
  | reserve (hold : Hold)
  | sign (r : ℕ) (digest : JsString)
  | release (r : ℕ)
  | commit (r : ℕ) (agent digest : JsString)
  | leave (r : ℕ)

namespace QuotaMove

open QuotaBook

/-- The entry after its reservation was released, -/
def toReleased (e : QuotaEntry) : QuotaEntry := { e with state := .released, inFlight := false }

/-- after it was committed, -/
def toCommitted (e : QuotaEntry) : QuotaEntry := { e with state := .committed, inFlight := false }

/-- and after its request went away without either. -/
def toLeft (e : QuotaEntry) : QuotaEntry := { e with inFlight := false }

/-- The entry after its digest was handed out. -/
def toSigned (digest : JsString) (e : QuotaEntry) : QuotaEntry := { e with digest := some digest }

/-- One move: what the journal does, with the book kept up. Both are functions of the move
alone. -/
def apply (b : QuotaBook) : QuotaMove → QuotaBook
  | .idle ids => { b with journal := { b.journal with issued := b.journal.issued + ids } }
  | .reserve p => ⟨(b.journal.reserve p.agent p.demands p.createdAtMs).1,
      ⟨p, none, .reserved, true⟩ :: b.entries⟩
  | .sign r digest => { b with entries := set r (toSigned digest) b.entries }
  | .release r => ⟨b.journal.release r, set r toReleased b.entries⟩
  | .commit r agent digest => ⟨b.journal.commit r agent digest, set r
      (if QuotaJournal.hasCommitted b.journal.rows agent digest then toReleased else toCommitted)
      b.entries⟩
  | .leave r => { b with entries := set r toLeft b.entries }

/-- The other reservations over the digest of `e` whose requests are over. These are what a
settlement of `e` can disturb. -/
def Others (b : QuotaBook) (e : QuotaEntry) (P : QuotaEntry → Prop) : Prop :=
  ∀ digest, e.digest = some digest → ∀ q ∈ b.entries, q.Covers e.hold.agent digest →
    q.hold.reservationId ≠ e.hold.reservationId → Standing b.entries q → P q

/-- When a move keeps every digest covered, once. A commit, for instance, must find the other
reservations over its digest committed. -/
def Permitted (b : QuotaBook) : QuotaMove → Prop
  | .idle _ => True
  | .reserve p => p.demands ≠ [] ∧
      (b.journal.reserve p.agent p.demands p.createdAtMs).2 = .ok p.reservationId
  | .sign r _ => ∃ e ∈ b.entries, e.hold.reservationId = r ∧ e.inFlight = true ∧ e.digest = none
  | .release r => ∃ e ∈ b.entries, e.hold.reservationId = r ∧ e.inFlight = true ∧
      ∀ digest, e.digest = some digest → ∃ q ∈ b.entries, q.Covers e.hold.agent digest ∧
        (q.hold.reservationId ≠ r ∧ q.state ≠ .released ∨ Pruned b.entries q.hold)
  | .commit r agent digest => ∃ e ∈ b.entries, e.hold.reservationId = r ∧ e.inFlight = true ∧
      e.Covers agent digest ∧ Others b e fun q => q.state = .committed
  | .leave r => ∃ e ∈ b.entries, e.hold.reservationId = r ∧ e.inFlight = true ∧
      Others b e fun _ => False

end QuotaMove

namespace QuotaBook

open QuotaMove

variable {b : QuotaBook} {r : ℕ} {f : QuotaEntry → QuotaEntry}

/-- An entry of the changed book is an old one, changed if it is the one in question. -/
theorem mem_set {entries : List QuotaEntry} {e : QuotaEntry} : e ∈ set r f entries ↔
    ∃ e₀ ∈ entries, e = if e₀.hold.reservationId = r then f e₀ else e₀ := by
  simp only [set, List.mem_map, eq_comm]

/-- A change that leaves the holds alone: it touches what became of a reservation, not what it was
made for. -/
def SameHold (f : QuotaEntry → QuotaEntry) : Prop := ∀ e, (f e).hold = e.hold

/-- The change does not touch what was reserved. -/
theorem hold_set (hf : SameHold f) (e₀ : QuotaEntry) :
    (if e₀.hold.reservationId = r then f e₀ else e₀).hold = e₀.hold := by
  split
  · exact hf e₀
  · rfl

/-- So it does not touch what is pruned either. -/
theorem pruned_set {entries : List QuotaEntry} {p : Hold} (hf : SameHold f) :
    Pruned (set r f entries) p ↔ Pruned entries p := by
  constructor
  · rintro ⟨q, hq, hp⟩
    obtain ⟨q₀, hq₀, rfl⟩ := mem_set.1 hq
    rw [hold_set hf] at hp
    exact ⟨q₀, hq₀, hp⟩
  · rintro ⟨q₀, hq₀, hp⟩
    exact ⟨_, mem_set.2 ⟨q₀, hq₀, rfl⟩, by rwa [hold_set hf]⟩

/-- Two changes of one entry are one change. -/
theorem set_set {g : QuotaEntry → QuotaEntry} (hg : SameHold g) (entries : List QuotaEntry) :
    set r f (set r g entries) = set r (f ∘ g) entries := by
  unfold set
  rw [List.map_map]
  refine List.map_congr_left fun e _ => ?_
  by_cases hr : e.hold.reservationId = r
  · simp [hr, hg e]
  · simp [hr]

/-- Handing out a digest does not touch what was reserved. -/
theorem toSigned_hold (digest : JsString) : SameHold (toSigned digest) := fun _ => rfl

/-- One reservation has one entry. -/
theorem Inv.unique (h : b.Inv) {e q : QuotaEntry} (he : e ∈ b.entries) (hq : q ∈ b.entries)
    (heq : e.hold.reservationId = q.hold.reservationId) : e = q :=
  List.inj_on_of_nodup_map h.nodup he hq heq

/-- The rows of a committed reservation are found by its digest. -/
theorem Inv.hasCommitted (h : b.Inv) {e : QuotaEntry} (he : e ∈ b.entries) {agent digest : JsString}
    (hcov : e.Covers agent digest) (hstate : e.state = .committed)
    (hkept : ¬ Pruned b.entries e.hold) :
    QuotaJournal.hasCommitted b.journal.rows agent digest = true := by
  have hrows : holding b.journal.rows e.hold.reservationId = e.events := h.held e he hkept
  obtain ⟨row, hrow⟩ := List.exists_mem_of_ne_nil _ (Hold.events_ne_nil (h.demands e he) e.state
    (if e.state = .committed then e.digest else none))
  have hmem : row ∈ b.journal.rows := by
    rw [← QuotaEntry.events, ← hrows] at hrow
    exact (mem_holding.1 hrow).1
  obtain ⟨-, hagent, hst, hdig, -⟩ := Hold.mem_events hrow
  rw [if_pos hstate] at hdig
  refine List.any_eq_true.2 ⟨row, hmem, ?_⟩
  simp [hagent, hcov.agent, hdig, hcov.digest, hst, hstate]

/-- And a committed row is one of a committed reservation over its digest. -/
theorem Inv.of_hasCommitted (h : b.Inv) {agent digest : JsString}
    (hc : QuotaJournal.hasCommitted b.journal.rows agent digest = true) :
    ∃ q ∈ b.entries, q.Covers agent digest ∧ q.state = .committed := by
  obtain ⟨row, hrow, hp⟩ := List.any_eq_true.1 hc
  simp only [decide_eq_true_eq] at hp
  obtain ⟨hagent, hdig, hst⟩ := hp
  obtain ⟨q, hq, hid⟩ := h.owned row hrow
  have hmem : row ∈ holding b.journal.rows q.hold.reservationId := mem_holding.2 ⟨hrow, hid.symm⟩
  by_cases hp : Pruned b.entries q.hold
  · rw [h.gone q hq hp] at hmem
    simp at hmem
  · rw [h.held q hq hp] at hmem
    obtain ⟨-, hagent', hst', hdig', -⟩ := Hold.mem_events hmem
    have hstate : q.state = .committed := hst'.symm.trans hst
    rw [if_pos hstate] at hdig'
    exact ⟨q, hq, ⟨hagent'.symm.trans hagent, hdig'.symm.trans hdig⟩, hstate⟩

/-! ## What a move keeps -/

/-- The journal follows a change of the entry of `r`: the rows of `r` become those of the
changed entry, and no other rows change. -/
structure Follows (b : QuotaBook) (journal : QuotaJournal) (r : ℕ) (f : QuotaEntry → QuotaEntry) :
    Prop where
  issued : b.journal.issued ≤ journal.issued
  ids : ∀ row ∈ journal.rows, ∃ row₀ ∈ b.journal.rows, row₀.reservationId = row.reservationId
  rest : ∀ r', r' ≠ r → holding journal.rows r' = holding b.journal.rows r'
  self : ∀ e ∈ b.entries, e.hold.reservationId = r →
    (holding b.journal.rows r = e.events → holding journal.rows r = (f e).events) ∧
    (holding b.journal.rows r = [] → holding journal.rows r = [])

/-- The invariant after a change of one entry, up to what the change does to the covering. -/
theorem inv_set {journal : QuotaJournal} (h : b.Inv) (hf : SameHold f)
    (hrows : Follows b journal r f)
    (hreserved : ∀ e ∈ b.entries, e.hold.reservationId = r → (f e).inFlight = true →
      (f e).state = .reserved)
    (hcovered : ∀ e ∈ set r f b.entries, ∀ digest, e.digest = some digest →
      ∃ q ∈ set r f b.entries, q.Covers e.hold.agent digest ∧
        (q.state ≠ .released ∨ Pruned b.entries q.hold))
    (hsingle : ∀ e ∈ b.entries, e.hold.reservationId = r → (f e).inFlight = false →
      (f e).state ≠ .released → QuotaMove.Others b (f e) fun _ => False) :
    Inv ⟨journal, set r f b.entries⟩ := by
  have hpruned : ∀ p, Pruned (set r f b.entries) p ↔ Pruned b.entries p := fun _ => pruned_set hf
  have hstanding : ∀ e₀, Standing (set r f b.entries) e₀ → Standing b.entries e₀ := by
    rintro e₀ ⟨hover, hlive, hkept⟩
    exact ⟨hover, hlive, fun hp => hkept ((hpruned _).2 hp)⟩
  constructor
  · intro e he
    obtain ⟨e₀, he₀, rfl⟩ := mem_set.1 he
    rw [hold_set hf]
    exact lt_of_lt_of_le (h.drawn e₀ he₀) hrows.issued
  · have hids : (set r f b.entries).map (fun e => e.hold.reservationId) =
        b.entries.map fun e => e.hold.reservationId := by
      rw [set, List.map_map]
      exact List.map_congr_left fun e _ => congrArg Hold.reservationId (hold_set hf e)
    show ((set r f b.entries).map _).Nodup
    rw [hids]
    exact h.nodup
  · intro row hrow
    obtain ⟨row₀, hrow₀, hid⟩ := hrows.ids row hrow
    obtain ⟨e₀, he₀, hid₀⟩ := h.owned row₀ hrow₀
    exact ⟨_, mem_set.2 ⟨e₀, he₀, rfl⟩, by rw [hold_set hf, hid₀, hid]⟩
  · intro e he
    obtain ⟨e₀, he₀, rfl⟩ := mem_set.1 he
    rw [hold_set hf]
    exact h.demands e₀ he₀
  · intro e he
    obtain ⟨e₀, he₀, rfl⟩ := mem_set.1 he
    rw [hold_set hf, hpruned]
    intro hkept
    by_cases hr : e₀.hold.reservationId = r
    · rw [if_pos hr, hr]
      refine (hrows.self e₀ he₀ hr).1 ?_
      rw [← hr]
      exact h.held e₀ he₀ hkept
    · rw [if_neg hr, hrows.rest _ hr]
      exact h.held e₀ he₀ hkept
  · intro e he
    obtain ⟨e₀, he₀, rfl⟩ := mem_set.1 he
    rw [hold_set hf, hpruned]
    intro hgone
    by_cases hr : e₀.hold.reservationId = r
    · rw [hr]
      refine (hrows.self e₀ he₀ hr).2 ?_
      rw [← hr]
      exact h.gone e₀ he₀ hgone
    · rw [hrows.rest _ hr]
      exact h.gone e₀ he₀ hgone
  · intro e he
    obtain ⟨e₀, he₀, rfl⟩ := mem_set.1 he
    by_cases hr : e₀.hold.reservationId = r
    · rw [if_pos hr]
      exact hreserved e₀ he₀ hr
    · rw [if_neg hr]
      exact h.reserved e₀ he₀
  · intro e he digest hd
    obtain ⟨q, hq, hcov, hor⟩ := hcovered e he digest hd
    exact ⟨q, hq, hcov, hor.imp_right (hpruned _).2⟩
  · intro e he q hq digest hd hcov hse hsq
    obtain ⟨e₀, he₀, rfl⟩ := mem_set.1 he
    obtain ⟨q₀, hq₀, rfl⟩ := mem_set.1 hq
    -- the changed entry stands for its digest only when no other does
    by_cases hre : e₀.hold.reservationId = r <;> by_cases hrq : q₀.hold.reservationId = r
    · rw [hold_set hf, hold_set hf, hre, hrq]
    · rw [if_pos hre] at hd hcov hse
      rw [if_neg hrq] at hcov hsq
      refine absurd (hsingle e₀ he₀ hre hse.ended hse.live digest hd q₀ hq₀ hcov ?_
        (hstanding q₀ hsq)) id
      rw [hf, hre]
      exact hrq
    · rw [if_neg hre] at hd hcov hse
      rw [if_pos hrq] at hcov hsq
      refine absurd (hsingle q₀ hq₀ hrq hsq.ended hsq.live digest hcov.digest e₀ he₀
        ⟨hcov.agent.symm, hd⟩ ?_ (hstanding e₀ hse)) id
      rw [hf, hrq]
      exact hre
    · rw [if_neg hre] at hd hcov hse ⊢
      rw [if_neg hrq] at hcov hsq ⊢
      exact h.single e₀ he₀ q₀ hq₀ digest hd hcov (hstanding e₀ hse) (hstanding q₀ hsq)

/-- What covers the digests after a change that signs nothing: for the changed entry's digest,
something that the change leaves covering it. -/
theorem covered_set (h : b.Inv) (hf : SameHold f) (hdigest : ∀ e, (f e).digest = e.digest)
    (hkeep : ∀ e ∈ b.entries, e.hold.reservationId = r → ∀ digest, e.digest = some digest →
      ∃ q ∈ set r f b.entries, q.Covers e.hold.agent digest ∧
        (q.state ≠ .released ∨ Pruned b.entries q.hold)) :
    ∀ e ∈ set r f b.entries, ∀ digest, e.digest = some digest →
      ∃ q ∈ set r f b.entries, q.Covers e.hold.agent digest ∧
        (q.state ≠ .released ∨ Pruned b.entries q.hold) := by
  intro e he digest hd
  obtain ⟨e₀, he₀, rfl⟩ := mem_set.1 he
  have hd₀ : e₀.digest = some digest := by
    rw [← hd]
    split
    · exact (hdigest e₀).symm
    · rfl
  rw [hold_set hf]
  obtain ⟨q₀, hq₀, hcov, hor⟩ := h.covered e₀ he₀ digest hd₀
  by_cases hr : q₀.hold.reservationId = r
  · obtain ⟨q, hq, hcovq, horq⟩ := hkeep q₀ hq₀ hr digest hcov.digest
    rw [hcov.agent] at hcovq
    exact ⟨q, hq, hcovq, horq⟩
  · exact ⟨q₀, mem_set.2 ⟨q₀, hq₀, by rw [if_neg hr]⟩, hcov, hor⟩

/-! ### The journal operations -/

/-- Finalising brings no new reservation into the journal. -/
theorem update_ids {set : QuotaEvent → QuotaEvent} (hset : Finalising set) {rows : List QuotaEvent} :
    ∀ row ∈ QuotaJournal.update r set rows, ∃ row₀ ∈ rows,
      row₀.reservationId = row.reservationId := by
  intro row hrow
  obtain ⟨row₀, hrow₀, rfl⟩ := List.mem_map.1 hrow
  exact ⟨row₀, hrow₀, (update_reservationId hset row₀).symm⟩

/-- A move that finalises the rows of one reservation is followed by the book when it changes that
entry in the same way. -/
theorem follows_update {set : QuotaEvent → QuotaEvent} (hset : Finalising set)
    (hevents : ∀ e ∈ b.entries, e.hold.reservationId = r → e.events.map set = (f e).events) :
    Follows b { b.journal with rows := QuotaJournal.update r set b.journal.rows } r f where
  issued := le_rfl
  ids := update_ids hset
  rest := fun r' hr' => by rw [holding_update hset, if_neg hr']
  self := by
    intro e he hr
    rw [holding_update hset, if_pos rfl]
    exact ⟨fun heq => by rw [heq, hevents e he hr], fun heq => by rw [heq]; rfl⟩

/-- A move that leaves the journal alone is followed when the entry's rows stay what they were. -/
theorem follows_same (hevents : ∀ e ∈ b.entries, e.hold.reservationId = r → (f e).events = e.events) :
    Follows b b.journal r f where
  issued := le_rfl
  ids := fun row hrow => ⟨row, hrow, rfl⟩
  rest := fun _ _ => rfl
  self := fun e he hr => ⟨fun heq => by rw [heq, hevents e he hr], id⟩

/-- Released rows are the rows of the released entry. -/
theorem release_events {e : QuotaEntry} (h : e.state = .reserved) :
    e.events.map QuotaJournal.toReleased = (toReleased e).events := by
  simp [QuotaEntry.events, Hold.events, QuotaJournal.toReleased, toReleased, h]

/-- Committed rows are the rows of the committed entry, where its digest is the one committed. -/
theorem commit_events {e : QuotaEntry} {digest : JsString} (h : e.digest = some digest) :
    e.events.map (QuotaJournal.toCommitted digest) = (toCommitted e).events := by
  simp [QuotaEntry.events, Hold.events, QuotaJournal.toCommitted, toCommitted, h]

/-! ### The moves -/

/-- Drawing ids keeps the invariant. -/
theorem inv_idle (h : b.Inv) (ids : ℕ) : (apply b (.idle ids)).Inv where
  drawn := fun e he => lt_of_lt_of_le (h.drawn e he) (Nat.le_add_right _ _)
  nodup := h.nodup
  owned := h.owned
  demands := h.demands
  held := h.held
  gone := h.gone
  reserved := h.reserved
  covered := h.covered
  single := h.single

/-- A release keeps the invariant when something else covers the digest. -/
theorem inv_release (h : b.Inv) (hallowed : Permitted b (.release r)) :
    (apply b (.release r)).Inv := by
  obtain ⟨e, he, hr, hfly, hcov⟩ := hallowed
  have hevents : ∀ e' ∈ b.entries, e'.hold.reservationId = r →
      e'.events.map QuotaJournal.toReleased = (toReleased e').events := by
    intro e' he' hr'
    obtain rfl := h.unique he he' (hr.trans hr'.symm)
    exact release_events (h.reserved e he hfly)
  refine inv_set h (fun _ => rfl) (follows_update toReleased_finalising hevents)
    (fun _ _ _ hopen => by simp [toReleased] at hopen)
    (covered_set h (fun _ => rfl) (fun _ => rfl) fun e' he' hr' digest hd => ?_)
    fun _ _ _ _ hlive => absurd rfl hlive
  obtain rfl := h.unique he he' (hr.trans hr'.symm)
  obtain ⟨q, hq, hcovq, hor⟩ := hcov digest hd
  by_cases hrq : q.hold.reservationId = r
  · refine ⟨toReleased q, mem_set.2 ⟨q, hq, by rw [if_pos hrq]⟩, ⟨hcovq.agent, hcovq.digest⟩, ?_⟩
    exact Or.inr (hor.resolve_left fun hne => hne.1 hrq)
  · exact ⟨q, mem_set.2 ⟨q, hq, by rw [if_neg hrq]⟩, hcovq, hor.imp_left And.right⟩

/-- A reservation left behind keeps the invariant when no other stands for the digest. -/
theorem inv_leave (h : b.Inv) (hallowed : Permitted b (.leave r)) : (apply b (.leave r)).Inv := by
  obtain ⟨e, he, hr, hfly, hothers⟩ := hallowed
  refine inv_set h (fun _ => rfl) (follows_same fun _ _ _ => rfl)
    (fun _ _ _ hopen => by simp [toLeft] at hopen)
    (covered_set h (fun _ => rfl) (fun _ => rfl) fun e' he' hr' digest hd => ?_) ?_
  · obtain rfl := h.unique he he' (hr.trans hr'.symm)
    refine ⟨toLeft e, mem_set.2 ⟨e, he, by rw [if_pos hr]⟩, ⟨rfl, hd⟩, Or.inl ?_⟩
    simp [toLeft, h.reserved e he hfly]
  · intro e' he' hr' _ _
    obtain rfl := h.unique he he' (hr.trans hr'.symm)
    exact hothers

/-- A commit keeps the invariant: when the digest is committed already the reservation is
released for the other, and when it is not, every other that stood for it was committed. -/
theorem inv_commit {agent digest : JsString} (h : b.Inv)
    (hallowed : Permitted b (.commit r agent digest)) : (apply b (.commit r agent digest)).Inv := by
  obtain ⟨e, he, hr, hfly, hcov, hothers⟩ := hallowed
  have hreserved := h.reserved e he hfly
  by_cases hc : QuotaJournal.hasCommitted b.journal.rows agent digest = true
  -- the digest counts already, so the commit only releases the rows
  · obtain ⟨q, hq, hcovq, hstate⟩ := h.of_hasCommitted hc
    have hrel : apply b (.commit r agent digest) = apply b (.release r) := by
      simp [apply, QuotaJournal.commit, QuotaJournal.release, hc]
    rw [hrel]
    refine inv_release h ⟨e, he, hr, hfly, fun digest' hd => ⟨q, hq, ?_, Or.inl ⟨?_, ?_⟩⟩⟩
    · rw [hcov.digest] at hd
      obtain rfl := Option.some.inj hd
      exact ⟨hcovq.agent.trans hcov.agent.symm, hcovq.digest⟩
    · intro hrq
      obtain rfl := h.unique he hq (hr.trans hrq.symm)
      rw [hreserved] at hstate
      cases hstate
    · rw [hstate]
      simp
  -- otherwise the rows are committed, and the entry covers the digest from now on
  · have happly : apply b (.commit r agent digest) = ⟨{ b.journal with
        rows := QuotaJournal.update r (QuotaJournal.toCommitted digest) b.journal.rows },
        set r toCommitted b.entries⟩ := by
      simp [apply, QuotaJournal.commit, hc]
    rw [happly]
    have hevents : ∀ e' ∈ b.entries, e'.hold.reservationId = r →
        e'.events.map (QuotaJournal.toCommitted digest) = (toCommitted e').events := by
      intro e' he' hr'
      obtain rfl := h.unique he he' (hr.trans hr'.symm)
      exact commit_events hcov.digest
    refine inv_set h (fun _ => rfl) (follows_update (toCommitted_finalising digest) hevents)
      (fun _ _ _ hopen => by simp [toCommitted] at hopen)
      (covered_set h (fun _ => rfl) (fun _ => rfl) fun e' he' hr' digest' hd => ?_) ?_
    · obtain rfl := h.unique he he' (hr.trans hr'.symm)
      refine ⟨toCommitted e, mem_set.2 ⟨e, he, by rw [if_pos hr]⟩, ⟨rfl, hd⟩, Or.inl ?_⟩
      simp [toCommitted]
    -- another entry that covered it would have been committed, and then it would count
    · intro e' he' hr' _ _ digest' hd q hq hcovq hne hstanding
      obtain rfl := h.unique he he' (hr.trans hr'.symm)
      have hcommitted : q.state = .committed := hothers digest' hd q hq hcovq hne hstanding
      have hkey : q.Covers agent digest := by
        have hd' : e.digest = some digest' := hd
        rw [hcov.digest] at hd'
        obtain rfl := Option.some.inj hd'
        exact ⟨hcovq.agent.trans hcov.agent, hcovq.digest⟩
      exact hc (h.hasCommitted hq hkey hcommitted hstanding.kept)

/-- So does handing out a digest, if it was permitted: no other entry of the agent covers that
digest then. -/
theorem inv_sign {digest : JsString} (h : b.Inv) (hallowed : Permitted b (.sign r digest)) :
    (apply b (.sign r digest)).Inv := by
  obtain ⟨e, he, hr, hfly, hnone⟩ := hallowed
  have hreserved := h.reserved e he hfly
  have hself : ∀ e' ∈ b.entries, e'.hold.reservationId = r → e' = e := fun e' he' hr' =>
    h.unique he' he (hr'.trans hr.symm)
  refine inv_set h (fun _ => rfl) (follows_same fun e' he' hr' => ?_) (fun e' he' hr' _ => ?_) ?_
    fun e' he' hr' hover => ?_
  · rw [hself e' he' hr']
    simp [QuotaEntry.events, toSigned, hreserved]
  · rw [hself e' he' hr']
    exact hreserved
  · intro e' he' digest' hd
    obtain ⟨e₀, he₀, rfl⟩ := mem_set.1 he'
    by_cases hr₀ : e₀.hold.reservationId = r
    · rw [if_pos hr₀] at hd ⊢
      refine ⟨toSigned digest e₀, mem_set.2 ⟨e₀, he₀, by rw [if_pos hr₀]⟩, ⟨rfl, hd⟩, Or.inl ?_⟩
      rw [hself e₀ he₀ hr₀]
      simp [toSigned, hreserved]
    · rw [if_neg hr₀] at hd ⊢
      obtain ⟨q, hq, hcovq, hor⟩ := h.covered e₀ he₀ digest' hd
      have hrq : q.hold.reservationId ≠ r := by
        intro hrq
        have hq' := hcovq.digest
        rw [hself q hq hrq, hnone] at hq'
        cases hq'
      exact ⟨q, mem_set.2 ⟨q, hq, by rw [if_neg hrq]⟩, hcovq, hor⟩
  · rw [hself e' he' hr'] at hover
    rw [show (toSigned digest e).inFlight = e.inFlight from rfl, hfly] at hover
    cases hover

/-- The rows after a reservation: it prunes whole reservations, and those it finds outlived. -/
theorem holding_reserve {p : Hold} (hgranted :
      (b.journal.reserve p.agent p.demands p.createdAtMs).2 = .ok p.reservationId) (r : ℕ) :
    holding (apply b (.reserve p)).journal.rows r =
      QuotaJournal.prune (holding b.journal.rows r) p.createdAtMs ++
        holding (p.events .reserved none) r := by
  obtain ⟨-, -, hrows⟩ := reserve_ok (Prod.ext rfl hgranted)
  show holding (b.journal.reserve p.agent p.demands p.createdAtMs).1.rows r = _
  rw [hrows, holding_append, holding_prune]
  rfl

/-- A new entry prunes what it has outlived. -/
theorem pruned_cons {entry : QuotaEntry} {entries : List QuotaEntry} {p : Hold} :
    Pruned (entry :: entries) p ↔ p.reservationId < entry.hold.reservationId ∧
      p.Outlived entry.hold.createdAtMs ∨ Pruned entries p := by
  simp [Pruned]

/-- A new reservation keeps the invariant. -/
theorem inv_reserve {p : Hold} (h : b.Inv) (hallowed : Permitted b (.reserve p)) :
    (apply b (.reserve p)).Inv := by
  obtain ⟨hdemands, hgranted⟩ := hallowed
  obtain ⟨hid, hissued, hrows⟩ := reserve_ok (Prod.ext rfl hgranted)
  have hlast : ∀ e ∈ b.entries, e.hold.reservationId < p.reservationId := by
    intro e he
    rw [hid]
    exact h.drawn e he
  have hpruned : ∀ e ∈ b.entries, Pruned (apply b (.reserve p)).entries e.hold ↔
      e.hold.Outlived p.createdAtMs ∨ Pruned b.entries e.hold := fun e he =>
    pruned_cons.trans (or_congr_left (and_iff_right (hlast e he)))
  have hstanding : ∀ {e}, Standing (apply b (.reserve p)).entries e → Standing b.entries e :=
    fun hs => ⟨hs.ended, hs.live, fun hp => hs.kept (pruned_cons.2 (Or.inr hp))⟩
  have hmem : ∀ {e}, e ∈ (apply b (.reserve p)).entries ↔
      e = ⟨p, none, .reserved, true⟩ ∨ e ∈ b.entries := List.mem_cons
  have hself : holding (p.events .reserved none) p.reservationId = p.events .reserved none :=
    List.filter_eq_self.2 fun row hrow => by simp [(Hold.mem_events hrow).1]
  have hrest : ∀ e ∈ b.entries, holding (p.events .reserved none) e.hold.reservationId = [] := by
    intro e he
    refine List.filter_eq_nil_iff.2 fun row hrow => ?_
    have hne := (hlast e he).ne'
    rw [(Hold.mem_events hrow).1]
    simpa using hne
  have hfresh : holding b.journal.rows p.reservationId = [] := by
    -- the id is new, so no row carries it yet
    refine List.filter_eq_nil_iff.2 fun row hrow hcontra => ?_
    obtain ⟨e, he, heq⟩ := h.owned row hrow
    exact (hlast e he).ne (heq.trans (by simpa using hcontra))
  constructor
  · intro e he
    show e.hold.reservationId < (b.journal.reserve p.agent p.demands p.createdAtMs).1.issued
    rw [hissued]
    rcases hmem.1 he with rfl | he
    · rw [← hid]
      exact Nat.lt_succ_self _
    · exact Nat.lt_succ_of_lt (h.drawn e he)
  · refine List.nodup_cons.2 ⟨fun hin => ?_, h.nodup⟩
    obtain ⟨e, he, heq⟩ := List.mem_map.1 hin
    exact (hlast e he).ne heq
  · intro row hrow
    have hrow' : row ∈ (b.journal.reserve p.agent p.demands p.createdAtMs).1.rows := hrow
    rw [hrows, List.mem_append] at hrow'
    rcases hrow' with hrow' | hrow'
    · obtain ⟨e, he, heq⟩ := h.owned row (List.mem_filter.1 hrow').1
      exact ⟨e, List.mem_cons_of_mem _ he, heq⟩
    · obtain ⟨d, -, rfl⟩ := List.mem_map.1 hrow'
      exact ⟨_, List.mem_cons_self, rfl⟩
  · intro e he
    rcases hmem.1 he with rfl | he
    · exact hdemands
    · exact h.demands e he
  · intro e he hkept
    -- a new entry holds what was just inserted; an old one holds what the pruning has left it
    rw [holding_reserve hgranted]
    rcases hmem.1 he with rfl | he
    · rw [hfresh, hself]
      rfl
    · rw [hpruned e he, not_or] at hkept
      rw [hrest e he, List.append_nil, h.held e he hkept.2]
      exact prune_kept hkept.1 ..
  · intro e he hgone
    -- an old entry is gone because it was gone before, or because this reservation outlived it
    rw [holding_reserve hgranted]
    rcases hmem.1 he with rfl | he
    · obtain ⟨q, hq, hlt, -⟩ := hgone
      rcases hmem.1 hq with rfl | hq
      · exact absurd hlt (lt_irrefl _)
      · exact absurd hlt (hlast q hq).asymm
    · rw [hrest e he, List.append_nil]
      by_cases hp : Pruned b.entries e.hold
      · rw [h.gone e he hp]
        rfl
      · rw [h.held e he hp]
        exact prune_outlived (((hpruned e he).1 hgone).resolve_right hp) ..
  · intro e he
    rcases hmem.1 he with rfl | he
    · exact fun _ => rfl
    · exact h.reserved e he
  · intro e he digest hd
    rcases hmem.1 he with rfl | he
    · cases hd
    · obtain ⟨q, hq, hcov, hor⟩ := h.covered e he digest hd
      exact ⟨q, List.mem_cons_of_mem _ hq, hcov,
        hor.imp_right fun hp => pruned_cons.2 (Or.inr hp)⟩
  -- a fresh entry has no digest, so two entries over one digest are both old
  · intro e he q hq digest hd hcov hse hsq
    rcases hmem.1 he with rfl | he
    · cases hd
    · rcases hmem.1 hq with rfl | hq
      · cases hcov.digest
      · exact h.single e he q hq digest hd hcov (hstanding hse) (hstanding hsq)

/-- **Every allowed move keeps the book in order**, one lemma for each kind of move. -/
theorem inv_apply {move : QuotaMove} (h : b.Inv) (hallowed : move.Permitted b) :
    (move.apply b).Inv := by
  cases move with
  | idle ids => exact inv_idle h ids
  | reserve p => exact inv_reserve h hallowed
  | sign r digest => exact inv_sign h hallowed
  | release r => exact inv_release h hallowed
  | commit r agent digest => exact inv_commit h hallowed
  | leave r => exact inv_leave h hallowed

end QuotaBook

end Signbox
