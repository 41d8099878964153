import Signbox.Proof.Pipeline
import Signbox.Proof.QuotaBook

/-!
# What the journal owes a signature

A digest that was signed for a request under stateful limits must be held by a reservation
that is not released, for as long as the journal keeps rows, and by one only once its
requests are over. The daemon settles the quota of a signed request in one of three ways;
each keeps this under a condition on the state before, and `Accounted` puts them together.

* `Produced`, `ReservedIn`, `PrunedIn`: what the steps of a run have signed and reserved.
* `settlement?`: how a step settles the quota of a signed request.
* `Booked`: the book of reservations follows the daemon, step by step.
* `quota_kept`: in every run whose settlements are accounted for, every digest that left the
  daemon is held. `Rejected.signature_unheld` is a run in which one is not: the chain
  rejects the transaction, and the answer carries its signature all the same.
-/

namespace Signbox

open Guard Async

/-! ## Steps of a run -/

/-- What an approved request holds when its reservation has the id `r`. -/
def Approved.hold (a : Approved) (r : ℕ) : Hold :=
  ⟨r, a.agent, a.quotaDemands, a.bound.admitted.nowMs⟩

/-- The step hands a signature over the digest to the request that holds `p`. The daemon has the
signature from here on. -/
def SignedFor (w : DaemonWorld) (e : DaemonEvent) (p : Hold) (digest : JsString) : Prop :=
  ∃ t a result m r, e = .resume t (.signed result, m) ∧ w.tasks.lookup t = some (.sign a) ∧
    a.reservationId = some r ∧ p = a.hold r ∧ result.transactionDigest = digest

/-- The step makes the reservation `p`: its segment ends with the call of the signer, and with the
id in the frame. -/
def Reserves (d : SignBoxDaemon) (w : DaemonWorld) (e : DaemonEvent) (p : Hold) : Prop :=
  ∃ t seg a r, d.machine.segment? w e = some (t, seg) ∧ seg.next = .inl (.sign a) ∧
    a.reservationId = some r ∧ p = a.hold r

/-- The run has signed `digest` for a request that held `p`. Whether the signature has left is
another matter. -/
def Produced (h : DaemonHistory) (p : Hold) (digest : JsString) : Prop :=
  ∃ x ∈ h, SignedFor x.1 x.2 p digest

/-- The run has made the reservation `p`. -/
def ReservedIn (d : SignBoxDaemon) (h : DaemonHistory) (p : Hold) : Prop :=
  ∃ x ∈ h, Reserves d x.1 x.2 p

/-- A later reservation of the run came after the retention of `p`, and pruned its rows. No window
reaches back that far. -/
def PrunedIn (d : SignBoxDaemon) (h : DaemonHistory) (p : Hold) : Prop :=
  ∃ q, ReservedIn d h q ∧ p.reservationId < q.reservationId ∧ p.Outlived q.createdAtMs

/-- The journal's rows of `p` are its demands, in this state. There are some, since nothing is
reserved for no demand. -/
def RowsOf (w : DaemonWorld) (p : Hold) (state : EventState) : Prop :=
  p.demands ≠ [] ∧ ∃ digest, holding w.shared.journal.rows p.reservationId = p.events state digest

/-- The journal holds the demands of `p`: they are reserved or committed, so every window of the
agent counts them. -/
def HeldBy (w : DaemonWorld) (p : Hold) : Prop := ∃ state, state ≠ .released ∧ RowsOf w p state

/-- The entry that a suspended request has in the book. Only a request at the signer or at the
broadcaster has one. -/
def DaemonFrame.openEntry : DaemonFrame → Option QuotaEntry
  | .sign a => a.reservationId.map fun r => ⟨a.hold r, none, .reserved, true⟩
  | .broadcast a signed =>
    a.reservationId.map fun r => ⟨a.hold r, some signed.transactionDigest, .reserved, true⟩
  | _ => none

/-- The request that made the reservation is under way, so its rows are still to be settled. -/
def UnderWay (w : DaemonWorld) (r : ℕ) : Prop :=
  ∃ tf ∈ w.tasks, ∃ x, tf.2.openEntry = some x ∧ x.hold.reservationId = r

/-- A reservation over the digest that still counts although its request is over. There must never
be two of them. -/
structure Settled (h : DaemonHistory) (w : DaemonWorld) (agent digest : JsString) (p : Hold) :
    Prop where
  agent : p.agent = agent
  produced : Produced h p digest
  held : HeldBy w p
  ended : ¬ UnderWay w p.reservationId

/-! ## Settlements -/

/-- How the quota of a signed request ends: its rows are committed, released, or left. They are
left when the journal fails. -/
inductive QuotaEnd where
  | commit
  | release
  | leave
  deriving DecidableEq

/-- A journal that fails leaves the rows as they are. -/
def Moment.quotaEnd (m : Moment) (how : QuotaEnd) : QuotaEnd :=
  if m.journalFails then .leave else how

/-- What the journal does with the reservation `r`. -/
def QuotaEnd.op (agent digest : JsString) : QuotaEnd → QuotaJournal → ℕ → QuotaJournal
  | .commit => fun journal r => journal.commit r agent digest
  | .release => QuotaJournal.release
  | .leave => fun journal _ => journal

/-- The same in the book. -/
def QuotaEnd.move (r : ℕ) (agent digest : JsString) : QuotaEnd → QuotaMove
  | .commit => .commit r agent digest
  | .release => .release r
  | .leave => .leave r

def BroadcastOutcome.quotaEnd : BroadcastOutcome → QuotaEnd
  | .accepted _ => .commit
  | .rejected _ => .release
  | .ambiguous _ => .commit

namespace SignBoxDaemon

/-- The request submits what it signs. Its signature goes to the broadcaster first, and then into
the response. -/
def Fused (d : SignBoxDaemon) (a : Approved) : Prop :=
  a.bound.admitted.request.broadcast = some true ∧ d.deps.broadcaster = true

instance (d : SignBoxDaemon) (a : Approved) : Decidable (d.Fused a) := by
  unfold Fused
  infer_instance

/-- The signed request that a step ends, its digest, and what becomes of its quota. Other steps
settle nothing. -/
def settlement? (d : SignBoxDaemon) (w : DaemonWorld) :
    DaemonEvent → Option (Approved × JsString × QuotaEnd)
  | .resume t (answer, m) =>
    match w.tasks.lookup t, answer with
    | some (.sign a), .signed result =>
      if d.Fused a then none else some (a, result.transactionDigest, m.quotaEnd .commit)
    | some (.broadcast a signed), .broadcast outcome =>
      some (a, signed.transactionDigest, m.quotaEnd outcome.quotaEnd)
    | some (.broadcast a signed), .threw _ => some (a, signed.transactionDigest, .leave)
    | _, _ => none
  | _ => none

/-- **What a settlement needs.** Rows are released only when another reservation holds the
digest; and rows that go on counting find no settled reservation over the digest beside
them, unless it is committed and they are too. -/
structure Accounted (d : SignBoxDaemon) (h : DaemonHistory) (w : DaemonWorld) (e : DaemonEvent) :
    Prop where
  release : ∀ a digest r, d.settlement? w e = some (a, digest, .release) →
    a.reservationId = some r → ∃ p, p.agent = a.agent ∧ Produced h p digest ∧
      (p.reservationId ≠ r ∧ HeldBy w p ∨ PrunedIn d h p)
  commit : ∀ a digest r, d.settlement? w e = some (a, digest, .commit) →
    a.reservationId = some r → ∀ p, Settled h w a.agent digest p → RowsOf w p .committed
  leave : ∀ a digest r, d.settlement? w e = some (a, digest, .leave) →
    a.reservationId = some r → ∀ p, ¬ Settled h w a.agent digest p

variable {d : SignBoxDaemon} {h : DaemonHistory} {w : DaemonWorld} {e : DaemonEvent}
variable {b : QuotaBook}

/-! ## The book of a run -/

/-- A request under stateful limits holds a reservation. -/
def Limited : DaemonFrame → Prop
  | .sign a => a.quotaDemands ≠ [] → a.reservationId ≠ none
  | .broadcast a _ => a.quotaDemands ≠ [] → a.reservationId ≠ none
  | _ => True

/-- The book says what the journal holds, and what the run has signed, reserved and under way. It
is the invariant that every run keeps. -/
structure Booked (d : SignBoxDaemon) (h : DaemonHistory) (w : DaemonWorld) (b : QuotaBook) :
    Prop where
  inv : b.Inv
  journal : w.shared.journal = b.journal
  opened : ∀ tf ∈ w.tasks, ∀ x, tf.2.openEntry = some x → x ∈ b.entries ∧ d.deps.quotas = true
  distinct : ∀ tf ∈ w.tasks, ∀ tf' ∈ w.tasks, ∀ x x', tf.2.openEntry = some x →
    tf'.2.openEntry = some x' → x.hold.reservationId = x'.hold.reservationId → tf.1 = tf'.1
  flying : ∀ x ∈ b.entries, x.inFlight = true → x.digest ≠ none →
    ∃ tf ∈ w.tasks, tf.2.openEntry = some x
  signed : ∀ p digest, Produced h p digest ↔ ∃ x ∈ b.entries, x.hold = p ∧ x.digest = some digest
  reserved : ∀ p, ReservedIn d h p ↔ ∃ x ∈ b.entries, x.hold = p
  limited : ∀ tf ∈ w.tasks, Limited tf.2

theorem produced_snoc {p : Hold} {digest : JsString} :
    Produced (h ++ [(w, e)]) p digest ↔ Produced h p digest ∨ SignedFor w e p digest := by
  simp only [Produced, List.mem_append, List.mem_singleton, or_and_right, exists_or,
    exists_eq_left]

theorem reservedIn_snoc {p : Hold} :
    ReservedIn d (h ++ [(w, e)]) p ↔ ReservedIn d h p ∨ Reserves d w e p := by
  simp only [ReservedIn, List.mem_append, List.mem_singleton, or_and_right, exists_or,
    exists_eq_left]

theorem openEntry_sign {a : Approved} {x : QuotaEntry} : (DaemonFrame.sign a).openEntry = some x ↔
    ∃ r, a.reservationId = some r ∧ ⟨a.hold r, none, .reserved, true⟩ = x := Option.map_eq_some_iff

theorem openEntry_broadcast {a : Approved} {signed : SignedTransactionResult} {x : QuotaEntry} :
    (DaemonFrame.broadcast a signed).openEntry = some x ↔ ∃ r, a.reservationId = some r ∧
      ⟨a.hold r, some signed.transactionDigest, .reserved, true⟩ = x := Option.map_eq_some_iff

/-- An entry of a suspended request is open. -/
theorem openEntry_inFlight {f : DaemonFrame} {x : QuotaEntry} (hx : f.openEntry = some x) :
    x.inFlight = true := by
  cases f with
  | sign a =>
    obtain ⟨r, -, rfl⟩ := openEntry_sign.1 hx
    rfl
  | broadcast a signed =>
    obtain ⟨r, -, rfl⟩ := openEntry_broadcast.1 hx
    rfl
  | _ => cases hx

/-- A step that ends a signature's wait was resumed from the frame of the signer. -/
theorem signedFor_frame {p : Hold} {digest : JsString} {t : ℕ} {seg : Step}
    (hs : SignedFor w e p digest) (hseg : d.machine.segment? w e = some (t, seg)) :
    ∃ a r, w.tasks.lookup t = some (.sign a) ∧ a.reservationId = some r ∧ p = a.hold r := by
  obtain ⟨t', a, result, m, r, rfl, hf, hr, rfl, -⟩ := hs
  obtain ⟨rfl, -⟩ := segment?_resume.1 hseg
  exact ⟨a, r, hf, hr, rfl⟩

/-! ### What the book says of the journal -/

theorem Booked.prunedIn (hb : Booked d h w b) {p : Hold} :
    PrunedIn d h p ↔ QuotaBook.Pruned b.entries p := by
  constructor
  · rintro ⟨q, hq, hlt, hout⟩
    obtain ⟨x, hx, rfl⟩ := (hb.reserved q).1 hq
    exact ⟨x, hx, hlt, hout⟩
  · rintro ⟨x, hx, hlt, hout⟩
    exact ⟨x.hold, (hb.reserved x.hold).2 ⟨x, hx, rfl⟩, hlt, hout⟩

/-- The rows of an entry, until they are pruned. -/
theorem Booked.rowsOf (hb : Booked d h w b) {x : QuotaEntry} (hx : x ∈ b.entries)
    {state : EventState} :
    RowsOf w x.hold state ↔ ¬ QuotaBook.Pruned b.entries x.hold ∧ x.state = state := by
  unfold RowsOf
  rw [hb.journal]
  constructor
  · rintro ⟨hdemands, digest, hrows⟩
    have hkept : ¬ QuotaBook.Pruned b.entries x.hold := by
      intro hp
      rw [hb.inv.gone x hx hp] at hrows
      exact Hold.events_ne_nil hdemands _ _ hrows.symm
    refine ⟨hkept, ?_⟩
    rw [hb.inv.held x hx hkept] at hrows
    obtain ⟨row, hrow⟩ := List.exists_mem_of_ne_nil _ (Hold.events_ne_nil hdemands x.state
      (if x.state = .committed then x.digest else none))
    have hrow' : row ∈ x.hold.events state digest := by
      rw [← hrows]
      exact hrow
    exact (Hold.mem_events hrow).2.2.1.symm.trans (Hold.mem_events hrow').2.2.1
  · rintro ⟨hkept, rfl⟩
    exact ⟨hb.inv.demands x hx, _, hb.inv.held x hx hkept⟩

theorem Booked.heldBy (hb : Booked d h w b) {x : QuotaEntry} (hx : x ∈ b.entries) :
    HeldBy w x.hold ↔ ¬ QuotaBook.Pruned b.entries x.hold ∧ x.state ≠ .released := by
  unfold HeldBy
  simp only [hb.rowsOf hx]
  constructor
  · rintro ⟨state, hlive, hkept, rfl⟩
    exact ⟨hkept, hlive⟩
  · rintro ⟨hkept, hlive⟩
    exact ⟨x.state, hlive, hkept, rfl⟩

theorem Booked.underWay (hb : Booked d h w b) {x : QuotaEntry} (hx : x ∈ b.entries)
    (hway : UnderWay w x.hold.reservationId) : x.inFlight = true := by
  obtain ⟨tf, htf, x', hx', hid⟩ := hway
  obtain rfl := hb.inv.unique (hb.opened tf htf x' hx').1 hx hid
  exact openEntry_inFlight hx'

/-- What stands in the book for a digest is settled in the run. -/
theorem Booked.settled (hb : Booked d h w b) {x : QuotaEntry} (hx : x ∈ b.entries)
    {agent digest : JsString} (hcov : x.Covers agent digest)
    (hstanding : QuotaBook.Standing b.entries x) : Settled h w agent digest x.hold where
  agent := hcov.agent
  produced := (hb.signed x.hold digest).2 ⟨x, hx, rfl, hcov.digest⟩
  held := (hb.heldBy hx).2 ⟨hstanding.kept, hstanding.live⟩
  ended := by
    intro hway
    have hopen := hb.underWay hx hway
    rw [hstanding.ended] at hopen
    cases hopen

/-! ### Steps that settle nothing -/

/-- The segment leaves the rows alone, and its request holds no reservation afterwards. An id may
have been drawn all the same. -/
structure Idle (s : DaemonState) (seg : Step) : Prop where
  rows : seg.state.journal.rows = s.journal.rows
  issued : s.journal.issued ≤ seg.state.journal.issued
  frame : ∀ f, seg.next = .inl f → f.openEntry = none ∧ Limited f

theorem signedFor_of_free {t : ℕ} {seg : Step} (hseg : d.machine.segment? w e = some (t, seg))
    (hfree : ∀ f, (t, f) ∈ w.tasks → f.openEntry = none) (p : Hold) (digest : JsString) :
    ¬ SignedFor w e p digest := by
  intro hs
  obtain ⟨a, r, hf, hr, -⟩ := signedFor_frame hs hseg
  have hnone := hfree _ (mem_of_lookup hf)
  rw [openEntry_sign.2 ⟨r, hr, rfl⟩] at hnone
  cases hnone

theorem not_reserves_of_idle {t : ℕ} {seg : Step} (hseg : d.machine.segment? w e = some (t, seg))
    (hidle : Idle w.shared seg) (p : Hold) : ¬ Reserves d w e p := by
  rintro ⟨t', seg', a, r, hseg', hnext, hr, -⟩
  rw [hseg] at hseg'
  cases hseg'
  have hnone := (hidle.frame _ hnext).1
  rw [openEntry_sign.2 ⟨r, hr, rfl⟩] at hnone
  cases hnone

/-- An open entry of another request is there after a step of a request without one. -/
theorem Booked.still_flying {t : ℕ} {seg : Step} (hb : Booked d h w b)
    (hseg : d.machine.segment? w e = some (t, seg))
    (hfree : ∀ f, (t, f) ∈ w.tasks → f.openEntry = none) {x : QuotaEntry} (hx : x ∈ b.entries)
    (hopen : x.inFlight = true) (hdigest : x.digest ≠ none) :
    ∃ tf ∈ (d.machine.next w e).tasks, tf.2.openEntry = some x := by
  obtain ⟨tf, htf, hentry⟩ := hb.flying x hx hopen hdigest
  refine ⟨tf, (mem_next_tasks hseg).2 (Or.inr ⟨htf, ?_⟩), hentry⟩
  rintro rfl
  rw [hfree _ htf] at hentry
  cases hentry

theorem Booked.keep {t : ℕ} {seg : Step} (hb : Booked d h w b)
    (hseg : d.machine.segment? w e = some (t, seg))
    (hfree : ∀ f, (t, f) ∈ w.tasks → f.openEntry = none) (hidle : Idle w.shared seg) :
    ∃ b', Booked d (h ++ [(w, e)]) (d.machine.next w e) b' := by
  have htasks : ∀ {tf x}, tf ∈ (d.machine.next w e).tasks → tf.2.openEntry = some x →
      tf ∈ w.tasks := by
    intro tf x htf hx
    rcases (mem_next_tasks hseg).1 htf with ⟨-, hnext⟩ | ⟨htf, -⟩
    · rw [(hidle.frame _ hnext).1] at hx
      cases hx
    · exact htf
  -- ids that were drawn in vain are all that changes
  refine ⟨(QuotaMove.idle (seg.state.journal.issued - b.journal.issued)).apply b, {
    inv := QuotaBook.inv_idle hb.inv _
    journal := ?_
    opened := fun tf htf x hx => hb.opened tf (htasks htf hx) x hx
    distinct := fun tf htf tf' htf' x x' hx hx' =>
      hb.distinct tf (htasks htf hx) tf' (htasks htf' hx') x x' hx hx'
    flying := fun x hx hopen hdigest => hb.still_flying hseg hfree hx hopen hdigest
    signed := fun p digest => by
      rw [produced_snoc, or_iff_left (signedFor_of_free hseg hfree p digest)]
      exact hb.signed p digest
    reserved := fun p => by
      rw [reservedIn_snoc, or_iff_left (not_reserves_of_idle hseg hidle p)]
      exact hb.reserved p
    limited := ?_ }⟩
  · obtain ⟨hrows, hissued, -⟩ := hidle
    rw [hb.journal] at hrows hissued
    rw [next_shared hseg]
    show seg.state.journal = ⟨b.journal.rows, _⟩
    rw [← hrows, Nat.add_sub_of_le hissued]
  · intro tf htf
    rcases (mem_next_tasks hseg).1 htf with ⟨-, hnext⟩ | ⟨htf, -⟩
    · exact (hidle.frame _ hnext).2
    · exact hb.limited tf htf

/-! ### The step that reserves -/

theorem openEntry_of_reserved {a : Approved} {r : ℕ} (hr : a.reservationId = some r)
    {x : QuotaEntry} :
    (DaemonFrame.sign a).openEntry = some x ↔ x = ⟨a.hold r, none, .reserved, true⟩ := by
  rw [openEntry_sign]
  constructor
  · rintro ⟨r', hr', rfl⟩
    rw [hr] at hr'
    cases hr'
    rfl
  · rintro rfl
    exact ⟨r, hr, rfl⟩

/-- A step that calls the signer makes the reservation of the request it calls it for. -/
theorem reserves_iff {t r : ℕ} {a : Approved} {s : DaemonState}
    (hseg : d.machine.segment? w e = some (t, callSigner a s)) (hr : a.reservationId = some r)
    {p : Hold} : Reserves d w e p ↔ p = a.hold r := by
  constructor
  · rintro ⟨t', seg', a', r', hseg', hnext, hr', rfl⟩
    rw [hseg] at hseg'
    cases hseg'
    cases hnext
    rw [hr] at hr'
    cases hr'
    rfl
  · rintro rfl
    exact ⟨t, _, a, r, hseg, rfl, hr, rfl⟩

theorem Booked.reserve {t r : ℕ} {a : Approved} {s : DaemonState} (hb : Booked d h w b)
    (hseg : d.machine.segment? w e = some (t, callSigner a s))
    (hfree : ∀ f, (t, f) ∈ w.tasks → f.openEntry = none) (hdemands : a.quotaDemands ≠ [])
    (hr : a.reservationId = some r) (hquotas : d.deps.quotas = true)
    (hreserve : w.shared.journal.reserve a.agent a.quotaDemands a.bound.admitted.nowMs =
      (s.journal, .ok r)) :
    ∃ b', Booked d (h ++ [(w, e)]) (d.machine.next w e) b' := by
  rw [hb.journal] at hreserve
  have hgranted : (b.journal.reserve a.agent a.quotaDemands a.bound.admitted.nowMs).2 = .ok r := by
    rw [hreserve]
  have hid : r = b.journal.issued := (reserve_ok (Prod.ext rfl hgranted)).1
  have htask : ∀ {tf}, tf ∈ (d.machine.next w e).tasks → tf.1 = t ∧ tf.2 = .sign a ∨
      tf ∈ w.tasks ∧ tf.1 ≠ t := by
    intro tf htf
    exact ((mem_next_tasks hseg).1 htf).imp_left fun hnew => ⟨hnew.1, (Sum.inl.inj hnew.2).symm⟩
  -- the id of the new reservation is above all others
  have hnew : ∀ tf ∈ w.tasks, ∀ x x', tf.2.openEntry = some x →
      (DaemonFrame.sign a).openEntry = some x' → x.hold.reservationId ≠ x'.hold.reservationId := by
    intro tf htf x x' hx hx' heq
    rw [(openEntry_of_reserved hr).1 hx'] at heq
    have hlt := hb.inv.drawn x (hb.opened tf htf x hx).1
    rw [heq, ← hid] at hlt
    exact absurd hlt (lt_irrefl r)
  refine ⟨(QuotaMove.reserve (a.hold r)).apply b, {
    inv := QuotaBook.inv_reserve hb.inv ⟨hdemands, hgranted⟩
    journal := ?_
    opened := ?_
    distinct := ?_
    flying := ?_
    signed := ?_
    reserved := ?_
    limited := ?_ }⟩
  · rw [next_shared hseg]
    show s.journal = (b.journal.reserve a.agent a.quotaDemands a.bound.admitted.nowMs).1
    rw [hreserve]
  · intro tf htf x hx
    rcases htask htf with ⟨-, hf⟩ | ⟨htf, -⟩
    · rw [hf] at hx
      rw [(openEntry_of_reserved hr).1 hx]
      exact ⟨List.mem_cons_self, hquotas⟩
    · obtain ⟨hmem, hq⟩ := hb.opened tf htf x hx
      exact ⟨List.mem_cons_of_mem _ hmem, hq⟩
  · intro tf htf tf' htf' x x' hx hx' heq
    rcases htask htf with ⟨ht, hf⟩ | ⟨htf, -⟩ <;> rcases htask htf' with ⟨ht', hf'⟩ | ⟨htf', -⟩
    · rw [ht, ht']
    · rw [hf] at hx
      exact absurd heq.symm (hnew tf' htf' x' x hx' hx)
    · rw [hf'] at hx'
      exact absurd heq (hnew tf htf x x' hx hx')
    · exact hb.distinct tf htf tf' htf' x x' hx hx' heq
  · intro x hx hopen hdigest
    rcases List.mem_cons.1 hx with rfl | hx
    · exact absurd rfl hdigest
    · exact hb.still_flying hseg hfree hx hopen hdigest
  · intro p digest
    rw [produced_snoc, or_iff_left (signedFor_of_free hseg hfree p digest), hb.signed]
    constructor
    · rintro ⟨x, hx, hp⟩
      exact ⟨x, List.mem_cons_of_mem _ hx, hp⟩
    · rintro ⟨x, hx, hp, hdigest⟩
      rcases List.mem_cons.1 hx with rfl | hx
      · cases hdigest
      · exact ⟨x, hx, hp, hdigest⟩
  · intro p
    rw [reservedIn_snoc, hb.reserved, reserves_iff hseg hr]
    constructor
    · rintro (⟨x, hx, hp⟩ | rfl)
      · exact ⟨x, List.mem_cons_of_mem _ hx, hp⟩
      · exact ⟨_, List.mem_cons_self, rfl⟩
    · rintro ⟨x, hx, rfl⟩
      rcases List.mem_cons.1 hx with rfl | hx
      · exact Or.inr rfl
      · exact Or.inl ⟨x, hx, rfl⟩
  · intro tf htf
    rcases htask htf with ⟨-, hf⟩ | ⟨htf, -⟩
    · rw [hf]
      intro _ hnone
      rw [hr] at hnone
      cases hnone
    · exact hb.limited tf htf

/-! ### The steps of a signed request -/

/-- A step of the request `t` that holds the entry `x`: its entry changes by `f`, and the rest
of the book does not. -/
structure Turn (d : SignBoxDaemon) (w : DaemonWorld) (e : DaemonEvent) (b b' : QuotaBook) (t : ℕ)
    (seg : Step) (x : QuotaEntry) (f : QuotaEntry → QuotaEntry) : Prop where
  segment : d.machine.segment? w e = some (t, seg)
  frame : ∃ f₀, w.tasks.lookup t = some f₀ ∧ f₀.openEntry = some x
  inv : b'.Inv
  journal : seg.state.journal = b'.journal
  entries : b'.entries = QuotaBook.set x.hold.reservationId f b.entries
  hold : QuotaBook.SameHold f
  signer : ∀ a, seg.next ≠ .inl (.sign a)
  next : ∀ f', seg.next = .inl f' → f'.openEntry = some (f x) ∧ Limited f'
  awaits : (f x).inFlight = true → ∃ f', seg.next = .inl f'
  digest : ∀ digest, (f x).digest = some digest ↔
    x.digest = some digest ∨ SignedFor w e x.hold digest

namespace Turn

variable {b' : QuotaBook} {t : ℕ} {seg : Step} {x y : QuotaEntry} {f : QuotaEntry → QuotaEntry}

/-- The request was suspended with its entry in the book. -/
theorem opened (ht : Turn d w e b b' t seg x f) (hb : Booked d h w b) :
    x ∈ b.entries ∧ d.deps.quotas = true := by
  obtain ⟨f₀, hf₀, hx⟩ := ht.frame
  exact hb.opened _ (mem_of_lookup hf₀) x hx

theorem self (ht : Turn d w e b b' t seg x f) (hb : Booked d h w b) (hy : y ∈ b.entries)
    (heq : y.hold.reservationId = x.hold.reservationId) : y = x :=
  hb.inv.unique hy (ht.opened hb).1 heq

theorem changed (ht : Turn d w e b b' t seg x f) (hb : Booked d h w b) : f x ∈ b'.entries := by
  rw [ht.entries]
  exact QuotaBook.mem_set.2 ⟨x, (ht.opened hb).1, by rw [if_pos rfl]⟩

theorem rest (ht : Turn d w e b b' t seg x f) (hy : y ∈ b.entries)
    (hne : y.hold.reservationId ≠ x.hold.reservationId) : y ∈ b'.entries := by
  rw [ht.entries]
  exact QuotaBook.mem_set.2 ⟨y, hy, by rw [if_neg hne]⟩

theorem mem_cases (ht : Turn d w e b b' t seg x f) (hb : Booked d h w b) (hy : y ∈ b'.entries) :
    y = f x ∨ y ∈ b.entries ∧ y.hold.reservationId ≠ x.hold.reservationId := by
  rw [ht.entries] at hy
  obtain ⟨y₀, hy₀, rfl⟩ := QuotaBook.mem_set.1 hy
  by_cases hid : y₀.hold.reservationId = x.hold.reservationId
  · rw [if_pos hid, ht.self hb hy₀ hid]
    exact Or.inl rfl
  · rw [if_neg hid]
    exact Or.inr ⟨hy₀, hid⟩

/-- Other requests hold other reservations. -/
theorem other (ht : Turn d w e b b' t seg x f) (hb : Booked d h w b) {tf : ℕ × DaemonFrame}
    (htf : tf ∈ w.tasks) (hne : tf.1 ≠ t) (hy : tf.2.openEntry = some y) :
    y.hold.reservationId ≠ x.hold.reservationId := by
  obtain ⟨f₀, hf₀, hx⟩ := ht.frame
  exact fun heq => hne (hb.distinct tf htf _ (mem_of_lookup hf₀) y x hy hx heq)

/-- The step signs for no other request, and makes no reservation. -/
theorem signedFor_hold (ht : Turn d w e b b' t seg x f) {p : Hold} {digest : JsString}
    (hs : SignedFor w e p digest) : p = x.hold := by
  obtain ⟨f₀, hf₀, hx⟩ := ht.frame
  obtain ⟨a, r, hlookup, hr, rfl⟩ := signedFor_frame hs ht.segment
  rw [hf₀] at hlookup
  cases hlookup
  rw [openEntry_sign.2 ⟨r, hr, rfl⟩] at hx
  cases hx
  rfl

theorem not_reserves (ht : Turn d w e b b' t seg x f) (p : Hold) : ¬ Reserves d w e p := by
  rintro ⟨t', seg', a, r, hseg', hnext, -⟩
  rw [ht.segment] at hseg'
  cases hseg'
  exact ht.signer a hnext

theorem distinct (ht : Turn d w e b b' t seg x f) (hb : Booked d h w b) :
    ∀ tf ∈ (d.machine.next w e).tasks, ∀ tf' ∈ (d.machine.next w e).tasks, ∀ y y',
      tf.2.openEntry = some y → tf'.2.openEntry = some y' →
        y.hold.reservationId = y'.hold.reservationId → tf.1 = tf'.1 := by
  intro tf htf tf' htf' y y' hy hy' heq
  rcases (mem_next_tasks ht.segment).1 htf with ⟨hself, hinl⟩ | ⟨htf, hne⟩ <;>
    rcases (mem_next_tasks ht.segment).1 htf' with ⟨hself', hinl'⟩ | ⟨htf', hne'⟩
  · rw [hself, hself']
  · -- the changed entry keeps its reservation, which no other request holds
    rw [(ht.next _ hinl).1] at hy
    cases hy
    rw [ht.hold] at heq
    exact absurd heq.symm (ht.other hb htf' hne' hy')
  · rw [(ht.next _ hinl').1] at hy'
    cases hy'
    rw [ht.hold] at heq
    exact absurd heq (ht.other hb htf hne hy)
  · exact hb.distinct tf htf tf' htf' y y' hy hy' heq

theorem flying (ht : Turn d w e b b' t seg x f) (hb : Booked d h w b) (hw : w.WF) :
    ∀ y ∈ b'.entries, y.inFlight = true → y.digest ≠ none →
      ∃ tf ∈ (d.machine.next w e).tasks, tf.2.openEntry = some y := by
  intro y hy hflying hd
  rcases ht.mem_cases hb hy with rfl | ⟨hy, hne⟩
  · obtain ⟨f', hinl⟩ := ht.awaits hflying
    exact ⟨(t, f'), (mem_next_tasks ht.segment).2 (Or.inl ⟨rfl, hinl⟩), (ht.next f' hinl).1⟩
  · -- another entry is held by another request, which stays suspended
    obtain ⟨tf, htf, hentry⟩ := hb.flying y hy hflying hd
    refine ⟨tf, (mem_next_tasks ht.segment).2 (Or.inr ⟨htf, ?_⟩), hentry⟩
    rintro rfl
    obtain ⟨f₀, hf₀, hx⟩ := ht.frame
    rw [(lookup_iff_mem hw.nodup).2 htf] at hf₀
    cases hf₀
    rw [hx] at hentry
    cases hentry
    exact hne rfl

theorem signed (ht : Turn d w e b b' t seg x f) (hb : Booked d h w b) (p : Hold)
    (digest : JsString) : Produced (h ++ [(w, e)]) p digest ↔
      ∃ y ∈ b'.entries, y.hold = p ∧ y.digest = some digest := by
  rw [produced_snoc, hb.signed]
  constructor
  · rintro (⟨y, hy, rfl, hd⟩ | hs)
    · by_cases hid : y.hold.reservationId = x.hold.reservationId
      · rw [ht.self hb hy hid] at hd ⊢
        exact ⟨f x, ht.changed hb, ht.hold x, (ht.digest digest).2 (Or.inl hd)⟩
      · exact ⟨y, ht.rest hy hid, rfl, hd⟩
    · obtain rfl := ht.signedFor_hold hs
      exact ⟨f x, ht.changed hb, ht.hold x, (ht.digest digest).2 (Or.inr hs)⟩
  · rintro ⟨y, hy, rfl, hd⟩
    rcases ht.mem_cases hb hy with rfl | ⟨hy, -⟩
    · rw [ht.hold x]
      exact ((ht.digest digest).1 hd).imp_left fun hd => ⟨x, (ht.opened hb).1, rfl, hd⟩
    · exact Or.inl ⟨y, hy, rfl, hd⟩

theorem reserved (ht : Turn d w e b b' t seg x f) (hb : Booked d h w b) (p : Hold) :
    ReservedIn d (h ++ [(w, e)]) p ↔ ∃ y ∈ b'.entries, y.hold = p := by
  rw [reservedIn_snoc, or_iff_left (ht.not_reserves p), hb.reserved]
  constructor
  · rintro ⟨y, hy, rfl⟩
    by_cases hid : y.hold.reservationId = x.hold.reservationId
    · rw [ht.self hb hy hid]
      exact ⟨f x, ht.changed hb, ht.hold x⟩
    · exact ⟨y, ht.rest hy hid, rfl⟩
  · rintro ⟨y, hy, rfl⟩
    rcases ht.mem_cases hb hy with rfl | ⟨hy, -⟩
    · exact ⟨x, (ht.opened hb).1, (ht.hold x).symm⟩
    · exact ⟨y, hy, rfl⟩

end Turn

/-- **The book follows a turn**: one entry of the book changes, its request goes on, and every
other request and entry stays as it was. -/
theorem Booked.turn {t : ℕ} {seg : Step} {x : QuotaEntry} {f : QuotaEntry → QuotaEntry}
    {b' : QuotaBook} (hb : Booked d h w b) (hw : w.WF) (ht : Turn d w e b b' t seg x f) :
    Booked d (h ++ [(w, e)]) (d.machine.next w e) b' where
  inv := ht.inv
  journal := by rw [next_shared ht.segment, ht.journal]
  opened := by
    intro tf htf y hy
    refine ⟨?_, (ht.opened hb).2⟩
    rcases (mem_next_tasks ht.segment).1 htf with ⟨-, hinl⟩ | ⟨htf, hne⟩
    · rw [(ht.next _ hinl).1] at hy
      cases hy
      exact ht.changed hb
    · exact ht.rest (hb.opened tf htf y hy).1 (ht.other hb htf hne hy)
  distinct := ht.distinct hb
  flying := ht.flying hb hw
  signed := ht.signed hb
  reserved := ht.reserved hb
  limited := by
    intro tf htf
    rcases (mem_next_tasks ht.segment).1 htf with ⟨-, hinl⟩ | ⟨htf, -⟩
    · exact (ht.next _ hinl).2
    · exact hb.limited tf htf

/-! ### The steps that settle -/

variable {s : DaemonState} {a : Approved} {m : Moment} {r : ℕ} {agent digest : JsString}

theorem move_journal (how : QuotaEnd) :
    ((how.move r agent digest).apply b).journal = how.op agent digest b.journal r := by
  cases how <;> rfl

/-- A settlement ends the entry of its reservation. -/
theorem move_entries (b : QuotaBook) (r : ℕ) (agent digest : JsString) (how : QuotaEnd) : ∃ f : QuotaEntry → QuotaEntry,
    ((how.move r agent digest).apply b).entries = QuotaBook.set r f b.entries ∧
      QuotaBook.SameHold f ∧ (∀ x, (f x).digest = x.digest) ∧ ∀ x, (f x).inFlight = false := by
  cases how with
  | commit =>
    refine ⟨_, rfl, ?_, ?_, ?_⟩ <;> intro x <;> split <;> rfl
  | release => exact ⟨_, rfl, fun _ => rfl, fun _ => rfl, fun _ => rfl⟩
  | leave => exact ⟨_, rfl, fun _ => rfl, fun _ => rfl, fun _ => rfl⟩

theorem settle_journal (hr : a.reservationId = some r) (hquotas : d.deps.quotas = true)
    (how : QuotaEnd) :
    ((d.settle s a m (how.op agent digest)).getD s).journal =
      (m.quotaEnd how).op agent digest s.journal r := by
  unfold settle Moment.quotaEnd
  rw [hr, hquotas]
  by_cases hfails : m.journalFails = true
  · simp [hfails, QuotaEnd.op]
  · simp [hfails]

theorem settle_free (hr : a.reservationId = none) (op : QuotaJournal → ℕ → QuotaJournal) :
    d.settle s a m op = some s := by
  unfold settle
  rw [hr]

/-- A concluded request has settled, or failed to. -/
theorem conclude_state (settled : Option DaemonState) (signed : SignedTransactionResult)
    (signedTransaction : Option Json) (report : Option BroadcastReport) :
    (d.conclude s settled a m signed signedTransaction report).state = settled.getD s ∧
      ∃ r, (d.conclude s settled a m signed signedTransaction report).next = .inr r := by
  unfold conclude
  cases settled <;> exact ⟨rfl, _, rfl⟩

/-- A segment that ends a request and leaves the journal. -/
theorem idle_end {seg : Step} (hstate : seg.state.journal = s.journal)
    (hdone : ∃ r, seg.next = .inr r) : Idle s seg where
  rows := by rw [hstate]
  issued := by rw [hstate]
  frame := by
    intro f hf
    obtain ⟨r, hr⟩ := hdone
    rw [hr] at hf
    cases hf

/-- Others that stand in the book are settled in the run. -/
theorem Booked.others {b₁ : QuotaBook} {x : QuotaEntry} {P : QuotaEntry → Prop}
    (hb : Booked d h w b) (hcov : x.Covers agent digest)
    (hrest : ∀ q ∈ b₁.entries, q.hold.reservationId ≠ x.hold.reservationId → q ∈ b.entries)
    (hpruned : ∀ p, QuotaBook.Pruned b.entries p → QuotaBook.Pruned b₁.entries p)
    (hP : ∀ q ∈ b.entries, Settled h w agent digest q.hold → P q) : QuotaMove.Others b₁ x P := by
  intro digest' hd q hq hcovq hne hstanding
  rw [hcov.digest] at hd
  cases hd
  rw [hcov.agent] at hcovq
  have hqb := hrest q hq hne
  exact hP q hqb (hb.settled hqb hcovq
    ⟨hstanding.ended, hstanding.live, fun hp => hstanding.kept (hpruned _ hp)⟩)

/-- What is accounted for is allowed in the book, also after the signature was entered. -/
theorem Booked.allowed {b₁ : QuotaBook} {x : QuotaEntry} {how : QuotaEnd} (hb : Booked d h w b)
    (hacc : Accounted d h w e) (hset : d.settlement? w e = some (a, digest, how))
    (hr : a.reservationId = some r) (hx : x ∈ b₁.entries) (hhold : x.hold = a.hold r)
    (hopen : x.inFlight = true) (hdigest : x.digest = some digest)
    (hrest : ∀ q ∈ b₁.entries, q.hold.reservationId ≠ x.hold.reservationId → q ∈ b.entries)
    (hpruned : ∀ p, QuotaBook.Pruned b.entries p → QuotaBook.Pruned b₁.entries p)
    (hsame : how = .release → b₁ = b) : (how.move r a.agent digest).Permitted b₁ := by
  have hid : x.hold.reservationId = r := by rw [hhold]; rfl
  have hcov : x.Covers a.agent digest := ⟨by rw [hhold]; rfl, hdigest⟩
  cases how with
  | commit =>
    refine ⟨x, hx, hid, hopen, hcov, hb.others hcov hrest hpruned fun q hq hs => ?_⟩
    exact ((hb.rowsOf hq).1 (hacc.commit a digest r hset hr q.hold hs)).2
  | leave =>
    refine ⟨x, hx, hid, hopen, hb.others hcov hrest hpruned fun q hq hs => ?_⟩
    exact hacc.leave a digest r hset hr q.hold hs
  | release =>
    obtain rfl := hsame rfl
    obtain ⟨p, hagent, hproduced, hor⟩ := hacc.release a digest r hset hr
    obtain ⟨q, hq, rfl, hqd⟩ := (hb.signed p digest).1 hproduced
    refine ⟨x, hx, hid, hopen, fun digest' hd => ?_⟩
    rw [hdigest] at hd
    cases hd
    refine ⟨q, hq, ⟨hagent.trans hcov.agent.symm, hqd⟩, ?_⟩
    exact hor.imp (fun hp => ⟨hp.1, ((hb.heldBy hq).1 hp.2).2⟩) hb.prunedIn.1

/-- A request ends, and its reservation with it. -/
theorem Booked.finish {t : ℕ} {seg : Step} {f₀ : DaemonFrame} {x : QuotaEntry} {how : QuotaEnd}
    (hb : Booked d h w b) (hw : w.WF) (hseg : d.machine.segment? w e = some (t, seg))
    (hf₀ : w.tasks.lookup t = some f₀) (hx : f₀.openEntry = some x)
    (hid : x.hold.reservationId = r) (hallowed : (how.move r agent digest).Permitted b)
    (hjournal : seg.state.journal = how.op agent digest w.shared.journal r)
    (hdone : ∃ r, seg.next = .inr r) (hsigned : ∀ digest, ¬ SignedFor w e x.hold digest) :
    ∃ b', Booked d (h ++ [(w, e)]) (d.machine.next w e) b' := by
  subst hid
  obtain ⟨result, hdone⟩ := hdone
  obtain ⟨f, hentries, hhold, hdigest, hover⟩ :=
    move_entries b x.hold.reservationId agent digest how
  refine ⟨_, hb.turn hw (x := x) (f := f) {
    segment := hseg
    frame := ⟨f₀, hf₀, hx⟩
    inv := QuotaBook.inv_apply hb.inv hallowed
    journal := by rw [hjournal, move_journal, hb.journal]
    entries := hentries
    hold := hhold
    signer := by simp [hdone]
    next := by simp [hdone]
    awaits := by simp [hover]
    digest := fun digest' => by rw [hdigest, or_iff_left (hsigned digest')] }⟩

/-- The signature over the digest arrives and is entered in the book. -/
theorem signedFor_iff {t : ℕ} {result : SignedTransactionResult}
    (hf : w.tasks.lookup t = some (.sign a)) (hr : a.reservationId = some r)
    (he : e = .resume t (.signed result, m)) :
    SignedFor w e (a.hold r) digest ↔ result.transactionDigest = digest := by
  subst he
  constructor
  · rintro ⟨t', a', result', m', r', he, -, -, -, hd⟩
    cases he
    exact hd
  · intro hd
    exact ⟨t, a, result, m, r, rfl, hf, hr, rfl, hd⟩

theorem Booked.signAllowed {t : ℕ} (hb : Booked d h w b) (hf : w.tasks.lookup t = some (.sign a))
    (hr : a.reservationId = some r) (digest : JsString) :
    (⟨a.hold r, none, .reserved, true⟩ : QuotaEntry) ∈ b.entries ∧ d.deps.quotas = true ∧
      (QuotaMove.sign r digest).Permitted b := by
  obtain ⟨hmem, hquotas⟩ := hb.opened _ (mem_of_lookup hf) _ (openEntry_sign.2 ⟨r, hr, rfl⟩)
  exact ⟨hmem, hquotas, _, hmem, rfl, rfl, rfl⟩

/-- What is accounted for is also allowed once the signature is entered. -/
theorem Booked.allowedSigned {how : QuotaEnd} (hb : Booked d h w b) (hacc : Accounted d h w e)
    (hset : d.settlement? w e = some (a, digest, how)) (hr : a.reservationId = some r)
    (hmem : (⟨a.hold r, none, .reserved, true⟩ : QuotaEntry) ∈ b.entries)
    (hhow : how ≠ .release) :
    (how.move r a.agent digest).Permitted ((QuotaMove.sign r digest).apply b) := by
  have hentry : (⟨a.hold r, some digest, .reserved, true⟩ : QuotaEntry) ∈
      QuotaBook.set r (QuotaMove.toSigned digest) b.entries :=
    QuotaBook.mem_set.2 ⟨_, hmem, (if_pos rfl).symm⟩
  refine hb.allowed hacc hset hr hentry rfl rfl rfl ?_ ?_ fun hrel => absurd hrel hhow
  · intro q hq hne
    obtain ⟨q₀, hq₀, rfl⟩ := QuotaBook.mem_set.1 hq
    by_cases hid : q₀.hold.reservationId = r
    · rw [if_pos hid] at hne
      exact absurd hid hne
    · rw [if_neg hid]
      exact hq₀
  · exact fun p hp => (QuotaBook.pruned_set (QuotaBook.toSigned_hold digest)).2 hp

/-- **The signer has signed.** The digest is entered in the book before it can leave, and the
reservation ends here if nothing is to be submitted. -/
theorem Booked.endSign {t : ℕ} {result : SignedTransactionResult} (hb : Booked d h w b)
    (hw : w.WF) (hacc : Accounted d h w e) (he : e = .resume t (.signed result, m))
    (hf : w.tasks.lookup t = some (.sign a))
    (hseg : d.machine.segment? w e = some (t, d.endSign a result m w.shared)) :
    ∃ b', Booked d (h ++ [(w, e)]) (d.machine.next w e) b' := by
  have hlimited : Limited (.sign a) := hb.limited _ (mem_of_lookup hf)
  cases hr : a.reservationId with
  -- without a reservation there is nothing in the book to follow
  | none =>
    have hfree : ∀ f, (t, f) ∈ w.tasks → f.openEntry = none := by
      intro f hmem
      rw [(lookup_iff_mem hw.nodup).2 hmem] at hf
      cases hf
      simp [DaemonFrame.openEntry, hr]
    refine hb.keep hseg hfree ?_
    unfold SignBoxDaemon.endSign
    split
    · refine ⟨rfl, le_rfl, fun f hnext => ?_⟩
      cases hnext
      exact ⟨by simp [DaemonFrame.openEntry, hr], hlimited⟩
    · refine idle_end ?_ (conclude_state ..).2
      rw [(conclude_state ..).1, commit, settle_free hr]
      rfl
  | some r =>
    -- with one, the digest is entered in the book first
    obtain ⟨hmem, hquotas, hsign⟩ := hb.signAllowed hf hr result.transactionDigest
    have hx : (DaemonFrame.sign a).openEntry = some ⟨a.hold r, none, .reserved, true⟩ :=
      openEntry_sign.2 ⟨r, hr, rfl⟩
    have hinv := QuotaBook.inv_apply hb.inv hsign
    have hdigest : ∀ digest, some result.transactionDigest = some digest ↔
        none = some digest ∨ SignedFor w e (a.hold r) digest := by
      intro digest
      rw [signedFor_iff hf hr he]
      simp
    by_cases hfused : d.Fused a
    · have hend : d.endSign a result m w.shared = ⟨w.shared,
          [.broadcast a.agent result.signedTransaction], .inl (.broadcast a result)⟩ := if_pos hfused
      -- a fused request goes on to the broadcaster with its entry open
      rw [hend] at hseg
      refine ⟨_, hb.turn hw (f := QuotaMove.toSigned result.transactionDigest) {
        segment := hseg
        frame := ⟨_, hf, hx⟩
        inv := hinv
        journal := hb.journal
        entries := rfl
        hold := fun _ => rfl
        signer := by simp
        next := ?_
        awaits := fun _ => ⟨_, rfl⟩
        digest := hdigest }⟩
      rintro f' hnext
      cases hnext
      exact ⟨openEntry_broadcast.2 ⟨r, hr, rfl⟩, hlimited⟩
    · -- the signature is entered, and then the reservation settles
      have hend : d.endSign a result m w.shared = d.conclude w.shared
          (d.settle w.shared a m (QuotaEnd.commit.op a.agent result.transactionDigest)) a m result
          result.signedTransaction none := if_neg hfused
      obtain ⟨hstate, result', hdone⟩ := conclude_state (d := d) (s := w.shared) (a := a) (m := m)
        (d.settle w.shared a m (QuotaEnd.commit.op a.agent result.transactionDigest)) result
        result.signedTransaction none
      have hset : d.settlement? w e =
          some (a, result.transactionDigest, m.quotaEnd .commit) := by
        simp [settlement?, he, hf, hfused]
      -- the settlement is allowed because the step is accounted for
      have hallowed := hb.allowedSigned hacc hset hr hmem (by unfold Moment.quotaEnd; split <;> simp)
      obtain ⟨f, hentries, hhold, hdig, hover⟩ := move_entries
        ((QuotaMove.sign r result.transactionDigest).apply b) r a.agent result.transactionDigest
        (m.quotaEnd .commit)
      rw [hend] at hseg
      refine ⟨_, hb.turn hw (f := f ∘ QuotaMove.toSigned result.transactionDigest) {
        segment := hseg
        frame := ⟨_, hf, hx⟩
        inv := QuotaBook.inv_apply hinv hallowed
        journal := ?_
        entries := ?_
        hold := fun x => hhold _
        signer := by simp [hdone]
        next := by simp [hdone]
        awaits := by simp [hover]
        digest := ?_ }⟩
      · rw [hstate, settle_journal hr hquotas, move_journal, hb.journal]
        rfl
      · rw [hentries]
        exact QuotaBook.set_set (QuotaBook.toSigned_hold _) b.entries
      · intro digest
        rw [Function.comp_apply, hdig]
        exact hdigest digest

/-- A request without a reservation ends. -/
theorem Booked.finishFree {t : ℕ} {seg : Step} {f₀ : DaemonFrame} (hb : Booked d h w b)
    (hw : w.WF) (hseg : d.machine.segment? w e = some (t, seg))
    (hf₀ : w.tasks.lookup t = some f₀) (hnone : f₀.openEntry = none)
    (hstate : seg.state.journal = w.shared.journal) (hdone : ∃ r, seg.next = .inr r) :
    ∃ b', Booked d (h ++ [(w, e)]) (d.machine.next w e) b' := by
  refine hb.keep hseg (fun f hmem => ?_) (idle_end hstate hdone)
  rw [(lookup_iff_mem hw.nodup).2 hmem] at hf₀
  cases hf₀
  exact hnone

/-- **The signer has failed.** The reservation is released, and no digest of it has left. -/
theorem Booked.failSign {t : ℕ} {message : Option JsString} (hb : Booked d h w b) (hw : w.WF)
    (he : e = .resume t (.threw message, m)) (hf : w.tasks.lookup t = some (.sign a))
    (hseg : d.machine.segment? w e = some (t, d.failSign a m w.shared)) :
    ∃ b', Booked d (h ++ [(w, e)]) (d.machine.next w e) b' := by
  have hsigned : ∀ p digest, ¬ SignedFor w e p digest := by
    rintro p digest ⟨t', a', result, m', r, he', -⟩
    rw [he] at he'
    cases he'
  cases hr : a.reservationId with
  | none =>
    refine hb.finishFree hw hseg hf (by simp [DaemonFrame.openEntry, hr]) ?_ ⟨_, rfl⟩
    show ((d.settle w.shared a m QuotaJournal.release).getD w.shared).journal = _
    rw [settle_free hr]
    rfl
  | some r =>
    obtain ⟨hmem, hquotas⟩ := hb.opened _ (mem_of_lookup hf) _ (openEntry_sign.2 ⟨r, hr, rfl⟩)
    have hallowed : ((m.quotaEnd .release).move r a.agent (js "")).Permitted b := by
      unfold Moment.quotaEnd
      split
      · exact ⟨_, hmem, rfl, rfl, fun digest hd => by cases hd⟩
      · exact ⟨_, hmem, rfl, rfl, fun digest hd => by cases hd⟩
    refine hb.finish hw hseg hf (openEntry_sign.2 ⟨r, hr, rfl⟩) rfl hallowed ?_ ⟨_, rfl⟩
      fun digest => hsigned _ digest
    exact settle_journal hr hquotas .release

/-- **The broadcaster has answered, or failed.** What happens to the rows depends on what it says:
they are committed, released, or left to count. -/
theorem Booked.endBroadcast {t : ℕ} {signed : SignedTransactionResult} {answer : Answer}
    {seg : Step} {how : QuotaEnd} (hb : Booked d h w b) (hw : w.WF) (hacc : Accounted d h w e)
    (he : e = .resume t (answer, m)) (hf : w.tasks.lookup t = some (.broadcast a signed))
    (hseg : d.machine.segment? w e = some (t, seg))
    (hset : d.settlement? w e = some (a, signed.transactionDigest, how))
    (hfree : a.reservationId = none → seg.state.journal = w.shared.journal)
    (hjournal : ∀ r, a.reservationId = some r → d.deps.quotas = true →
      seg.state.journal = how.op a.agent signed.transactionDigest w.shared.journal r)
    (hdone : ∃ r, seg.next = .inr r) :
    ∃ b', Booked d (h ++ [(w, e)]) (d.machine.next w e) b' := by
  cases hr : a.reservationId with
  | none =>
    exact hb.finishFree hw hseg hf (by simp [DaemonFrame.openEntry, hr]) (hfree hr) hdone
  | some r =>
    have hx : (DaemonFrame.broadcast a signed).openEntry =
        some ⟨a.hold r, some signed.transactionDigest, .reserved, true⟩ :=
      openEntry_broadcast.2 ⟨r, hr, rfl⟩
    obtain ⟨hmem, hquotas⟩ := hb.opened _ (mem_of_lookup hf) _ hx
    refine hb.finish hw hseg hf hx rfl (hb.allowed hacc hset hr hmem rfl rfl rfl
      (fun q hq _ => hq) (fun p hp => hp) fun _ => rfl) (hjournal r hr hquotas) hdone ?_
    rintro digest ⟨t', a', result, m', r', he', hf', -⟩
    rw [he] at he'
    cases he'
    rw [hf] at hf'
    cases hf'

/-- A request that waits for the signer goes on. -/
theorem Booked.resumeSign {t : ℕ} {answer : Answer} {seg : Step} (hb : Booked d h w b)
    (hw : w.WF) (hacc : Accounted d h w (.resume t (answer, m)))
    (hf : w.tasks.lookup t = some (.sign a))
    (hseg : d.machine.segment? w (.resume t (answer, m)) = some (t, seg))
    (hres : d.resume (.sign a) (answer, m) w.shared = some seg) :
    ∃ b', Booked d (h ++ [(w, .resume t (answer, m))])
      (d.machine.next w (.resume t (answer, m))) b' := by
  cases answer with
  | signed result =>
    cases hres
    exact hb.endSign hw hacc rfl hf hseg
  | threw message =>
    cases hres
    exact hb.failSign hw rfl hf hseg
  | _ => cases hres

/-- A fused request that waits for the broadcaster goes on. -/
theorem Booked.resumeBroadcast {t : ℕ} {answer : Answer} {signed : SignedTransactionResult}
    {seg : Step} (hb : Booked d h w b) (hw : w.WF)
    (hacc : Accounted d h w (.resume t (answer, m)))
    (hf : w.tasks.lookup t = some (.broadcast a signed))
    (hseg : d.machine.segment? w (.resume t (answer, m)) = some (t, seg))
    (hres : d.resume (.broadcast a signed) (answer, m) w.shared = some seg) :
    ∃ b', Booked d (h ++ [(w, .resume t (answer, m))])
      (d.machine.next w (.resume t (answer, m))) b' := by
  cases answer with
  | broadcast outcome =>
    cases hres
    have hset : d.settlement? w (.resume t (.broadcast outcome, m)) =
        some (a, signed.transactionDigest, m.quotaEnd outcome.quotaEnd) := by
      simp [settlement?, hf]
    obtain ⟨report, hend⟩ : ∃ report, d.endBroadcast a signed outcome m w.shared =
        d.conclude w.shared (d.settle w.shared a m
          (outcome.quotaEnd.op a.agent signed.transactionDigest)) a m signed none report := by
      cases outcome <;> exact ⟨_, rfl⟩
    obtain ⟨hstate, hdone⟩ := conclude_state (d := d) (s := w.shared) (a := a) (m := m)
      (d.settle w.shared a m (outcome.quotaEnd.op a.agent signed.transactionDigest)) signed none
      report
    rw [hend] at hseg
    refine hb.endBroadcast hw hacc rfl hf hseg hset (fun hr => ?_) (fun r hr hquotas => ?_) hdone
    · rw [hstate, settle_free hr]
      rfl
    · rw [hstate]
      exact settle_journal hr hquotas _
  | threw message =>
    cases hres
    have hset : d.settlement? w (.resume t (.threw message, m)) =
        some (a, signed.transactionDigest, .leave) := by
      simp [settlement?, hf]
    exact hb.endBroadcast hw hacc rfl hf hseg hset (fun _ => rfl) (fun _ _ _ => rfl) ⟨_, rfl⟩
  | _ => cases hres

/-! ### The steps before the signature -/

/-- The segment ends its request without a signature, awaits something else than the signer or
the broadcaster, or calls the signer, with the quota reserved where there are limits. -/
inductive Paced (d : SignBoxDaemon) (s : DaemonState) : Step → Prop
  | ended {seg : Step} (hend : Ended s seg) : Paced d s seg
  | await (s' : DaemonState) (calls : List Call) (f : DaemonFrame)
    (hs : s'.journal = s.journal) (hf : f.openEntry = none) (hlimited : Limited f) :
    Paced d s ⟨s', calls, .inl f⟩
  | reserve (a : Approved) (s' : DaemonState) (r : ℕ) (hdemands : a.quotaDemands ≠ [])
    (hr : a.reservationId = some r) (hquotas : d.deps.quotas = true)
    (hreserve : s.journal.reserve a.agent a.quotaDemands a.bound.admitted.nowMs =
      (s'.journal, .ok r)) :
    Paced d s (callSigner a s')

theorem evaluate_paced {b : Bound} {evidence : Option ProviderEvidenceMap} :
    Paced d s (d.evaluate b evidence m s) := by
  refine evaluate_rule (fun _ => .ended) fun a s' _ hres => ?_
  cases hres with
  | unlimited hdemands hnone =>
    exact .await s _ _ rfl (by simp [DaemonFrame.openEntry, hnone]) fun hne => absurd hdemands hne
  | limited journal r hdemands hsome hquotas hreserve =>
    exact .reserve a _ r hdemands hsome hquotas hreserve

theorem provide_paced {b : Bound} : Paced d s (d.provide b m s) :=
  provide_rule (fun _ => .ended) (fun _ _ _ => .await s _ _ rfl rfl trivial)
    fun _ => evaluate_paced

theorem bindIdentity_paced {c : Admitted} {active : ActivePolicy} :
    Paced d s (d.bindIdentity c active m s) :=
  bindIdentity_rule (fun _ => .ended) (fun _ _ _ => .await s _ _ rfl rfl trivial)
    fun _ _ _ => provide_paced

theorem loadPolicy_paced {c : Admitted} : Paced d s (d.loadPolicy c m s) :=
  loadPolicy_rule (fun _ => .await s _ _ rfl rfl trivial) fun _ => bindIdentity_paced

theorem Paced.of_nonces {nonces : NonceCache} {seg : Step}
    (hseg : Paced d { s with nonces := nonces } seg) : Paced d s seg := by
  cases hseg with
  | ended hend => exact .ended (hend.of_untouched (untouched_nonces s nonces))
  | await s' calls f hs hf hlimited => exact .await s' calls f hs hf hlimited
  | reserve a s' r hdemands hr hquotas hreserve =>
    exact .reserve a s' r hdemands hr hquotas hreserve

theorem start_paced {x : Line × Moment} : Paced d s (d.start x s) :=
  start_rule (fun _ => .ended) (fun _ _ _ => loadPolicy_paced.of_nonces)
    (fun _ _ _ _ => .await _ _ _ rfl rfl trivial) fun _ _ _ => .await s _ _ rfl rfl trivial

/-- A request that waits for something else than the signer or the broadcaster goes on. -/
theorem resume_paced {f : DaemonFrame} {x : Answer × Moment} {seg : Step}
    (hres : d.resume f x s = some seg) (hsign : ∀ a, f ≠ .sign a)
    (hbroadcast : ∀ a signed, f ≠ .broadcast a signed) : Paced d s seg := by
  refine resume_rule hres (fun _ => .ended) ?_ ?_ ?_ ?_ ?_ ?_ ?_
  · exact fun c cached _ _ => endPolicy_rule (fun _ => .ended) fun _ _ _ =>
      bindIdentity_paced
  · exact fun b authorized _ _ => endAuthority_rule (fun _ => .ended) fun _ =>
      provide_paced
  · exact fun b queries answers _ _ => evaluate_paced
  · exact fun a _ hf _ => absurd hf (hsign a)
  · exact fun a _ hf _ => absurd hf (hsign a)
  · exact fun a signed _ hf _ => absurd hf (hbroadcast a signed)
  · exact fun a signed _ hf _ => absurd hf (hbroadcast a signed)

/-- No response carries a signature that early. -/
theorem Paced.unsigned {seg : Step} {response : Response} (hpaced : Paced d s seg)
    (hdone : seg.next = .inr response) : response.digest? = none := by
  cases hpaced with
  | ended hend =>
    obtain ⟨response', hdone', hnone⟩ := hend.done
    rw [hdone] at hdone'
    cases hdone'
    exact hnone
  | await => cases hdone
  | reserve => cases hdone

theorem Booked.pace {t : ℕ} {seg : Step} (hb : Booked d h w b)
    (hseg : d.machine.segment? w e = some (t, seg))
    (hfree : ∀ f, (t, f) ∈ w.tasks → f.openEntry = none) (hpaced : Paced d w.shared seg) :
    ∃ b', Booked d (h ++ [(w, e)]) (d.machine.next w e) b' := by
  cases hpaced with
  | ended hend =>
    obtain ⟨result, hdone, -⟩ := hend.done
    exact hb.keep hseg hfree ⟨hend.state.rows, hend.state.issued, by simp [hdone]⟩
  | await s' calls f hs hf hlimited =>
    refine hb.keep hseg hfree ⟨by rw [hs], by rw [hs], fun f' hf' => ?_⟩
    cases hf'
    exact ⟨hf, hlimited⟩
  | reserve a s' r hdemands hr hquotas hreserve =>
    exact hb.reserve hseg hfree hdemands hr hquotas hreserve

/-! ### Runs -/

/-- A step that runs no segment: an operation on an agent, or a reply that nothing awaits. -/
theorem Booked.still (hb : Booked d h w b) (hseg : d.machine.segment? w e = none)
    (hjournal : (d.machine.next w e).shared.journal = w.shared.journal)
    (htasks : (d.machine.next w e).tasks = w.tasks) :
    Booked d (h ++ [(w, e)]) (d.machine.next w e) b := by
  have hsigned : ∀ p digest, ¬ SignedFor w e p digest := by
    rintro p digest ⟨t, a, result, m, r, rfl, hf, -⟩
    have hsome : d.machine.segment? w (.resume t (.signed result, m)) =
        some (t, d.endSign a result m w.shared) := segment?_resume.2 ⟨rfl, _, hf, rfl⟩
    rw [hseg] at hsome
    cases hsome
  have hreserves : ∀ p, ¬ Reserves d w e p := by
    rintro p ⟨t, seg, a, r, hsome, -⟩
    rw [hseg] at hsome
    cases hsome
  refine ⟨hb.inv, hjournal.trans hb.journal, ?_, ?_, ?_, ?_, ?_, ?_⟩
  · rw [htasks]
    exact hb.opened
  · rw [htasks]
    exact hb.distinct
  · rw [htasks]
    exact hb.flying
  · intro p digest
    rw [produced_snoc, or_iff_left (hsigned p digest)]
    exact hb.signed p digest
  · intro p
    rw [reservedIn_snoc, or_iff_left (hreserves p)]
    exact hb.reserved p
  · rw [htasks]
    exact hb.limited

/-- **Every step that is accounted for is followed by the book**, whichever task it belongs to. By
cases on the frame that is resumed; all frames before the signer leave the book alone but for the
reservation. -/
theorem Booked.step (hb : Booked d h w b) (hw : w.WF) (hacc : Accounted d h w e) :
    ∃ b', Booked d (h ++ [(w, e)]) (d.machine.next w e) b' := by
  cases e with
  | admin op =>
    refine ⟨b, hb.still rfl ?_ rfl⟩
    cases op <;> rfl
  | start x =>
    refine hb.pace (segment?_start (M := d.machine)) (fun f hmem => ?_) start_paced
    exact absurd (hw.drawn _ hmem) (lt_irrefl _)
  | resume t x =>
    obtain ⟨answer, m⟩ := x
    cases hseg : d.machine.segment? w (.resume t (answer, m)) with
    | none =>
      have hsame : d.machine.next w (.resume t (answer, m)) = w := by simp [Machine.next, hseg]
      exact ⟨b, hb.still hseg (by rw [hsame]) (by rw [hsame])⟩
    | some x =>
      obtain ⟨t', seg⟩ := x
      obtain ⟨rfl, f, hf, hres⟩ := segment?_resume.1 hseg
      cases f with
      | sign a => exact hb.resumeSign hw hacc hf hseg hres
      | broadcast a signed => exact hb.resumeBroadcast hw hacc hf hseg hres
      | _ =>
        refine hb.pace hseg (fun f' hmem => ?_) (resume_paced hres (by simp) (by simp))
        rw [(lookup_iff_mem hw.nodup).2 hmem] at hf
        cases hf
        rfl

/-- The book of a run whose settlements are all accounted for. -/
theorem booked_run {s : DaemonState} (hs : s.journal.rows = []) {es : List DaemonEvent}
    (hacc : ∀ pre e post, es = pre ++ e :: post →
      Accounted d (d.machine.history (boot s) pre) (d.machine.run (boot s) pre) e) :
    ∃ b, Booked d (d.machine.history (boot s) es) (d.machine.run (boot s) es) b := by
  suffices hrun : (d.machine.run (boot s) es).WF ∧
      ∃ b, Booked d (d.machine.history (boot s) es) (d.machine.run (boot s) es) b from hrun.2
  refine run_invariant (P := fun h w => w.WF ∧ ∃ b, Booked d h w b) (C := Accounted d) ?_ ?_ hacc
  · have hboot : Booked d [] (boot s) ⟨s.journal, []⟩ := by
      refine ⟨⟨?_, ?_, ?_, ?_, ?_, ?_, ?_, ?_, ?_⟩, rfl, ?_, ?_, ?_, ?_, ?_, ?_⟩ <;>
        simp [boot, hs, Produced, ReservedIn]
    exact ⟨wf_boot s, _, hboot⟩
  · rintro h w e ⟨hw, b, hb⟩ hstep
    exact ⟨wf_next hw e, hb.step hw hstep⟩

/-! ## Digests that leave the daemon -/

/-- The approved transaction of a request that waits for the signer or the broadcaster. -/
def approved? : DaemonFrame → Option Approved
  | .sign a => some a
  | .broadcast a _ => some a
  | _ => none

/-- Such a request, of the agent and under stateful limits. -/
def AtSigner (w : DaemonWorld) (t : ℕ) (agent : JsString) : Prop :=
  ∃ a ∈ (w.tasks.lookup t).bind approved?, a.agent = agent ∧ a.quotaDemands ≠ []

/-- The step hands the digest and the bytes of a signed transaction to a request of the agent
under stateful limits. -/
def SignedAs (w : DaemonWorld) (e : DaemonEvent) (agent digest : JsString) (bytes : Json) : Prop :=
  ∃ t a result m, e = .resume t (.signed result, m) ∧ w.tasks.lookup t = some (.sign a) ∧
    a.agent = agent ∧ a.quotaDemands ≠ [] ∧ result.transactionDigest = digest ∧
      result.signedTransaction = some bytes

/-- **The digest leaves the daemon**: a response carries a signature over it, or a broadcast of
it ends accepted or ambiguous, submitted by the request itself or by a later one. -/
inductive Exposes (d : SignBoxDaemon) (h : DaemonHistory) (w : DaemonWorld) (e : DaemonEvent)
    (agent digest : JsString) : Prop
  | response (t : ℕ) (r : Response) (hrequest : AtSigner w t agent)
    (hdone : (t, .done r) ∈ d.machine.outputs w e) (hdigest : r.digest? = some digest)
  | submitted (t : ℕ) (a : Approved) (signed : SignedTransactionResult)
    (outcome : BroadcastOutcome) (m : Moment) (he : e = .resume t (.broadcast outcome, m))
    (hf : w.tasks.lookup t = some (.broadcast a signed)) (hagent : a.agent = agent)
    (hdemands : a.quotaDemands ≠ []) (hdigest : signed.transactionDigest = digest)
    (hlanded : ∀ reason, outcome ≠ .rejected reason)
  | relayed (t : ℕ) (request : BroadcastRequest) (outcome : BroadcastOutcome) (m : Moment)
    (he : e = .resume t (.broadcast outcome, m))
    (hf : w.tasks.lookup t = some (.standalone request))
    (hsigned : ∃ x ∈ h, SignedAs x.1 x.2 agent digest request.signedTransaction)
    (hlanded : ∀ reason, outcome ≠ .rejected reason)

/-- The digest has left the daemon in this run: its signature was returned, or handed to the
broadcaster. -/
def Exposed (d : SignBoxDaemon) (h : DaemonHistory) (agent digest : JsString) : Prop :=
  ∃ x ∈ h, Exposes d h x.1 x.2 agent digest

/-- A signature in a response was made for the request that is answered. -/
theorem response_signed {t : ℕ} {response : Response}
    (hdone : (t, .done response) ∈ d.machine.outputs w e)
    (hdigest : response.digest? = some digest) :
    (∃ a result m, e = .resume t (.signed result, m) ∧ w.tasks.lookup t = some (.sign a) ∧
      result.transactionDigest = digest) ∨
    ∃ a signed, w.tasks.lookup t = some (.broadcast a signed) ∧
      signed.transactionDigest = digest := by
  obtain ⟨seg, hseg, hout⟩ := mem_outputs.1 hdone
  rw [done_mem_outputs] at hout
  -- only the conclusion puts a digest into a response
  have hconclude : ∀ {a m settled signed signedTransaction report},
      (d.conclude w.shared settled a m signed signedTransaction report).next = .inr response →
        signed.transactionDigest = digest := by
    intro a m settled signed signedTransaction report hnext
    unfold conclude at hnext
    split at hnext
    · cases hnext
      cases hdigest
    · cases hnext
      exact Option.some.inj hdigest
  -- a request that starts has not been signed yet
  rcases segment?_cases hseg with ⟨x, -, -, rfl⟩ | ⟨f, ⟨answer, m⟩, rfl, hf, hres⟩
  · rw [start_paced.unsigned hout] at hdigest
    cases hdigest
  · cases f with
    -- the two frames that can end with a signature: the signer's and the broadcaster's
    | sign a =>
      cases answer with
      | signed result =>
        cases hres
        refine Or.inl ⟨a, result, m, rfl, hf, ?_⟩
        unfold SignBoxDaemon.endSign at hout
        split at hout
        · cases hout
        · exact hconclude hout
      | threw message =>
        cases hres
        cases hout
        cases hdigest
      | _ => cases hres
    | broadcast a signed =>
      cases answer with
      | broadcast outcome =>
        cases hres
        refine Or.inr ⟨a, signed, hf, ?_⟩
        cases outcome <;> exact hconclude hout
      | threw message =>
        cases hres
        cases hout
        cases hdigest
      | _ => cases hres
    | _ =>
      rw [(resume_paced hres (by simp) (by simp)).unsigned hout] at hdigest
      cases hdigest

/-- A request under stateful limits for which the signer signs holds a reservation. -/
theorem Booked.signedFor {t : ℕ} (hb : Booked d h w b) (hf : w.tasks.lookup t = some (.sign a))
    (hdemands : a.quotaDemands ≠ []) (result : SignedTransactionResult) (m : Moment) :
    ∃ r, SignedFor w (.resume t (.signed result, m)) (a.hold r) result.transactionDigest := by
  have hlimited : Limited (.sign a) := hb.limited _ (mem_of_lookup hf)
  obtain ⟨r, hr⟩ := Option.ne_none_iff_exists'.1 (hlimited hdemands)
  exact ⟨r, t, a, result, m, r, rfl, hf, hr, rfl, rfl⟩

/-- So does one that waits for the broadcaster. -/
theorem Booked.submitted {t : ℕ} {signed : SignedTransactionResult} (hb : Booked d h w b)
    (hf : w.tasks.lookup t = some (.broadcast a signed)) (hdemands : a.quotaDemands ≠ []) :
    ∃ r, Produced h (a.hold r) signed.transactionDigest := by
  have hlimited : Limited (.broadcast a signed) := hb.limited _ (mem_of_lookup hf)
  obtain ⟨r, hr⟩ := Option.ne_none_iff_exists'.1 (hlimited hdemands)
  obtain ⟨hmem, -⟩ := hb.opened _ (mem_of_lookup hf) _ (openEntry_broadcast.2 ⟨r, hr, rfl⟩)
  exact ⟨r, (hb.signed _ _).2 ⟨_, hmem, rfl, rfl⟩⟩

section

variable {es : List DaemonEvent} (hs : s.journal.rows = [])
variable (hacc : ∀ pre e post, es = pre ++ e :: post →
  Accounted d (d.machine.history (boot s) pre) (d.machine.run (boot s) pre) e)

include hs hacc

/-- Each step of the run met a state that the book followed. -/
theorem booked_at {x : DaemonWorld × DaemonEvent} (hx : x ∈ d.machine.history (boot s) es) :
    ∃ h b, h ⊆ d.machine.history (boot s) es ∧ Booked d h x.1 b := by
  obtain ⟨pre, post, rfl, hw⟩ := history_split hx
  obtain ⟨b, hb⟩ := booked_run hs fun pre' e post' (hpre : pre = pre' ++ e :: post') =>
    hacc pre' e (post' ++ x.2 :: post) (by rw [hpre]; simp)
  rw [history_append, hw]
  exact ⟨_, b, List.subset_append_left _ _, hb⟩

/-- What has left the daemon was signed for a request that held a reservation. -/
theorem produced_of_exposed (hexp : Exposed d (d.machine.history (boot s) es) agent digest) :
    ∃ p, p.agent = agent ∧ Produced (d.machine.history (boot s) es) p digest := by
  obtain ⟨⟨w, e⟩, hx, hexp⟩ := hexp
  obtain ⟨h, b, hsub, hb⟩ := booked_at hs hacc hx
  have hmono : ∀ {p}, Produced h p digest → Produced (d.machine.history (boot s) es) p digest :=
    fun ⟨y, hy, hsigned⟩ => ⟨y, hsub hy, hsigned⟩
  cases hexp with
  | response t r hrequest hdone hdigest =>
    obtain ⟨a, ha, hagent, hdemands⟩ := hrequest
    rcases response_signed hdone hdigest with ⟨a', result, m, rfl, hf, rfl⟩ | ⟨a', signed, hf, rfl⟩
    · rw [hf] at ha
      cases ha
      obtain ⟨r, hsigned⟩ := hb.signedFor hf hdemands result m
      exact ⟨a.hold r, hagent, _, hx, hsigned⟩
    · rw [hf] at ha
      cases ha
      obtain ⟨r, hproduced⟩ := hb.submitted hf hdemands
      exact ⟨a.hold r, hagent, hmono hproduced⟩
  | submitted t a signed outcome m he hf hagent hdemands hdigest hlanded =>
    obtain ⟨r, hproduced⟩ := hb.submitted hf hdemands
    rw [hdigest] at hproduced
    exact ⟨a.hold r, hagent, hmono hproduced⟩
  | relayed t request outcome m he hf hsigned hlanded =>
    obtain ⟨⟨w', e'⟩, hx', t', a, result, m', rfl, hf', hagent, hdemands, rfl, -⟩ := hsigned
    obtain ⟨h', b', -, hb'⟩ := booked_at hs hacc hx'
    obtain ⟨r, hsigned⟩ := hb'.signedFor hf' hdemands result m'
    exact ⟨a.hold r, hagent, _, hx', hsigned⟩

end

/-- A request that has the signature and waits for the broadcaster. Its reservation is still
open. -/
def InFlight (w : DaemonWorld) (agent digest : JsString) : Prop :=
  ∃ tf ∈ w.tasks, ∃ a signed, tf.2 = .broadcast a signed ∧ a.agent = agent ∧
    signed.transactionDigest = digest

/-- **The quota of a digest is kept**: some reservation over it is held, or its rows were
pruned, and once no request for it is in flight only one is held. -/
structure QuotaKept (d : SignBoxDaemon) (h : DaemonHistory) (w : DaemonWorld)
    (agent digest : JsString) : Prop where
  held : ∃ p, p.agent = agent ∧ Produced h p digest ∧ (HeldBy w p ∨ PrunedIn d h p)
  once : ¬ InFlight w agent digest → ∀ p q, p.agent = agent → Produced h p digest →
    q.agent = agent → Produced h q digest → HeldBy w p → HeldBy w q → p = q

theorem Booked.ended (hb : Booked d h w b) (hquiet : ¬ InFlight w agent digest) {x : QuotaEntry}
    (hx : x ∈ b.entries) (hcov : x.Covers agent digest) : x.inFlight = false := by
  cases hopen : x.inFlight with
  | false => rfl
  | true =>
    obtain ⟨⟨t, f⟩, htf, hentry⟩ := hb.flying x hx hopen (by rw [hcov.digest]; simp)
    cases f with
    | sign a =>
      obtain ⟨r, -, rfl⟩ := openEntry_sign.1 hentry
      cases hcov.digest
    | broadcast a signed =>
      obtain ⟨r, -, rfl⟩ := openEntry_broadcast.1 hentry
      exact absurd ⟨_, htf, a, signed, rfl, hcov.agent, Option.some.inj hcov.digest⟩ hquiet
    | _ => cases hentry

/-- The book keeps the quota of every digest that was signed. -/
theorem Booked.kept (hb : Booked d h w b) {p : Hold} (hagent : p.agent = agent)
    (hproduced : Produced h p digest) : QuotaKept d h w agent digest where
  held := by
    obtain ⟨x, hx, rfl, hd⟩ := (hb.signed p digest).1 hproduced
    obtain ⟨q, hq, hcov, hor⟩ := hb.inv.covered x hx digest hd
    refine ⟨q.hold, hcov.agent.trans hagent, (hb.signed _ _).2 ⟨q, hq, rfl, hcov.digest⟩, ?_⟩
    by_cases hpruned : QuotaBook.Pruned b.entries q.hold
    · exact Or.inr (hb.prunedIn.2 hpruned)
    · exact Or.inl ((hb.heldBy hq).2 ⟨hpruned, hor.resolve_right hpruned⟩)
  once := by
    intro hquiet p q hp hproduced hq hproducedq hheld hheldq
    obtain ⟨x, hx, rfl, hdx⟩ := (hb.signed p digest).1 hproduced
    obtain ⟨y, hy, rfl, hdy⟩ := (hb.signed q digest).1 hproducedq
    obtain ⟨hkeptx, hlivex⟩ := (hb.heldBy hx).1 hheld
    obtain ⟨hkepty, hlivey⟩ := (hb.heldBy hy).1 hheldq
    have hsame := hb.inv.single x hx y hy digest hdx ⟨hq.trans hp.symm, hdy⟩
      ⟨hb.ended hquiet hx ⟨hp, hdx⟩, hlivex, hkeptx⟩ ⟨hb.ended hquiet hy ⟨hq, hdy⟩, hlivey, hkepty⟩
    rw [hb.inv.unique hx hy hsame]

end SignBoxDaemon

open SignBoxDaemon in
/-- **Quota safety of signatures.** In a run in which every settlement of a signed request is
accounted for, the journal keeps the quota of every digest that has left the daemon, in a response
or through the broadcaster: some reservation over it is held until its rows are pruned, and once no
request for the digest is in flight only one is. The run starts from an empty journal, and the
requests interleave in any way. -/
theorem quota_kept (d : SignBoxDaemon) (s : DaemonState) (hs : s.journal.rows = [])
    (es : List DaemonEvent)
    (hacc : ∀ pre e post, es = pre ++ e :: post →
      Accounted d (d.machine.history (boot s) pre) (d.machine.run (boot s) pre) e)
    (agent digest : JsString)
    (hexp : Exposed d (d.machine.history (boot s) es) agent digest) :
    QuotaKept d (d.machine.history (boot s) es) (d.machine.run (boot s) es) agent digest := by
  obtain ⟨p, hagent, hproduced⟩ := produced_of_exposed hs hacc hexp
  obtain ⟨b, hb⟩ := booked_run hs hacc
  exact hb.kept hagent hproduced

/-! ## Two runs -/

namespace Sample

/-- A policy with an hourly cap on transfers. -/
def hourlyPolicy : Policy := policyOf
  [⟨js "pay", .allow, [(js "action", .lit (js "transfer"))],
    some ⟨none, some (js "5.0000 XPR"), none, none, none, none, none⟩, none⟩]

end Sample

namespace SignBoxDaemon

variable {d : SignBoxDaemon} {h : DaemonHistory} {w : DaemonWorld} {e : DaemonEvent}
variable {agent digest : JsString} {p : Hold}

/-- The digest of the signature that a request lets out. -/
def signature? : Output Call Response → Option JsString
  | .done response => response.digest?
  | .effect _ => none

theorem exposes_of_output {t : ℕ} (hrequest : AtSigner w t agent)
    (hout : ∃ o ∈ d.machine.outputs w e, o.1 = t ∧ signature? o.2 = some digest) :
    Exposes d h w e agent digest := by
  obtain ⟨⟨t', o⟩, hmem, rfl, hdigest⟩ := hout
  cases o with
  | done response => exact .response t' response hrequest hmem hdigest
  | effect call => cases hdigest

/-- The id of the reservation that a step makes. -/
def reservation? (d : SignBoxDaemon) (w : DaemonWorld) (e : DaemonEvent) : Option ℕ :=
  (d.machine.segment? w e).bind fun seg => match seg.2.next with
    | .inl (.sign a) => a.reservationId
    | _ => none

theorem reservation?_of_reserves (hr : Reserves d w e p) :
    d.reservation? w e = some p.reservationId := by
  obtain ⟨t, seg, a, r, hseg, hnext, hr, rfl⟩ := hr
  simp [reservation?, hseg, hnext, hr, Approved.hold]

theorem not_heldBy (hrows : ∀ row ∈ w.shared.journal.rows, row.state = .released) :
    ¬ HeldBy w p := by
  rintro ⟨state, hlive, hdemands, digest, hheld⟩
  obtain ⟨row, hrow⟩ := List.exists_mem_of_ne_nil _ (Hold.events_ne_nil hdemands state digest)
  have hstate := (Hold.mem_events hrow).2.2.1
  rw [← hheld] at hrow
  exact hlive (hstate.symm.trans (hrows row (mem_holding.1 hrow).1))

/-- The first signature of a run is accounted for, whatever becomes of its quota. -/
theorem accounted_first {t : ℕ} {result : SignedTransactionResult} {m : Moment}
    (hfirst : ∀ p digest, ¬ Produced h p digest) :
    Accounted d h w (.resume t (.signed result, m)) where
  release := by
    intro a digest r hset
    simp only [settlement?] at hset
    split at hset
    case h_1 =>
      split at hset
      · cases hset
      · unfold Moment.quotaEnd at hset
        split at hset <;> cases hset
    all_goals simp_all
  commit := fun _ _ _ _ _ p hs => absurd hs.produced (hfirst p _)
  leave := fun _ _ _ _ _ p hs => hfirst p _ hs.produced

theorem accounted_start {x : Line × Moment} : Accounted d h w (.start x) where
  release := fun _ _ _ hset => by cases hset
  commit := fun _ _ _ hset => by cases hset
  leave := fun _ _ _ hset => by cases hset

end SignBoxDaemon

namespace Returned

open SignBoxDaemon

/-- A signature under the hourly cap is returned to the agent. -/
def run : List DaemonEvent :=
  [.start (Sample.signLine "nonce-0123456789" false, Sample.moment),
    .resume 0 (.signed (Sample.signed "digest"), Sample.moment)]

/-- Its quota is kept: the signature left the daemon in a response, after the commit of its
reservation. -/
theorem quota_kept_returned : QuotaKept Sample.daemon
    (Sample.daemon.machine.history (boot (Sample.state Sample.hourlyPolicy)) run)
    (Sample.daemon.machine.run (boot (Sample.state Sample.hourlyPolicy)) run)
    (js "bot") (js "digest") := by
  refine quota_kept Sample.daemon (Sample.state Sample.hourlyPolicy) rfl run ?_ (js "bot")
    (js "digest") ?_
  · intro pre e post hrun
    rcases pre with _ | ⟨e₁, _ | ⟨e₂, pre⟩⟩ <;>
      simp only [run, List.cons_append, List.nil_append, List.cons.injEq] at hrun
    · obtain ⟨rfl, -⟩ := hrun
      exact accounted_start
    · obtain ⟨rfl, rfl, -⟩ := hrun
      refine accounted_first fun p digest => ?_
      rintro ⟨x, hx, t, a, result, m, r, he, -⟩
      rw [List.mem_singleton.1 hx] at he
      cases he
    · obtain ⟨-, -, hnil⟩ := hrun
      simp at hnil
  · refine ⟨_, List.mem_cons_of_mem _ List.mem_cons_self, exposes_of_output (t := 0) ?_ ?_⟩
    · unfold AtSigner
      decide +kernel
    · decide +kernel

end Returned

namespace Rejected

open SignBoxDaemon

/-- A request under the hourly cap is signed, and rejected by the chain. -/
def run : List DaemonEvent :=
  [.start (Sample.signLine "nonce-0123456789" true, Sample.moment),
    .resume 0 (.signed (Sample.signed "digest"), Sample.moment),
    .resume 0 (.broadcast (.rejected (js "tx_net_usage_exceeded")), Sample.moment)]

/-- The answer carries the signature, and no reservation holds its digest: it was released when the
chain rejected the transaction. -/
theorem signature_unheld :
    Exposed Sample.daemon (Sample.daemon.machine.history
      (boot (Sample.state Sample.hourlyPolicy)) run) (js "bot") (js "digest") ∧
    ¬ QuotaKept Sample.daemon
      (Sample.daemon.machine.history (boot (Sample.state Sample.hourlyPolicy)) run)
      (Sample.daemon.machine.run (boot (Sample.state Sample.hourlyPolicy)) run)
      (js "bot") (js "digest") := by
  constructor
  · refine ⟨_, List.mem_cons_of_mem _ (List.mem_cons_of_mem _ List.mem_cons_self),
      exposes_of_output (t := 0) ?_ ?_⟩
    · unfold AtSigner
      decide +kernel
    · decide +kernel
  · rintro ⟨⟨p, -, -, hheld | ⟨q, ⟨x, hx, hq⟩, hlt, -⟩⟩, -⟩
    · refine not_heldBy ?_ hheld
      decide +kernel
    · -- the only reservation has the id 0
      have honly : ∀ x ∈ Sample.daemon.machine.history
          (boot (Sample.state Sample.hourlyPolicy)) run,
          ∀ r ∈ Sample.daemon.reservation? x.1 x.2, r = 0 := by decide +kernel
      have hzero := honly x hx _ (reservation?_of_reserves hq)
      omega

end Rejected

end Signbox
