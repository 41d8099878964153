import Signbox.Guard.Steps
import Signbox.Proof.Journal

/-!
# Finalising a reservation more than once

`commit` looks for the digest among all rows of the agent, its own reservation's included, and
neither `commit` nor `release` looks at the state of the rows it updates. So a reservation can
be finalised again, and what it counted before is not kept.

* `commit_commit_iff`: a second commit changes the table, unless it is of a duplicate.
* `released_iff`: what a commit after a release counts again.
* `countedOnce_iff`: how long a digest is counted, by one reservation.
* `finalised_final`: the three together, over every run.
-/

namespace Signbox

open Guard QuotaJournal

variable {rid : ℕ} {agent digest : JsString} {J : QuotaJournal}

/-! ## The rows of a reservation -/

namespace QuotaJournal

/-- The table has a row of the reservation: it was made, and is not pruned yet. -/
def Left (rid : ℕ) (J : QuotaJournal) : Prop := ∃ e ∈ J.rows, e.reservationId = rid

/-- All rows of the reservation are released. It also holds of a reservation that has no rows. -/
def Released (rid : ℕ) (J : QuotaJournal) : Prop :=
  ∀ e ∈ J.rows, e.reservationId = rid → e.state = .released

/-- In the sums and counts of the agent's windows, under the digest: the row carries the digest and
is not released. -/
def Counts (agent digest : JsString) (e : QuotaEvent) : Prop :=
  e.agent = agent ∧ e.digest = some digest ∧ e.state ≠ .released

/-- All rows of the reservation count under the digest, and no others do. So the digest is counted
once. -/
structure CountedBy (rid : ℕ) (agent digest : JsString) (J : QuotaJournal) : Prop where
  rows : ∀ e ∈ J.rows, e.reservationId = rid → Counts agent digest e
  only : ∀ e ∈ J.rows, Counts agent digest e → e.reservationId = rid

/-- A commit that counts what was released: no committed row carries its digest, so its rows become
committed. -/
def Recounts (rid : ℕ) (J : QuotaJournal) : JournalOp → Prop
  | .commit rid' agent digest => rid' = rid ∧ ¬ hasCommitted J.rows agent digest
  | _ => False

/-- An operation after which the reservation does not count under the digest, or not alone: it
finalises the reservation, or it commits the digest for another one of the agent, but names
another agent. -/
def Uncounts (rid : ℕ) (agent digest : JsString) (J : QuotaJournal) : JournalOp → Prop
  | .reserve .. => False
  | .release rid' => rid' = rid
  | .commit rid' agent' digest' =>
    if rid' = rid then hasCommitted J.rows agent' digest' ∨ digest' ≠ digest
    else digest' = digest ∧ ¬ hasCommitted J.rows agent' digest ∧
      ∃ e ∈ J.rows, e.reservationId = rid' ∧ e.agent = agent

end QuotaJournal

/-! ## What a run keeps -/

/-- Reservations are drawn in order, each for one agent, and a digest is attached by a commit.
Every run keeps this. -/
structure QuotaJournal.Drawn (J : QuotaJournal) : Prop where
  issued : ∀ e ∈ J.rows, e.reservationId < J.issued
  agents : ∀ e ∈ J.rows, ∀ e' ∈ J.rows, e.reservationId = e'.reservationId → e.agent = e'.agent
  marked : ∀ e ∈ J.rows, e.state = .reserved → e.digest = none

/-- The table after a reservation: as it was, or pruned and with rows of a new reservation. -/
theorem reserve_rows (J : QuotaJournal) (agent : JsString) (demands : List QuotaDemand)
    (nowMs : ℤ) : (J.reserve agent demands nowMs).1.rows = J.rows ∨
      (J.reserve agent demands nowMs).1.rows =
        prune J.rows nowMs ++ demands.map (eventOf J.issued agent nowMs) := by
  cases hr : J.reserve agent demands nowMs with
  | mk J' result =>
    cases result with
    | ok rid =>
      obtain ⟨rfl, -, hrows⟩ := reserve_ok hr
      exact Or.inr hrows
    | refused reason =>
      have hrefused : (J.reserve agent demands nowMs).2 = .refused reason := by rw [hr]
      have hrows := reserve_refused hrefused
      rw [hr] at hrows
      exact Or.inl hrows

theorem mem_reserve {demands : List QuotaDemand} {nowMs : ℤ} {e : QuotaEvent}
    (h : e ∈ (J.reserve agent demands nowMs).1.rows) :
    e ∈ J.rows ∨ e.reservationId = J.issued ∧ e.agent = agent ∧ e.digest = none := by
  rcases reserve_rows J agent demands nowMs with hrows | hrows
  · rw [hrows] at h
    exact Or.inl h
  · rw [hrows] at h
    rcases List.mem_append.1 h with h | h
    · exact Or.inl (List.mem_filter.1 h).1
    · obtain ⟨d, -, rfl⟩ := List.mem_map.1 h
      exact Or.inr ⟨rfl, rfl, rfl⟩

theorem mem_update {set : QuotaEvent → QuotaEvent} {rows : List QuotaEvent} {e : QuotaEvent} :
    e ∈ update rid set rows ↔
      (e ∈ rows ∧ e.reservationId ≠ rid) ∨ ∃ e₀ ∈ rows, e₀.reservationId = rid ∧ set e₀ = e := by
  unfold update
  rw [List.mem_map]
  constructor
  · rintro ⟨e₀, he₀, rfl⟩
    by_cases hrid : e₀.reservationId = rid
    · rw [if_pos hrid]
      exact Or.inr ⟨e₀, he₀, hrid, rfl⟩
    · rw [if_neg hrid]
      exact Or.inl ⟨he₀, hrid⟩
  · rintro (⟨he, hrid⟩ | ⟨e₀, he₀, hrid, rfl⟩)
    · exact ⟨e, he, by rw [if_neg hrid]⟩
    · exact ⟨e₀, he₀, by rw [if_pos hrid]⟩

theorem hasCommitted_iff {rows : List QuotaEvent} : hasCommitted rows agent digest ↔
    ∃ e ∈ rows, e.agent = agent ∧ e.digest = some digest ∧ e.state = .committed := by
  simp [hasCommitted]

/-- What a finalisation is to the rows, in one form. -/
theorem commit_rows (J : QuotaJournal) (rid : ℕ) (agent digest : JsString) :
    (J.commit rid agent digest).rows = update rid
      (if hasCommitted J.rows agent digest then toReleased else toCommitted digest) J.rows := by
  unfold commit
  split <;> rfl

theorem commit_issued (J : QuotaJournal) (rid : ℕ) (agent digest : JsString) :
    (J.commit rid agent digest).issued = J.issued := by
  unfold commit
  split <;> rfl

theorem journal_ext {J J' : QuotaJournal} (hrows : J.rows = J'.rows)
    (hissued : J.issued = J'.issued) : J = J' := by
  cases J
  cases J'
  exact QuotaJournal.mk.injEq .. ▸ ⟨hrows, hissued⟩

theorem left_update {set : QuotaEvent → QuotaEvent} {rid' n : ℕ} (hset : Finalising set) :
    Left rid ⟨update rid' set J.rows, n⟩ ↔ Left rid J := by
  have hid : ∀ e, (set e).reservationId = e.reservationId := by
    intro e
    obtain ⟨s, d, hse⟩ := hset e
    rw [hse]
  constructor
  · rintro ⟨e, he, hrid⟩
    rcases mem_update.1 he with ⟨he, -⟩ | ⟨e₀, he₀, -, rfl⟩
    · exact ⟨e, he, hrid⟩
    · rw [hid] at hrid
      exact ⟨e₀, he₀, hrid⟩
  · rintro ⟨e, he, hrid⟩
    by_cases hr : e.reservationId = rid'
    · exact ⟨set e, mem_update.2 (Or.inr ⟨e, he, hr, rfl⟩), by rw [hid, hrid]⟩
    · exact ⟨e, mem_update.2 (Or.inl ⟨he, hr⟩), hrid⟩

theorem QuotaJournal.Drawn.finalise {set : QuotaEvent → QuotaEvent} (h : J.Drawn) (hset : Finalising set)
    (hstate : ∀ e, (set e).state ≠ .reserved) (rid : ℕ) :
    Drawn ⟨update rid set J.rows, J.issued⟩ := by
  have hkeep : ∀ e ∈ update rid set J.rows, ∃ e₀ ∈ J.rows,
      e₀.reservationId = e.reservationId ∧ e₀.agent = e.agent ∧
        (e.state = .reserved → e = e₀) := by
    intro e he
    rcases mem_update.1 he with ⟨he, -⟩ | ⟨e₀, he₀, -, rfl⟩
    · exact ⟨e, he, rfl, rfl, fun _ => rfl⟩
    · obtain ⟨s, d, hse⟩ := hset e₀
      exact ⟨e₀, he₀, by rw [hse], by rw [hse], fun hr => absurd hr (hstate e₀)⟩
  constructor
  · intro e he
    obtain ⟨e₀, he₀, hrid, -⟩ := hkeep e he
    rw [← hrid]
    exact h.issued e₀ he₀
  · intro e he e' he' heq
    obtain ⟨e₀, he₀, hrid, hagent, -⟩ := hkeep e he
    obtain ⟨e₁, he₁, hrid', hagent', -⟩ := hkeep e' he'
    rw [← hagent, ← hagent']
    exact h.agents e₀ he₀ e₁ he₁ (by rw [hrid, hrid', heq])
  · intro e he hr
    obtain ⟨e₀, he₀, -, -, hsame⟩ := hkeep e he
    have heq := hsame hr
    rw [heq] at hr ⊢
    exact h.marked e₀ he₀ hr

theorem QuotaJournal.Drawn.apply (h : J.Drawn) (op : JournalOp) : (op.apply J).Drawn := by
  cases op with
  | reserve agent demands nowMs =>
    have hissued := reserve_issued J agent demands nowMs
    constructor
    · intro e he
      show e.reservationId < (J.reserve agent demands nowMs).1.issued
      rw [hissued]
      rcases mem_reserve he with he | ⟨hrid, -⟩
      · have hlt := h.issued e he
        omega
      · omega
    · intro e he e' he' heq
      rcases mem_reserve he with he | ⟨hrid, hagent, -⟩
      · have hlt := h.issued e he
        rcases mem_reserve he' with he' | ⟨hrid', -⟩
        · exact h.agents e he e' he' heq
        · omega
      · rcases mem_reserve he' with he' | ⟨-, hagent', -⟩
        · have hlt := h.issued e' he'
          omega
        · rw [hagent, hagent']
    · intro e he hr
      rcases mem_reserve he with he | ⟨-, -, hdigest⟩
      · exact h.marked e he hr
      · exact hdigest
  | commit rid agent digest =>
    show (J.commit rid agent digest).Drawn
    unfold commit
    split
    · exact h.finalise toReleased_finalising (fun _ => nofun) rid
    · exact h.finalise (toCommitted_finalising digest) (fun _ => nofun) rid
  | release rid => exact h.finalise toReleased_finalising (fun _ => nofun) rid

theorem drawn_after (ops : List JournalOp) : (journalAfter ops).Drawn := by
  have hempty : QuotaJournal.empty.Drawn := ⟨nofun, nofun, nofun⟩
  exact throughout_invariant (fun _ op h => h.apply op) hempty ops List.prefix_rfl

/-- Reserved, and of a table that reservations are drawn for: what the runs below start from
and keep. -/
def QuotaJournal.Issued (rid : ℕ) (J : QuotaJournal) : Prop := J.Drawn ∧ rid < J.issued

theorem QuotaJournal.Issued.apply (h : Issued rid J) (op : JournalOp) : Issued rid (op.apply J) := by
  refine ⟨h.1.apply op, ?_⟩
  have hlt := h.2
  cases op with
  | reserve agent demands nowMs =>
    have hissued := reserve_issued J agent demands nowMs
    show rid < (J.reserve agent demands nowMs).1.issued
    omega
  | commit rid' agent digest =>
    show rid < (J.commit rid' agent digest).issued
    rw [commit_issued]
    exact hlt
  | release rid' => exact hlt

/-- A reservation that is gone does not come back. -/
theorem left_of_apply (h : Issued rid J) {op : JournalOp} (hleft : Left rid (op.apply J)) :
    Left rid J := by
  cases op with
  | reserve agent demands nowMs =>
    obtain ⟨e, he, hrid⟩ := hleft
    rcases mem_reserve he with he | ⟨hnew, -⟩
    · exact ⟨e, he, hrid⟩
    · have hlt := h.2
      omega
  | commit rid' agent digest =>
    change Left rid (J.commit rid' agent digest) at hleft
    unfold commit at hleft
    split at hleft
    · exact (left_update toReleased_finalising).1 hleft
    · exact (left_update (toCommitted_finalising digest)).1 hleft
  | release rid' => exact (left_update toReleased_finalising).1 hleft

/-! ## A second commit -/

theorem update_eq_self {set : QuotaEvent → QuotaEvent} {rows : List QuotaEvent} :
    update rid set rows = rows ↔ ∀ e ∈ rows, e.reservationId = rid → set e = e := by
  unfold update
  constructor
  · intro h e he hrid
    have hid : ∀ e ∈ rows, (if e.reservationId = rid then set e else e) = e := by
      rw [← List.map_inj_left, h, List.map_id']
    have hset := hid e he
    rwa [if_pos hrid] at hset
  · intro h
    rw [List.map_congr_left (g := id), List.map_id]
    intro e he
    by_cases hrid : e.reservationId = rid
    · rw [if_pos hrid, h e he hrid, id]
    · rw [if_neg hrid, id]

/-- Another reservation's rows count the digest for the agent. A commit of this one then releases
it. -/
def QuotaJournal.Duplicate (rid : ℕ) (agent digest : JsString) (J : QuotaJournal) : Prop :=
  hasCommitted (J.rows.filter fun e => e.reservationId ≠ rid) agent digest

theorem duplicate_iff : Duplicate rid agent digest J ↔ ∃ e ∈ J.rows, e.reservationId ≠ rid ∧
    e.agent = agent ∧ e.digest = some digest ∧ e.state = .committed := by
  unfold Duplicate
  rw [hasCommitted_iff]
  simp only [List.mem_filter, decide_eq_true_eq, and_assoc]

/-- **A second commit** leaves the table as after the first exactly for a duplicate, and for a
reservation that has no rows of the agent. -/
theorem commit_commit_iff :
    (J.commit rid agent digest).commit rid agent digest = J.commit rid agent digest ↔
      Duplicate rid agent digest J ∨ ∀ e ∈ J.rows, e.reservationId = rid → e.agent ≠ agent := by
  have hrows : (J.commit rid agent digest).commit rid agent digest = J.commit rid agent digest ↔
      ((J.commit rid agent digest).commit rid agent digest).rows =
        (J.commit rid agent digest).rows := by
    exact ⟨congrArg QuotaJournal.rows, fun h => journal_ext h (commit_issued ..)⟩
  -- a second commit changes nothing exactly when it sets every row to what it is already
  rw [hrows, commit_rows, update_eq_self, commit_rows]
  by_cases hbefore : hasCommitted J.rows agent digest = true
  · -- the rows are released, and released again if the digest is still counted
    rw [if_pos hbefore]
    have hafter : hasCommitted (update rid toReleased J.rows) agent digest = true ↔
        Duplicate rid agent digest J := by
      rw [duplicate_iff, hasCommitted_iff]
      constructor
      · rintro ⟨e, he, hcounts⟩
        rcases mem_update.1 he with ⟨he, hrid⟩ | ⟨e₀, -, -, rfl⟩
        · exact ⟨e, he, hrid, hcounts⟩
        · exact absurd hcounts.2.2 nofun
      · rintro ⟨e, he, hrid, hcounts⟩
        exact ⟨e, mem_update.2 (Or.inl ⟨he, hrid⟩), hcounts⟩
    -- the digest that is counted is that of another reservation, or nobody's of this agent
    constructor
    · intro hsame
      by_contra hne
      rw [not_or] at hne
      obtain ⟨e, he, hagent, hdigest, hstate⟩ := hasCommitted_iff.1 hbefore
      have hrid : e.reservationId = rid := by
        by_contra hrid
        exact hne.1 (duplicate_iff.2 ⟨e, he, hrid, hagent, hdigest, hstate⟩)
      have hset := hsame (toReleased e) (mem_update.2 (Or.inr ⟨e, he, hrid, rfl⟩)) hrid
      rw [if_neg (fun h => hne.1 (hafter.1 h))] at hset
      exact absurd (congrArg QuotaEvent.state hset) nofun
    · intro hcond e he hrid
      have hdup : Duplicate rid agent digest J := by
        rcases hcond with hdup | hnone
        · exact hdup
        · obtain ⟨e, he, hagent, hdigest, hstate⟩ := hasCommitted_iff.1 hbefore
          exact duplicate_iff.2 ⟨e, he, fun hrid => hnone e he hrid hagent, hagent, hdigest, hstate⟩
      rw [if_pos (hafter.2 hdup)]
      rcases mem_update.1 he with ⟨-, hother⟩ | ⟨e₀, -, -, rfl⟩
      · exact absurd hrid hother
      · rfl
  · -- the rows are committed, and now they count the digest themselves
    rw [if_neg hbefore]
    have hafter : hasCommitted (update rid (toCommitted digest) J.rows) agent digest = true ↔
        ∃ e ∈ J.rows, e.reservationId = rid ∧ e.agent = agent := by
      rw [hasCommitted_iff]
      constructor
      · rintro ⟨e, he, hcounts⟩
        rcases mem_update.1 he with ⟨he, -⟩ | ⟨e₀, he₀, hrid, rfl⟩
        · exact absurd (hasCommitted_iff.2 ⟨e, he, hcounts⟩) hbefore
        · exact ⟨e₀, he₀, hrid, hcounts.1⟩
      · rintro ⟨e, he, hrid, hagent⟩
        exact ⟨toCommitted digest e, mem_update.2 (Or.inr ⟨e, he, hrid, rfl⟩), hagent, rfl, rfl⟩
    have hdup : ¬ Duplicate rid agent digest J := by
      intro h
      obtain ⟨e, he, -, hcounts⟩ := duplicate_iff.1 h
      exact hbefore (hasCommitted_iff.2 ⟨e, he, hcounts⟩)
    constructor
    · intro hsame
      refine Or.inr fun e he hrid hagent => ?_
      have hset := hsame _ (mem_update.2 (Or.inr ⟨e, he, hrid, rfl⟩)) hrid
      rw [if_pos (hafter.2 ⟨e, he, hrid, hagent⟩)] at hset
      exact absurd (congrArg QuotaEvent.state hset) nofun
    · intro hcond e he hrid
      have hnone := hcond.resolve_left hdup
      rw [if_neg fun h => by
        obtain ⟨e, he, hrid, hagent⟩ := hafter.1 h
        exact hnone e he hrid hagent]
      rcases mem_update.1 he with ⟨-, hother⟩ | ⟨e₀, -, -, rfl⟩
      · exact absurd hrid hother
      · rfl

/-! ## A commit after a release -/

/-- What a step does to the rows of a released reservation. -/
theorem released_step (h : Issued rid J) (hrel : Released rid J) (op : JournalOp) :
    Released rid (op.apply J) ↔ (Left rid J → ¬ Recounts rid J op) := by
  cases op with
  | reserve agent demands nowMs =>
    refine ⟨fun _ _ h => h, fun _ e he hrid => ?_⟩
    rcases mem_reserve he with he | ⟨hnew, -⟩
    · exact hrel e he hrid
    · have hlt := h.2
      omega
  | release rid' =>
    refine ⟨fun _ _ h => h, fun _ e he hrid => ?_⟩
    rcases mem_update.1 he with ⟨he, -⟩ | ⟨e₀, -, -, rfl⟩
    · exact hrel e he hrid
    · rfl
  | commit rid' agent digest =>
    show Released rid (J.commit rid' agent digest) ↔ _
    unfold Released
    rw [commit_rows]
    constructor
    · rintro hafter ⟨e, he, hrid⟩ ⟨rfl, hnew⟩
      have hstate := hafter _ (mem_update.2 (Or.inr ⟨e, he, hrid, rfl⟩))
      rw [if_neg hnew] at hstate
      exact absurd (hstate hrid) nofun
    · intro hok e he hrid
      rcases mem_update.1 he with ⟨he, -⟩ | ⟨e₀, he₀, hrid', rfl⟩
      · exact hrel e he hrid
      · by_cases hdup : hasCommitted J.rows agent digest = true
        · rw [if_pos hdup]
          rfl
        · -- it is a commit of this reservation, whose rows are there
          rw [if_neg hdup] at hrid
          have hsame : rid' = rid := hrid'.symm.trans hrid
          exact absurd ⟨hsame, hdup⟩ (hok ⟨e₀, he₀, hrid⟩)

/-- **After a release** the rows stay released exactly as long as no commit of the reservation
finds its digest not committed yet. -/
theorem released_iff (h : Issued rid J) (rest : List JournalOp) :
    Throughout JournalOp.apply (Released rid) (J.release rid) rest ↔
      EachStep JournalOp.apply (fun J op => Left rid J → ¬ Recounts rid J op)
        (J.release rid) rest := by
  refine throughout_iff (I := Issued rid) (fun _ op h => h.apply op)
    (fun J op hJ hrel => released_step hJ hrel op) (h.apply (.release rid)) ?_
  intro e he hrid
  rcases mem_update.1 he with ⟨-, hother⟩ | ⟨e₀, -, -, rfl⟩
  · exact absurd hrid hother
  · rfl

/-! ## A digest that is counted -/

theorem QuotaJournal.Counts.committed (h : J.Drawn) {e : QuotaEvent} (he : e ∈ J.rows)
    (hcounts : Counts agent digest e) : e.state = .committed := by
  cases hstate : e.state with
  | reserved =>
    have hnone := h.marked e he hstate
    exact absurd (hnone.symm.trans hcounts.2.1) nofun
  | committed => rfl
  | released => exact absurd hstate hcounts.2.2

/-- A commit of the digest by the reservation that counts it already changes nothing, where it
does not find the digest. -/
theorem toCommitted_self (h : J.Drawn) {e : QuotaEvent} (he : e ∈ J.rows)
    (hcounts : Counts agent digest e) : toCommitted digest e = e := by
  have hstate := hcounts.committed h he
  have hdigest := hcounts.2.1
  cases e
  simp only [toCommitted, QuotaEvent.mk.injEq, true_and, and_true]
  exact ⟨hdigest.symm, hstate.symm⟩

theorem counted_reserve (h : Issued rid J) (hc : CountedBy rid agent digest J)
    {agent' : JsString} {demands : List QuotaDemand} {nowMs : ℤ} :
    CountedBy rid agent digest (J.reserve agent' demands nowMs).1 := by
  constructor
  · intro e he hrid
    rcases mem_reserve he with he | ⟨hnew, -⟩
    · exact hc.rows e he hrid
    · have hlt := h.2
      omega
  · intro e he hcounts
    rcases mem_reserve he with he | ⟨-, -, hdigest⟩
    · exact hc.only e he hcounts
    · exact absurd (hdigest.symm.trans hcounts.2.1) nofun

theorem counted_release (hleft : Left rid J) (hc : CountedBy rid agent digest J) {rid' : ℕ} :
    CountedBy rid agent digest (J.release rid') ↔ rid' ≠ rid := by
  constructor
  · rintro hafter rfl
    obtain ⟨e, he, hrid⟩ := hleft
    exact (hafter.rows _ (mem_update.2 (Or.inr ⟨e, he, hrid, rfl⟩)) hrid).2.2 rfl
  · intro hne
    constructor
    · intro e he hrid
      rcases mem_update.1 he with ⟨he, -⟩ | ⟨e₀, -, hrid', rfl⟩
      · exact hc.rows e he hrid
      · exact absurd (hrid'.symm.trans hrid) hne
    · intro e he hcounts
      rcases mem_update.1 he with ⟨he, -⟩ | ⟨e₀, -, -, rfl⟩
      · exact hc.only e he hcounts
      · exact absurd rfl hcounts.2.2

theorem uncounts_commit {rid' : ℕ} {agent' digest' : JsString} :
    Uncounts rid agent digest J (.commit rid' agent' digest') ↔
      if rid' = rid then hasCommitted J.rows agent' digest' ∨ digest' ≠ digest
      else digest' = digest ∧ ¬ hasCommitted J.rows agent' digest ∧
        ∃ e ∈ J.rows, e.reservationId = rid' ∧ e.agent = agent := Iff.rfl

theorem counted_commit (h : J.Drawn) (hleft : Left rid J) (hc : CountedBy rid agent digest J)
    {rid' : ℕ} {agent' digest' : JsString} :
    CountedBy rid agent digest (J.commit rid' agent' digest') ↔
      ¬ Uncounts rid agent digest J (.commit rid' agent' digest') := by
  have hrows := commit_rows J rid' agent' digest'
  rw [uncounts_commit]
  by_cases hsame : rid' = rid
  · subst hsame
    rw [if_pos rfl]
    constructor
    · intro hafter hun
      obtain ⟨e, he, hrid⟩ := hleft
      have hrow := hafter.rows _ (by rw [hrows]; exact mem_update.2 (Or.inr ⟨e, he, hrid, rfl⟩))
      split at hrow
      · exact (hrow hrid).2.2 rfl
      · rename_i hnew
        have hdigest : some digest' = some digest := (hrow hrid).2.1
        rcases hun with hdup | hother
        · exact hnew hdup
        · exact hother (Option.some.inj hdigest)
    · intro hok
      rw [not_or, not_not] at hok
      obtain ⟨hnew, rfl⟩ := hok
      rw [if_neg hnew, update_eq_self.2] at hrows
      · constructor
        · rw [hrows]
          exact hc.rows
        · rw [hrows]
          exact hc.only
      · intro e he hrid
        exact toCommitted_self h he (hc.rows e he hrid)
  · rw [if_neg hsame]
    constructor
    · rintro hafter ⟨rfl, hnew, e, he, hrid, hagent⟩
      rw [if_neg hnew] at hrows
      have hrid' := hafter.only (toCommitted digest' e)
        (by rw [hrows]; exact mem_update.2 (Or.inr ⟨e, he, hrid, rfl⟩)) ⟨hagent, rfl, nofun⟩
      exact hsame (hrid.symm.trans hrid')
    · intro hok
      constructor
      · intro e he hrid
        rw [hrows] at he
        rcases mem_update.1 he with ⟨he, -⟩ | ⟨e₀, -, hrid', rfl⟩
        · exact hc.rows e he hrid
        · have hid : e₀.reservationId = rid := by
            split at hrid <;> exact hrid
          exact absurd (hrid'.symm.trans hid) hsame
      · intro e he hcounts
        rw [hrows] at he
        rcases mem_update.1 he with ⟨he, -⟩ | ⟨e₀, he₀, hrid', rfl⟩
        · exact hc.only e he hcounts
        · split at hcounts
          · exact absurd rfl hcounts.2.2
          · rename_i hnew
            -- the other reservation now counts a digest of its own
            have hdigest : digest' = digest := Option.some.inj hcounts.2.1
            subst hdigest
            exact absurd ⟨rfl, hnew, e₀, he₀, hrid', hcounts.1⟩ hok

/-- What a step does to a digest that is counted. -/
theorem counted_step (h : Issued rid J) (hc : Left rid J → CountedBy rid agent digest J)
    (op : JournalOp) : (Left rid (op.apply J) → CountedBy rid agent digest (op.apply J)) ↔
      (Left rid J → ¬ Uncounts rid agent digest J op) := by
  cases op with
  | reserve agent' demands nowMs =>
    refine ⟨fun _ _ h => h, fun _ hleft => ?_⟩
    exact counted_reserve h (hc (left_of_apply h hleft))
  | release rid' =>
    have hiff : Left rid (J.release rid') ↔ Left rid J := left_update toReleased_finalising
    show (Left rid (J.release rid') → _) ↔ _
    rw [hiff]
    exact forall_congr' fun hleft => counted_release hleft (hc hleft)
  | commit rid' agent' digest' =>
    have hiff : Left rid (J.commit rid' agent' digest') ↔ Left rid J := by
      unfold commit
      split
      · exact left_update toReleased_finalising
      · exact left_update (toCommitted_finalising digest')
    show (Left rid (J.commit rid' agent' digest') → _) ↔ _
    rw [hiff]
    exact forall_congr' fun hleft => counted_commit h.1 hleft (hc hleft)

/-- A row that is counted stays as it is, unless it is pruned. -/
theorem row_kept (h : J.Drawn) (hc : CountedBy rid agent digest J) {e : QuotaEvent}
    (he : e ∈ J.rows) (hrid : e.reservationId = rid) {op : JournalOp}
    (hok : ¬ Uncounts rid agent digest J op)
    (hyoung : ∀ t, op.now? = some t → t - RETENTION_MS ≤ e.createdAtMs) :
    e ∈ (op.apply J).rows := by
  cases op with
  | reserve agent' demands nowMs =>
    show e ∈ (J.reserve agent' demands nowMs).1.rows
    rcases reserve_rows J agent' demands nowMs with hrows | hrows
    · rw [hrows]
      exact he
    · have hage := hyoung nowMs rfl
      rw [hrows]
      refine List.mem_append_left _ (List.mem_filter.2 ⟨he, ?_⟩)
      rw [decide_eq_true_eq]
      omega
  | release rid' => exact mem_update.2 (Or.inl ⟨he, fun heq => hok (heq.symm.trans hrid)⟩)
  | commit rid' agent' digest' =>
    show e ∈ (J.commit rid' agent' digest').rows
    rw [commit_rows, mem_update]
    by_cases hsame : e.reservationId = rid'
    · rw [uncounts_commit, if_pos (hsame.symm.trans hrid), not_or, not_not] at hok
      obtain ⟨hnew, rfl⟩ := hok
      rw [if_neg hnew]
      exact Or.inr ⟨e, he, hsame, toCommitted_self h he (hc.rows e he hrid)⟩
    · exact Or.inl ⟨he, hsame⟩

/-- After a run from `J`, the digest is counted exactly once: by all rows of the reservation and
no others, as long as any are left, and its rows are there until they are pruned. -/
structure QuotaJournal.CountedOnce (rid : ℕ) (agent digest : JsString) (J : QuotaJournal)
    (run : List JournalOp) : Prop where
  counted : Left rid (run.foldl JournalOp.apply J) →
    CountedBy rid agent digest (run.foldl JournalOp.apply J)
  kept : ∀ e ∈ J.rows, e.reservationId = rid →
    (∀ t ∈ run.filterMap JournalOp.now?, t - RETENTION_MS ≤ e.createdAtMs) →
      e ∈ (run.foldl JournalOp.apply J).rows

theorem rows_kept {rest : List JournalOp} (h : Issued rid J)
    (hc : Left rid J → CountedBy rid agent digest J)
    (hok : EachStep JournalOp.apply (fun J op => Left rid J → ¬ Uncounts rid agent digest J op)
      J rest) {e : QuotaEvent} (he : e ∈ J.rows) (hrid : e.reservationId = rid)
    (hyoung : ∀ t ∈ rest.filterMap JournalOp.now?, t - RETENTION_MS ≤ e.createdAtMs) :
    e ∈ (rest.foldl JournalOp.apply J).rows := by
  induction rest generalizing J with
  | nil => exact he
  | cons op rest ih =>
    obtain ⟨hop, hrest⟩ := eachStep_cons.1 hok
    have hleft : Left rid J := ⟨e, he, hrid⟩
    have hkept : e ∈ (op.apply J).rows := by
      refine row_kept h.1 (hc hleft) he hrid (hop hleft) fun t ht => hyoung t ?_
      rw [List.filterMap_cons, ht]
      exact List.mem_cons_self
    refine ih (h.apply op) ((counted_step h hc op).2 hop) hrest hkept fun t ht => hyoung t ?_
    rw [List.mem_filterMap] at ht ⊢
    obtain ⟨op', hmem, hnow⟩ := ht
    exact ⟨op', List.mem_cons_of_mem op hmem, hnow⟩

/-- **How long a digest is counted** once: exactly as long as no operation un-counts it. A release
of its reservation does, and so do the commits that put another reservation or another digest in
its place. -/
theorem countedOnce_iff (h : Issued rid J) (hc : CountedBy rid agent digest J)
    (rest : List JournalOp) :
    (∀ run, run <+: rest → CountedOnce rid agent digest J run) ↔
      EachStep JournalOp.apply (fun J op => Left rid J → ¬ Uncounts rid agent digest J op)
        J rest := by
  have hcounted : Throughout JournalOp.apply (fun J => Left rid J → CountedBy rid agent digest J)
      J rest ↔ EachStep JournalOp.apply
        (fun J op => Left rid J → ¬ Uncounts rid agent digest J op) J rest :=
    throughout_iff (I := Issued rid) (fun _ op hJ => hJ.apply op)
      (fun J op hJ hP => counted_step hJ hP op) h (fun _ => hc)
  constructor
  · intro hall
    exact hcounted.1 fun run hrun => (hall run hrun).counted
  · intro hok run hrun
    refine ⟨hcounted.2 hok run hrun, fun e he hrid hyoung => ?_⟩
    exact rows_kept h (fun _ => hc) (hok.of_prefix hrun) he hrid hyoung

/-- The first commit of a digest makes it counted by its reservation. -/
theorem countedBy_commit (h : J.Drawn) (hnew : ¬ hasCommitted J.rows agent digest)
    (hrow : ∃ e ∈ J.rows, e.reservationId = rid ∧ e.agent = agent) :
    CountedBy rid agent digest (J.commit rid agent digest) := by
  have hrows := commit_rows J rid agent digest
  rw [if_neg hnew] at hrows
  obtain ⟨e₁, he₁, hrid₁, hagent₁⟩ := hrow
  constructor
  · intro e he hrid
    rw [hrows] at he
    rcases mem_update.1 he with ⟨-, hother⟩ | ⟨e₀, he₀, hrid₀, rfl⟩
    · exact absurd hrid hother
    · have hagent : e₀.agent = e₁.agent := h.agents e₀ he₀ e₁ he₁ (hrid₀.trans hrid₁.symm)
      exact ⟨hagent.trans hagent₁, rfl, nofun⟩
  · intro e he hcounts
    rw [hrows] at he
    rcases mem_update.1 he with ⟨he, -⟩ | ⟨e₀, -, hrid₀, rfl⟩
    · have hstate := hcounts.committed h he
      exact absurd (hasCommitted_iff.2 ⟨e, he, hcounts.1, hcounts.2.1, hstate⟩) hnew
    · exact hrid₀

/-! ## Over every run -/

/-- **Finalising again.** After every run of reservations, commits and releases:

* a second commit leaves the table as after the first exactly if the digest is counted by
  another reservation, or the reservation has no rows of the agent;
* in every state that follows a release of the reservation, its rows are released, exactly if
  each commit of it, while it has rows, finds its digest committed;
* in every state that follows the first commit of a digest, it is counted exactly once until
  it is pruned, exactly if no later operation un-counts it. -/
theorem finalised_final (ops : List JournalOp) (rid : ℕ) (agent digest : JsString) :
    (((journalAfter ops).commit rid agent digest).commit rid agent digest =
        (journalAfter ops).commit rid agent digest ↔
      Duplicate rid agent digest (journalAfter ops) ∨
        ∀ e ∈ (journalAfter ops).rows, e.reservationId = rid → e.agent ≠ agent) ∧
    (rid < (journalAfter ops).issued → ∀ rest,
      (Throughout JournalOp.apply (Released rid) ((journalAfter ops).release rid) rest ↔
        EachStep JournalOp.apply (fun J op => Left rid J → ¬ Recounts rid J op)
          ((journalAfter ops).release rid) rest)) ∧
    (¬ hasCommitted (journalAfter ops).rows agent digest →
      (∃ e ∈ (journalAfter ops).rows, e.reservationId = rid ∧ e.agent = agent) → ∀ rest,
        ((∀ run, run <+: rest →
            CountedOnce rid agent digest ((journalAfter ops).commit rid agent digest) run) ↔
          EachStep JournalOp.apply (fun J op => Left rid J → ¬ Uncounts rid agent digest J op)
            ((journalAfter ops).commit rid agent digest) rest)) := by
  have hdrawn := drawn_after ops
  refine ⟨commit_commit_iff, fun hissued rest => released_iff ⟨hdrawn, hissued⟩ rest, ?_⟩
  rintro hnew ⟨e, he, hrid, hagent⟩ rest
  have hissued : rid < (journalAfter ops).issued := hrid ▸ hdrawn.issued e he
  have hnext : Issued rid ((journalAfter ops).commit rid agent digest) :=
    QuotaJournal.Issued.apply ⟨hdrawn, hissued⟩ (.commit rid agent digest)
  exact countedOnce_iff hnext (countedBy_commit hdrawn hnew ⟨e, he, hrid, hagent⟩) rest

/-! A tip that is reserved, and finalised twice. -/

namespace Retried

open TwoTips

def ops : List JournalOp := [.reserve (js "bot") [tip] 0]

def sign : JournalOp := .commit 0 (js "bot") (js "d0")

def spent (ops : List JournalOp) : ℕ :=
  consumed (journalAfter ops).rows (js "bot") (js "tips") (js "XPR") 4 HOUR_MS 60000

/-- Retrying the commit un-counts the tip, and committing it after its release counts it: the
commit looks for the digest in every row, those of its reservation included, and not at the state
of its own. -/
theorem retry_uncounts :
    (spent (ops ++ [sign]) = 1000 ∧ spent (ops ++ [sign, sign]) = 0 ∧
      journalAfter (ops ++ [sign, sign]) ≠ journalAfter (ops ++ [sign])) ∧
    spent (ops ++ [.release 0]) = 0 ∧ spent (ops ++ [.release 0, sign]) = 1000 := by
  decide

/-- The commit can neither be retried nor follow a release, and a second tip that is committed
under the same digest leaves the first one counted. -/
theorem finalised_final_tip :
    (((journalAfter ops).commit 0 (js "bot") (js "d0")).commit 0 (js "bot") (js "d0") ≠
      (journalAfter ops).commit 0 (js "bot") (js "d0")) ∧
    ¬ Throughout JournalOp.apply (Released 0) ((journalAfter ops).release 0) [sign] ∧
    ∀ run, run <+: [.reserve (js "bot") [tip] 120000, .commit 1 (js "bot") (js "d0")] →
      CountedOnce 0 (js "bot") (js "d0") ((journalAfter ops).commit 0 (js "bot") (js "d0")) run := by
  obtain ⟨htwice, hreleased, hcounted⟩ := finalised_final ops 0 (js "bot") (js "d0")
  refine ⟨?_, ?_, ?_⟩
  · rw [Ne, htwice, not_or]
    have hrow : ∃ e ∈ (journalAfter ops).rows, e.reservationId = 0 ∧ e.agent = js "bot" := by decide
    obtain ⟨e, he, hrid, hagent⟩ := hrow
    have hdup : hasCommitted ((journalAfter ops).rows.filter fun e => e.reservationId ≠ 0)
        (js "bot") (js "d0") = false := by decide
    exact ⟨fun h => absurd (hdup.symm.trans h) nofun, fun hnone => hnone e he hrid hagent⟩
  · rw [hreleased (by decide), eachStep_cons]
    rintro ⟨hok, -⟩
    refine hok ?_ ⟨rfl, by decide⟩
    have hrow : ∃ e ∈ ((journalAfter ops).release 0).rows, e.reservationId = 0 := by decide
    exact hrow
  · refine (hcounted (by decide) (by decide) _).2 (eachStep_cons.2 ⟨fun _ h => h, ?_⟩)
    refine eachStep_cons.2 ⟨fun _ h => ?_, eachStep_nil⟩
    rw [uncounts_commit, if_neg (by decide)] at h
    exact h.2.1 (by decide)

end Retried

end Signbox
