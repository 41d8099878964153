import Signbox.Proof.Assigned
import Signbox.Proof.Contract
import Signbox.Proof.Evaluate

/-!
# The watermark of the policy cache

The cache accepts a row only when its version is not below the highest it has seen. Within a
version it accepts any state of the row, and so a stale `enabled`, `agentperm` or `authority`
can come back; across versions it cannot.

* `Stores`: the step stores a row for an agent. `shared_next`: what a step can do to the cache.
* `Since`: what the cache is after a row was stored, for as long as it runs, restarts included.
* `not_rolled_back`: no row that a published policy had superseded is stored again, and `get`
  returns no version below, except a policy in controlled grace that was loaded before.
* `Overlap.stale_accepted`: two reads overlap, and a disabled row is replaced by an enabled one.
-/

namespace Signbox

open Async Guard

/-- The cache with the calls that wait for a read or a store. -/
abbrev CacheWorld := World PolicyCache PolicyCache.Frame

/-- A call of the cache, an answer to one, or an operation of the administrator. -/
abbrev CacheEvent := Event PolicyCache.Request PolicyCache.Reply PolicyCache.Admin

namespace PolicyCache

variable {R : PolicyReading} {opts : PolicyCacheOptions} {cache cache' : PolicyCache}
variable {agent : JsString} {raw s₁ s₂ : PolicyRowRaw} {policy : Policy}
variable {w : CacheWorld} {e : CacheEvent}

/-! ## Steps -/

/-- The step stores `raw` as the row of the agent: it answers a read of that agent with the row,
which `refresh` accepts. -/
def Stores (R : PolicyReading) (opts : PolicyCacheOptions) (w : CacheWorld) (e : CacheEvent)
    (agent : JsString) (raw : PolicyRowRaw) : Prop :=
  ∃ t caller nowMs dbFails, e = .resume t (.row (some raw) nowMs dbFails) ∧
    w.tasks.lookup t = some (.reading agent caller) ∧
    (w.shared.accept R opts agent raw nowMs dbFails).2 = .ok

/-- A row is accepted when it is sound, and its version not below the highest seen. -/
theorem accept_ok {nowMs : ℤ} {dbFails : Bool}
    (h : (cache.accept R opts agent raw nowMs dbFails).2 = .ok) :
    ∃ policy, verifyStoredPolicy R raw.policyjson raw.policyhash = .ok (.ok policy) ∧
      cache.highestSeen agent ≤ raw.version ∧
      (cache.accept R opts agent raw nowMs dbFails).1 = cache.store opts agent raw policy nowMs := by
  unfold accept at h ⊢
  split at h
  · cases h
  · cases h
  case h_3 policy hverify =>
    split at h
    · cases h
    · split at h
      · cases h
      case isFalse hdb hseen => exact ⟨policy, hverify, not_lt.1 hseen, by simp [hdb, hseen]⟩

/-- A row that is not accepted changes nothing. -/
theorem accept_same {nowMs : ℤ} {dbFails : Bool}
    (h : (cache.accept R opts agent raw nowMs dbFails).2 ≠ .ok) :
    (cache.accept R opts agent raw nowMs dbFails).1 = cache := by
  unfold accept at h ⊢
  split
  · rfl
  · rfl
  · split
    · rfl
    · split
      · rfl
      case isFalse hdb hseen => simp_all

/-- The policy that a row of the table stands for. -/
def rowPolicy (row : CacheRow) (policy : Policy) : CachedPolicy where
  policy := policy
  version := row.version
  enabled := row.enabled = 1
  authority := row.authority
  permission := row.permission
  isFinancial := row.isFinancial = 1
  verifiedAtMs := row.verifiedAtMs

/-- What loading an agent's policy leaves and returns: the one in memory, none, or the one of the
table, which then is in memory. -/
inductive Loads (R : PolicyReading) (cache : PolicyCache) (agent : JsString) :
    PolicyCache × Option CachedPolicy → Prop
  | held (cached : CachedPolicy) (hmemory : cache.memory.lookup agent = some cached) :
    Loads R cache agent (cache, some cached)
  | absent (hmemory : cache.memory.lookup agent = none) : Loads R cache agent (cache, none)
  | hydrated (row : CacheRow) (doc : Json) (policy : Policy)
    (hmemory : cache.memory.lookup agent = none) (hrow : cache.db.lookup agent = some row)
    (hparse : R.parse row.policyjson = some doc)
    (hvalid : validatePolicy doc R.dialect = .ok policy) :
    Loads R cache agent
      ({ cache with memory := mapSet agent (rowPolicy row policy) cache.memory },
        some (rowPolicy row policy))

/-- A load finds the policy in memory, finds none, or puts the row of the database into memory; it
changes nothing else. -/
theorem load_cases : Loads R cache agent (cache.load R agent) := by
  unfold PolicyCache.load
  split
  case h_1 cached hmemory => exact .held cached hmemory
  case h_2 hmemory =>
    unfold PolicyCache.hydrate
    split
    · exact .absent hmemory
    case h_2 row hrow =>
      split
      case h_1 policy hpolicy =>
        obtain ⟨doc, hparse, hvalid⟩ := Option.map_eq_some_iff.1 hpolicy
        exact .hydrated row doc policy hmemory hrow hparse hvalid
      case h_2 => exact .absent hmemory

/-- What a step does to the cache: nothing, a load, a store, or the restart that empties the
memory. -/
inductive Changes (R : PolicyReading) (opts : PolicyCacheOptions) (w : CacheWorld)
    (e : CacheEvent) : PolicyCache → Prop
  | same : Changes R opts w e w.shared
  | loaded (agent : JsString) : Changes R opts w e (w.shared.load R agent).1
  | stored (agent : JsString) (raw : PolicyRowRaw) (policy : Policy) (nowMs : ℤ)
    (hstores : Stores R opts w e agent raw)
    (hverify : verifyStoredPolicy R raw.policyjson raw.policyhash = .ok (.ok policy))
    (hseen : w.shared.highestSeen agent ≤ raw.version) :
    Changes R opts w e (w.shared.store opts agent raw policy nowMs)
  | restarted : Changes R opts w e { w.shared with memory := [] }

/-- Finishing a refresh does not touch the cache, -/
theorem finish_state {caller : Option GetCall} {outcome : RefreshOutcome} :
    (finish cache agent caller outcome).state = cache := by
  cases caller <;> rfl

/-- nor does the end of a call, -/
theorem endGet_state {call : GetCall} {outcome : RefreshOutcome} :
    (endGet opts cache agent call outcome).state = cache := by
  unfold endGet
  split
  · rfl
  · split <;> rfl
  · split
    · split <;> rfl
    · rfl

/-- and its beginning at most loads the agent's row. -/
theorem startGet_state (R : PolicyReading) (opts : PolicyCacheOptions) (cache : PolicyCache)
    (agent : JsString) (nowMs : ℤ) (dbFails : Bool) :
    (startGet R opts cache agent nowMs dbFails).state = cache ∨
      (startGet R opts cache agent nowMs dbFails).state = (cache.load R agent).1 := by
  unfold startGet
  split
  · exact Or.inl rfl
  · refine Or.inr ?_
    dsimp only
    split
    · rfl
    · split <;> rfl

/-- The step stores `raw` as the row of the agent, at a time of the clock. -/
def StoresAt (R : PolicyReading) (opts : PolicyCacheOptions) (w : CacheWorld) (e : CacheEvent)
    (agent : JsString) (raw : PolicyRowRaw) (nowMs : ℤ) : Prop :=
  ∃ t caller dbFails, e = .resume t (.row (some raw) nowMs dbFails) ∧
    w.tasks.lookup t = some (.reading agent caller) ∧
    (w.shared.accept R opts agent raw nowMs dbFails).2 = .ok

/-- A store at a known time is a store. -/
theorem StoresAt.stores {nowMs : ℤ} (h : StoresAt R opts w e agent raw nowMs) :
    Stores R opts w e agent raw := by
  obtain ⟨t, caller, dbFails, h⟩ := h
  exact ⟨t, caller, nowMs, dbFails, h⟩

/-- What one segment of a task does to the cache: a load at the start, a store when a read ends, or
nothing. -/
inductive Runs (R : PolicyReading) (opts : PolicyCacheOptions) (w : CacheWorld)
    (e : CacheEvent) : PolicyCache → Prop
  | same : Runs R opts w e w.shared
  | loaded (agent : JsString) : Runs R opts w e (w.shared.load R agent).1
  | stored (agent : JsString) (raw : PolicyRowRaw) (policy : Policy) (nowMs : ℤ)
    (hstores : StoresAt R opts w e agent raw nowMs)
    (hverify : verifyStoredPolicy R raw.policyjson raw.policyhash = .ok (.ok policy))
    (hseen : w.shared.highestSeen agent ≤ raw.version) :
    Runs R opts w e (w.shared.store opts agent raw policy nowMs)

/-- What a segment leaves is one of the changes the cache can undergo. -/
theorem Runs.changes (h : Runs R opts w e cache) : Changes R opts w e cache := by
  cases h with
  | same => exact .same
  | loaded agent => exact .loaded agent
  | stored agent raw policy nowMs hstores hverify hseen =>
    exact .stored agent raw policy nowMs hstores.stores hverify hseen

/-- When the chain's row arrives it is stored, or the cache is left as it was. -/
theorem endRead_runs {t : ℕ} {caller : Option GetCall} {raw : Option PolicyRowRaw} {nowMs : ℤ}
    {dbFails : Bool} (he : e = .resume t (.row raw nowMs dbFails))
    (hf : w.tasks.lookup t = some (.reading agent caller)) :
    Runs R opts w e (endRead R opts w.shared agent caller raw nowMs dbFails).state := by
  cases raw with
  | none =>
    rw [endRead, finish_state]
    exact .same
  | some raw =>
    rw [endRead, finish_state]
    by_cases hok : (w.shared.accept R opts agent raw nowMs dbFails).2 = .ok
    · obtain ⟨policy, hverify, hseen, hstate⟩ := accept_ok hok
      rw [hstate]
      exact .stored agent raw policy nowMs ⟨t, caller, dbFails, he, hf, hok⟩ hverify hseen
    · rw [accept_same hok]
      exact .same

/-- The only ways in which a segment changes the cache. Every law about its contents starts
here. -/
theorem segment_runs {t : ℕ} {seg : Step} (h : (machine R opts).segment? w e = some (t, seg)) :
    Runs R opts w e seg.state := by
  rcases segment?_cases h with ⟨i, rfl, -, rfl⟩ | ⟨f, r, he, hf, hres⟩
  · cases i with
    | refresh agent => exact .same
    | get agent nowMs dbFails =>
      show Runs R opts w _ (startGet R opts w.shared agent nowMs dbFails).state
      rcases startGet_state R opts w.shared agent nowMs dbFails with hsame | hload
      · rw [hsame]
        exact .same
      · rw [hload]
        exact .loaded agent
  · cases f with
    | reading agent caller =>
      cases r with
      | row raw nowMs dbFails =>
        cases hres
        exact endRead_runs he hf
      | failed =>
        cases hres
        rw [finish_state]
        exact .same
      | resolved => cases hres
    | refreshed agent call outcome =>
      cases r with
      | resolved =>
        cases hres
        rw [endGet_state]
        exact .same
      | _ => cases hres

/-- **The step rule of the cache.** A step leaves the cache, loads a row, stores what it has read,
or restarts; nothing else changes it. -/
theorem shared_next (w : CacheWorld) (e : CacheEvent) :
    Changes R opts w e ((machine R opts).next w e).shared := by
  rcases next_cases (M := machine R opts) w e with
    ⟨t, seg, hseg, hshared, -, -⟩ | ⟨op, rfl, hshared, -⟩ | ⟨hsame, -⟩
  · rw [hshared]
    exact (segment_runs hseg).changes
  · cases op
    rw [hshared]
    exact .restarted
  · rw [hsame]
    exact .same

/-! ## After a row was stored -/

/-- `raw` is not older than `s₁`, which was read from the same row. At the same version it carries
the same policy. -/
structure NotOlder (s₁ raw : PolicyRowRaw) : Prop where
  version : s₁.version ≤ raw.version
  policy : raw.version = s₁.version →
    raw.policyjson = s₁.policyjson ∧ raw.policyhash = s₁.policyhash

/-- A loaded policy is not older than the row `s₁`. At the same version it is the one that `s₁` was
verified to hold. -/
structure Confirms (R : PolicyReading) (s₁ : PolicyRowRaw) (cached : CachedPolicy) : Prop where
  version : s₁.version ≤ cached.version
  policy : cached.version = s₁.version →
    verifyStoredPolicy R s₁.policyjson s₁.policyhash = .ok (.ok cached.policy)

/-- The cache has stored `s₁` for the agent, and nothing older since: neither the row nor the
loaded policy is. -/
structure Since (R : PolicyReading) (agent : JsString) (s₁ : PolicyRowRaw) (cache : PolicyCache) :
    Prop where
  verified : ∃ policy, verifyStoredPolicy R s₁.policyjson s₁.policyhash = .ok (.ok policy)
  row : ∃ row, cache.db.lookup agent = some row ∧ s₁.version ≤ row.version ∧
    s₁.version ≤ row.highestSeenVersion ∧
    (row.version = s₁.version → row.policyjson = s₁.policyjson)
  memory : ∀ cached, cache.memory.lookup agent = some cached → Confirms R s₁ cached

/-- The watermark is not below the row that was stored. -/
theorem Since.highestSeen (h : Since R agent s₁ cache) :
    s₁.version ≤ cache.highestSeen agent := by
  obtain ⟨row, hrow, -, hseen, -⟩ := h.row
  unfold PolicyCache.highestSeen
  rw [hrow]
  exact hseen

/-- A row that was verified parses, and validates to the same policy. -/
theorem verified_policy (h : verifyStoredPolicy R s₁.policyjson s₁.policyhash = .ok (.ok policy)) :
    ∃ doc, R.parse s₁.policyjson = some doc ∧ validatePolicy doc R.dialect = .ok policy := by
  unfold verifyStoredPolicy at h
  split at h
  · simp at h
  · split at h
    · simp at h
    case h_2 doc hparse =>
      refine ⟨doc, hparse, ?_⟩
      cases hcanonical : canonicalize doc with
      | error err => simp [hcanonical, Except.map] at h
      | ok canonical =>
        simp only [hcanonical, Except.map, Except.ok.injEq] at h
        split at h
        · cases h
        · cases hvalid : validatePolicy doc R.dialect with
          | error err => simp [hvalid] at h
          | ok policy' =>
            simp only [hvalid, Except.ok.injEq] at h
            rw [h]

/-- A row is not older than itself. -/
theorem NotOlder.refl (s₁ : PolicyRowRaw) : NotOlder s₁ s₁ := ⟨le_rfl, fun _ => ⟨rfl, rfl⟩⟩

/-- Storing a row that is not older. -/
theorem since_store {nowMs : ℤ} (hnot : NotOlder s₁ raw)
    (hverified : ∃ policy, verifyStoredPolicy R s₁.policyjson s₁.policyhash = .ok (.ok policy))
    (hverify : verifyStoredPolicy R raw.policyjson raw.policyhash = .ok (.ok policy)) :
    Since R agent s₁ (cache.store opts agent raw policy nowMs) where
  verified := hverified
  row := by
    refine ⟨_, (lookup_mapSet agent agent _ cache.db).trans (if_pos rfl), hnot.version, ?_,
      fun heq => (hnot.policy heq).1⟩
    dsimp only
    split
    · exact hnot.version
    · exact hnot.version.trans (le_max_right _ _)
  memory := by
    intro cached hcached
    unfold store at hcached
    rw [lookup_mapSet, if_pos rfl] at hcached
    cases hcached
    refine ⟨hnot.version, fun heq => ?_⟩
    obtain ⟨hjson, hhash⟩ := hnot.policy heq
    rw [← hjson, ← hhash]
    exact hverify

/-- A store for another agent keeps what is known of this one. -/
theorem Since.store_other {other : JsString} {nowMs : ℤ} (h : Since R agent s₁ cache)
    (hne : agent ≠ other) : Since R agent s₁ (cache.store opts other raw policy nowMs) where
  verified := h.verified
  row := by
    unfold store
    rw [lookup_mapSet, if_neg hne]
    exact h.row
  memory := by
    unfold store
    rw [lookup_mapSet, if_neg hne]
    exact h.memory

/-- What is loaded for the agent is not older, and loading keeps that. -/
theorem Since.load (h : Since R agent s₁ cache) (other : JsString) :
    Since R agent s₁ (cache.load R other).1 ∧
      (other = agent → ∀ cached, (cache.load R other).2 = some cached → Confirms R s₁ cached) := by
  have hload : Loads R cache other (cache.load R other) := load_cases
  generalize cache.load R other = loaded at hload ⊢
  cases hload with
  | held cached hcached =>
    refine ⟨h, ?_⟩
    rintro rfl cached' heq
    cases heq
    exact h.memory cached hcached
  | absent => exact ⟨h, fun _ cached hcached => by cases hcached⟩
  | hydrated row doc policy hmemory hrow hparse hvalid =>
    have hconfirms : other = agent → Confirms R s₁ (rowPolicy row policy) := by
      rintro rfl
      obtain ⟨row', hrow', hversion, -, hjson⟩ := h.row
      rw [hrow] at hrow'
      cases hrow'
      refine ⟨hversion, fun heq => ?_⟩
      -- the row of this version has the text of `s₁`, which validates to one policy only
      obtain ⟨policy', hpolicy⟩ := h.verified
      obtain ⟨doc', hparse', hvalid'⟩ := verified_policy hpolicy
      rw [← hjson heq, hparse] at hparse'
      cases hparse'
      rw [hvalid] at hvalid'
      cases hvalid'
      exact hpolicy
    refine ⟨⟨h.verified, h.row, fun cached hcached => ?_⟩, fun heq cached hcached => ?_⟩
    · rw [lookup_mapSet] at hcached
      split at hcached
      case isTrue heq =>
        cases hcached
        exact hconfirms heq.symm
      case isFalse => exact h.memory cached hcached
    · cases hcached
      exact hconfirms heq

/-- **One step**: the cache keeps what it has stored, if rows of one version are of one policy. An
older row that is read is refused at the watermark. -/
theorem Since.step (h : Since R agent s₁ w.shared)
    (hread : ∀ raw, Stores R opts w e agent raw → raw.version = s₁.version →
      raw.policyjson = s₁.policyjson ∧ raw.policyhash = s₁.policyhash) :
    Since R agent s₁ ((machine R opts).next w e).shared := by
  have hchange : Changes R opts w e ((machine R opts).next w e).shared := shared_next w e
  generalize ((machine R opts).next w e).shared = cache' at hchange
  cases hchange with
  | same => exact h
  | loaded other => exact (h.load other).1
  | stored other raw policy nowMs hstores hverify hseen =>
    by_cases heq : agent = other
    · subst heq
      have hversion : s₁.version ≤ raw.version := h.highestSeen.trans hseen
      exact since_store ⟨hversion, hread raw hstores⟩ h.verified hverify
    · exact h.store_other heq
  | restarted => exact ⟨h.verified, h.row, fun cached hcached => by cases hcached⟩

/-- **A run**, after a row was stored: nothing older is stored in it. By induction on the events,
one step at a time. -/
theorem Since.run {es : List CacheEvent} (h : Since R agent s₁ w.shared)
    (hread : ∀ x ∈ (machine R opts).history w es, ∀ raw, Stores R opts x.1 x.2 agent raw →
      raw.version = s₁.version → raw.policyjson = s₁.policyjson ∧ raw.policyhash = s₁.policyhash) :
    Since R agent s₁ ((machine R opts).run w es).shared := by
  induction es generalizing w with
  | nil => exact h
  | cons e es ih =>
    rw [Machine.history, List.forall_mem_cons] at hread
    exact ih (h.step hread.1) hread.2

/-- A store verifies the row and then puts it into both memory and database. -/
theorem Stores.next_shared (hstores : Stores R opts w e agent raw) :
    ∃ policy nowMs, verifyStoredPolicy R raw.policyjson raw.policyhash = .ok (.ok policy) ∧
      ((machine R opts).next w e).shared = w.shared.store opts agent raw policy nowMs := by
  obtain ⟨t, caller, nowMs, dbFails, rfl, hf, hok⟩ := hstores
  obtain ⟨policy, hverify, -, hstate⟩ := accept_ok hok
  have hseg : (machine R opts).segment? w (.resume t (.row (some raw) nowMs dbFails)) =
      some (t, endRead R opts w.shared agent caller (some raw) nowMs dbFails) :=
    segment?_resume.2 ⟨rfl, _, hf, rfl⟩
  refine ⟨policy, nowMs, hverify, ?_⟩
  rw [Async.next_shared hseg, endRead, finish_state, hstate]

/-- The step that stores a row starts it. -/
theorem Stores.since (hstores : Stores R opts w e agent s₁) :
    Since R agent s₁ ((machine R opts).next w e).shared := by
  obtain ⟨policy, nowMs, hverify, hnext⟩ := hstores.next_shared
  rw [hnext]
  exact since_store (.refl s₁) ⟨policy, hverify⟩ hverify

/-! ## What `get` returns -/

/-- Task `t` is a `get` for the agent that had this policy loaded when it was called. Grace can
return only this one. -/
def CalledWith (R : PolicyReading) (h : List (CacheWorld × CacheEvent)) (t : ℕ) (agent : JsString)
    (call : GetCall) : Prop :=
  ∃ w dbFails, (w, .start (.get agent call.nowMs dbFails)) ∈ h ∧ w.started = t ∧
    (w.shared.load R agent).2 = call.cached

/-- What a suspended task has behind it. -/
def Behind (R : PolicyReading) (h : List (CacheWorld × CacheEvent)) (t : ℕ) : Frame → Prop
  | .reading agent (some call) => CalledWith R h t agent call
  | .reading _ none => True
  | .refreshed agent call _ => CalledWith R h t agent call

/-- What a history shows of a call, a longer one shows too. -/
theorem CalledWith.mono {h h' : List (CacheWorld × CacheEvent)} {t : ℕ} {call : GetCall}
    (hc : CalledWith R h t agent call) (hsub : h ⊆ h') : CalledWith R h' t agent call := by
  obtain ⟨w, dbFails, hmem, hrest⟩ := hc
  exact ⟨w, dbFails, hsub hmem, hrest⟩

/-- The same of what stands behind a waiting call. -/
theorem Behind.mono {h h' : List (CacheWorld × CacheEvent)} {t : ℕ} {f : Frame}
    (hb : Behind R h t f) (hsub : h ⊆ h') : Behind R h' t f := by
  cases f with
  | reading agent caller =>
    cases caller with
    | none => trivial
    | some call => exact CalledWith.mono hb hsub
  | refreshed agent call outcome => exact CalledWith.mono hb hsub

/-- After a refresh the call waits only if there is a caller to be answered. -/
theorem finish_frame {caller : Option GetCall} {outcome : RefreshOutcome} {f : Frame}
    (h : (finish cache agent caller outcome).next = .inl f) :
    ∃ call, caller = some call ∧ f = .refreshed agent call outcome := by
  cases caller with
  | none => cases h
  | some call =>
    cases h
    exact ⟨call, rfl, rfl⟩

/-- A call that waits for the chain holds what it had loaded before. -/
theorem startGet_frame {nowMs : ℤ} {dbFails : Bool} {f : Frame}
    (h : (startGet R opts cache agent nowMs dbFails).next = .inl f) :
    f = .reading agent (some ⟨nowMs, (cache.load R agent).2⟩) := by
  unfold startGet at h
  split at h
  · cases h
  · dsimp only at h
    split at h
    · cases h
      rfl
    · split at h <;> cases h

/-- After its refresh a `get` ends. -/
theorem endGet_done {call : GetCall} {outcome : RefreshOutcome} {f : Frame} :
    (endGet opts cache agent call outcome).next ≠ .inl f := by
  intro h
  unfold endGet at h
  split at h
  · cases h
  · split at h <;> cases h
  · split at h
    · split at h <;> cases h
    · cases h

/-- Every suspended `get` has the policy it had loaded when it was called. -/
theorem frames_behind (cache : PolicyCache) (es : List CacheEvent) :
    ∀ tf ∈ ((machine R opts).run (boot cache) es).tasks,
      Behind R ((machine R opts).history (boot cache) es) tf.1 tf.2 := by
  refine frames_hold (K := Behind R) ?_ ?_ (wf_boot cache) (by simp [boot]) es
  · exact fun h x t f hb => hb.mono (List.subset_append_left _ _)
  · intro h w e t seg f _ hK hseg hnext
    have hmono : ∀ {t f}, Behind R h t f → Behind R (h ++ [(w, e)]) t f := fun hb =>
      hb.mono (List.subset_append_left _ _)
    rcases segment?_cases hseg with ⟨i, rfl, rfl, rfl⟩ | ⟨f₀, r, rfl, hf, hres⟩
    · cases i with
      | refresh agent =>
        cases hnext
        trivial
      | get agent nowMs dbFails =>
        rw [startGet_frame hnext]
        exact ⟨w, dbFails, by simp, rfl, rfl⟩
    · have hb := hmono (hK _ (mem_of_lookup hf))
      cases f₀ with
      | reading agent caller =>
        have hfinish : ∀ {cache : PolicyCache} {outcome},
            (finish cache agent caller outcome).next = .inl f →
              Behind R (h ++ [(w, .resume t r)]) t f := by
          intro cache outcome hnext
          obtain ⟨call, rfl, rfl⟩ := finish_frame hnext
          exact hb
        cases r with
        | row raw nowMs dbFails =>
          cases hres
          cases raw <;> exact hfinish hnext
        | failed =>
          cases hres
          exact hfinish hnext
        | resolved => cases hres
      | refreshed agent call outcome =>
        cases r with
        | resolved =>
          cases hres
          exact absurd hnext endGet_done
        | _ => cases hres

/-- Where a policy that `get` returns comes from: the cache at the call, the memory after its
refresh, or what it had loaded. -/
inductive Returned (R : PolicyReading) (opts : PolicyCacheOptions) (w : CacheWorld) (e : CacheEvent)
    (t : ℕ) (agent : JsString) (cached : CachedPolicy) : Prop
  | fresh (nowMs : ℤ) (dbFails : Bool) (he : e = .start (.get agent nowMs dbFails))
    (hdb : ¬ (dbFails ∧ w.shared.memory.lookup agent = none))
    (hload : (w.shared.load R agent).2 = some cached) (hfresh : ¬ stale opts (some cached) nowMs)
  | confirmed (call : GetCall) (he : e = .resume t .resolved)
    (hf : w.tasks.lookup t = some (.refreshed agent call .ok))
    (hmemory : w.shared.memory.lookup agent = some cached)
  | graced (call : GetCall) (reason : RefreshFailure) (he : e = .resume t .resolved)
    (hf : w.tasks.lookup t = some (.refreshed agent call (.failed reason)))
    (hcached : call.cached = some cached) (hgraced : graced opts cached call.nowMs)

/-- A call that is answered at once is answered from a fresh row of its own agent. -/
theorem startGet_returned {agent' : JsString} {cached : CachedPolicy} {nowMs : ℤ} {dbFails : Bool}
    (h : (startGet R opts cache agent' nowMs dbFails).next = .inr (.policy agent cached)) :
    agent' = agent ∧ ¬ (dbFails ∧ cache.memory.lookup agent = none) ∧
      (cache.load R agent).2 = some cached ∧ ¬ stale opts (some cached) nowMs := by
  unfold startGet at h
  split at h
  · cases h
  case isFalse hdb =>
    dsimp only at h
    split at h
    · cases h
    case isFalse hfresh =>
      split at h
      · cases h
      case h_2 cached' hload =>
        cases h
        rw [hload] at hfresh
        exact ⟨rfl, hdb, hload, hfresh⟩

/-- After a refresh a call is answered from memory, or with the value it held if the chain could
not be reached and the grace period allows it. -/
theorem endGet_returned {agent' : JsString} {cached : CachedPolicy} {call : GetCall}
    {outcome : RefreshOutcome}
    (h : (endGet opts cache agent' call outcome).next = .inr (.policy agent cached)) :
    agent' = agent ∧ (outcome = .ok ∧ cache.memory.lookup agent = some cached ∨
      (∃ reason, outcome = .failed reason) ∧ call.cached = some cached ∧
        graced opts cached call.nowMs) := by
  unfold endGet at h
  split at h
  · cases h
  · split at h
    case h_1 cached' hmemory =>
      cases h
      exact ⟨rfl, Or.inl ⟨rfl, hmemory⟩⟩
    · cases h
  case h_3 reason =>
    split at h
    case h_1 cached' hcached =>
      split at h
      case isTrue hgraced =>
        cases h
        exact ⟨rfl, Or.inr ⟨⟨reason, rfl⟩, hcached, hgraced⟩⟩
      · cases h
    · cases h

/-- A policy is returned at the start of a `get`, or at its end. -/
theorem returned_cases {t : ℕ} {cached : CachedPolicy}
    (hout : (t, .done (.policy agent cached)) ∈ (machine R opts).outputs w e) :
    Returned R opts w e t agent cached := by
  obtain ⟨seg, hseg, hdone⟩ := mem_outputs.1 hout
  rw [done_mem_outputs] at hdone
  have hfinish : ∀ {cache : PolicyCache} {agent' caller outcome},
      (finish cache agent' caller outcome).next ≠ .inr (.policy agent cached) := by
    intro cache agent' caller outcome
    cases caller <;> simp [finish]
  rcases segment?_cases hseg with ⟨i, rfl, -, rfl⟩ | ⟨f, r, rfl, hf, hres⟩
  · cases i with
    | refresh agent' => cases hdone
    | get agent' nowMs dbFails =>
      obtain ⟨rfl, hdb, hload, hfresh⟩ := startGet_returned hdone
      exact .fresh nowMs dbFails rfl hdb hload hfresh
  · cases f with
    | reading agent' caller =>
      -- a refresh ends here, and `get` only goes on when its promise is resolved
      cases r with
      | row raw nowMs dbFails =>
        cases hres
        cases raw <;> exact absurd hdone hfinish
      | failed =>
        cases hres
        exact absurd hdone hfinish
      | resolved => cases hres
    | refreshed agent' call outcome =>
      cases r with
      | resolved =>
        cases hres
        obtain ⟨rfl, ⟨rfl, hmemory⟩ | ⟨⟨reason, rfl⟩, hcached, hgraced⟩⟩ := endGet_returned hdone
        · exact .confirmed call rfl hf hmemory
        · exact .graced call reason rfl hf hcached hgraced
      | _ => cases hres

/-- What `get` returns after `s₁` was stored: a policy that is not older or, in controlled
grace, the one it had loaded when it was called. -/
theorem Since.returned (h : Since R agent s₁ w.shared) {t : ℕ} {cached : CachedPolicy}
    (hout : (t, .done (.policy agent cached)) ∈ (machine R opts).outputs w e) :
    Confirms R s₁ cached ∨ opts.strict = false ∧ ∃ call outcome,
      w.tasks.lookup t = some (.refreshed agent call outcome) ∧ call.cached = some cached := by
  cases returned_cases hout with
  | fresh nowMs dbFails he hdb hload hfresh => exact Or.inl ((h.load agent).2 rfl cached hload)
  | confirmed call he hf hmemory => exact Or.inl (h.memory cached hmemory)
  | graced call reason he hf hcached hgraced =>
    refine Or.inr ⟨?_, call, _, hf, hcached⟩
    unfold PolicyCache.graced at hgraced
    simp only [Bool.and_eq_true, Bool.not_eq_eq_eq_not, Bool.not_true] at hgraced
    exact hgraced.1

/-! ## Reads of the chain -/

open SignboxContract

variable {sha256 : List UInt8 → List UInt8} {actions : List (ContractAction × ActionContext)}

/-- Every row that is read for the agent is a state of its row in the history of the chain. Which
state is left open. -/
def ReadsChain (sha256 : List UInt8 → List UInt8) (actions : List (ContractAction × ActionContext))
    (agent : JsString) (h : List (CacheWorld × CacheEvent)) : Prop :=
  ∀ w t raw nowMs dbFails caller, (w, .resume t (.row (some raw) nowMs dbFails)) ∈ h →
    w.tasks.lookup t = some (.reading agent caller) →
    ∃ n row, rowAt sha256 actions agent n = some row ∧ row.raw = raw

/-- A policy was published between the state `s₂` of the row and its state `s₁`, so the version has
risen. -/
def Superseded (sha256 : List UInt8 → List UInt8) (actions : List (ContractAction × ActionContext))
    (agent : JsString) (s₂ s₁ : PolicyRowRaw) : Prop :=
  ∃ i j k row₂ row₁, rowAt sha256 actions agent i = some row₂ ∧ row₂.raw = s₂ ∧
    rowAt sha256 actions agent j = some row₁ ∧ row₁.raw = s₁ ∧ i ≤ k ∧ k < j ∧
    PublishedAt sha256 actions agent k

/-- Rows of one version are of one policy. -/
theorem newer_policy {row row' : PolicyRow} (h : Newer row row')
    (heq : row'.raw.version = row.raw.version) : row'.raw.policyjson = row.raw.policyjson ∧
      row'.raw.policyhash = row.raw.policyhash := by
  rcases h with hlt | ⟨-, hjson, hhash⟩
  · have hversion : row.raw.version < row'.raw.version :=
      Int.ofNat_lt.2 (UInt32.lt_iff_toNat_lt.1 hlt)
    exact absurd heq hversion.ne'
  · exact ⟨hjson, congrArg hex hhash⟩

/-- Two states of a row with one version hold one policy, since each change of the policy raises
the version. -/
theorem policy_of_version {i j : ℕ} {row row' : PolicyRow}
    (hi : rowAt sha256 actions agent i = some row) (hj : rowAt sha256 actions agent j = some row')
    (heq : row'.raw.version = row.raw.version) : row'.raw.policyjson = row.raw.policyjson ∧
      row'.raw.policyhash = row.raw.policyhash := by
  rcases Nat.le_total i j with hij | hij
  · obtain ⟨row'', hrow, hnewer⟩ := rowAt_newer hij hi
    rw [hj] at hrow
    cases hrow
    exact newer_policy hnewer heq
  · obtain ⟨row'', hrow, hnewer⟩ := rowAt_newer hij hj
    rw [hi] at hrow
    cases hrow
    obtain ⟨hjson, hhash⟩ := newer_policy hnewer heq.symm
    exact ⟨hjson.symm, hhash.symm⟩

/-- A row that is stored is one that the chain held at some moment. -/
theorem Stores.row {h : List (CacheWorld × CacheEvent)} (hstores : Stores R opts w e agent raw)
    (hreads : ReadsChain sha256 actions agent h) (hmem : (w, e) ∈ h) :
    ∃ n row, rowAt sha256 actions agent n = some row ∧ row.raw = raw := by
  obtain ⟨t, caller, nowMs, dbFails, rfl, hf, -⟩ := hstores
  exact hreads w t raw nowMs dbFails caller hmem hf

/-- A row that is not older has not been superseded by this one. -/
theorem NotOlder.not_superseded (h : NotOlder s₁ s₂) :
    ¬ Superseded sha256 actions agent s₂ s₁ := by
  rintro ⟨i, j, k, row₂, row₁, hi, rfl, hj, rfl, hik, hkj, hk⟩
  have hlt : row₂.raw.version < row₁.raw.version :=
    Int.ofNat_lt.2 (UInt32.lt_iff_toNat_lt.1 (version_lt_of_published hi hj hik hkj hk))
  exact absurd h.version (not_le.2 hlt)

end PolicyCache

open PolicyCache in
/-- **No rollback across versions.** Whatever states of an agent's row the reads return, in
whatever order, restarts included: after the cache has stored `s₁` it stores no row that is
older, and so none that a published policy had superseded when `s₁` was current; and `get`
returns no policy that is older, unless in controlled grace one that it had loaded when it
was called. -/
theorem not_rolled_back (R : PolicyReading) (opts : PolicyCacheOptions)
    (sha256 : List UInt8 → List UInt8) (actions : List (ContractAction × ActionContext))
    (agent : JsString) (cache : PolicyCache) (es : List CacheEvent)
    (hreads : ReadsChain sha256 actions agent ((machine R opts).history (boot cache) es)) :
    ∀ pre e₁ mid e₂ post s₁, es = pre ++ e₁ :: (mid ++ e₂ :: post) →
      Stores R opts ((machine R opts).run (boot cache) pre) e₁ agent s₁ →
      (∀ s₂, Stores R opts ((machine R opts).run (boot cache) (pre ++ e₁ :: mid)) e₂ agent s₂ →
        NotOlder s₁ s₂ ∧ ¬ Superseded sha256 actions agent s₂ s₁) ∧
      ∀ t cached, (t, .done (.policy agent cached)) ∈ (machine R opts).outputs
          ((machine R opts).run (boot cache) (pre ++ e₁ :: mid)) e₂ →
        Confirms R s₁ cached ∨ opts.strict = false ∧ ∃ call,
          CalledWith R ((machine R opts).history (boot cache) (pre ++ e₁ :: mid)) t agent call ∧
          call.cached = some cached := by
  intro pre e₁ mid e₂ post s₁ hes hstores
  have hes' : es = (pre ++ e₁ :: mid) ++ e₂ :: post := by rw [hes]; simp
  have hrun : (machine R opts).run (boot cache) (pre ++ e₁ :: mid) = (machine R opts).run
      ((machine R opts).next ((machine R opts).run (boot cache) pre) e₁) mid := by
    rw [run_append]
    rfl
  have hmid : (machine R opts).history ((machine R opts).next ((machine R opts).run (boot cache) pre)
      e₁) mid ⊆ (machine R opts).history (boot cache) es := by
    rw [hes', history_append, history_append]
    intro x hx
    exact List.mem_append_left _ (List.mem_append_right _ (List.mem_cons_of_mem _ hx))
  -- what was stored is a state of the row on the chain
  obtain ⟨i, row₁, hrow₁, rfl⟩ := hstores.row hreads (by rw [hes]; exact mem_history)
  -- rows of its version hold its policy, since a new policy raises the version
  have hpolicy : ∀ x ∈ (machine R opts).history (boot cache) es,
      ∀ raw, Stores R opts x.1 x.2 agent raw → raw.version = row₁.raw.version →
        raw.policyjson = row₁.raw.policyjson ∧ raw.policyhash = row₁.raw.policyhash := by
    intro x hx raw hraw heq
    obtain ⟨j, row, hrow, rfl⟩ := hraw.row hreads hx
    exact policy_of_version hrow₁ hrow heq
  -- so the cache keeps it until the later event
  have hsince : Since R agent row₁.raw
      ((machine R opts).run (boot cache) (pre ++ e₁ :: mid)).shared := by
    rw [hrun]
    exact hstores.since.run fun x hx => hpolicy x (hmid hx)
  refine ⟨fun s₂ hstores₂ => ?_, fun t cached hout => ?_⟩
  -- a row below the watermark would have been refused
  · have hnot : NotOlder row₁.raw s₂ := by
      refine ⟨?_, hpolicy (_, e₂) (by rw [hes']; exact mem_history) s₂ hstores₂⟩
      obtain ⟨t, caller, nowMs, dbFails, -, -, hok⟩ := hstores₂
      obtain ⟨policy, -, hseen, -⟩ := accept_ok hok
      exact hsince.highestSeen.trans hseen
    exact ⟨hnot, hnot.not_superseded⟩
  · refine (hsince.returned hout).imp_right fun ⟨hstrict, call, outcome, hf, hcached⟩ => ?_
    exact ⟨hstrict, call, frames_behind cache _ _ (mem_of_lookup hf), hcached⟩

/-! ## A chain and two runs -/

namespace Sample

/-- The capped policy as the contract stores it. -/
def policyText : JsString := js "\x7b\"chain\":\x7b\"chainId\":\"" ++ chainId ++
  ["\",\"name\":\"xpr\"\x7d,", "\"default\":\"deny\",", "\"rules\":[\x7b",
    "\"effect\":\"allow\",", "\"id\":\"pay\",", "\"limits\":\x7b", "\"maxPerTransaction\":",
    "\"5.0000 XPR\"\x7d,", "\"match\":\x7b", "\"action\":\"transfer\"", "\x7d\x7d],",
    "\"schemaVersion\":1\x7d"].flatMap js

/-- The digest of the stored policy, as bytes. -/
def policyHash : List UInt8 :=
  [135, 157, 109, 255, 95, 78, 51, 61, 146, 241, 142, 183, 143, 229, 135, 195, 8, 143, 139, 252,
    181, 178, 125, 165, 48, 213, 254, 41, 233, 2, 49, 154]

/-- SHA-256 and `JSON.parse`, on the text of the capped policy. -/
def sha256 (bytes : List UInt8) : List UInt8 := if bytes = utf8 policyText then policyHash else []

/-- The stored policy as a document. -/
def storedDoc : Json := .obj .ordinary
  [(js "chain", .obj .ordinary [(js "chainId", .str chainId), (js "name", text "xpr")]),
    (js "default", text "deny"),
    (js "rules", .arr [.obj .ordinary
      [(js "effect", text "allow"), (js "id", text "pay"),
        (js "limits", .obj .ordinary [(js "maxPerTransaction", text "5.0000 XPR")]),
        (js "match", .obj .ordinary [(js "action", text "transfer")])]]),
    (js "schemaVersion", number 1)]

/-- How the example reads stored policies. -/
def reading : PolicyReading where
  sha256 bytes := hex (sha256 bytes)
  parse source := if source = policyText then some storedDoc else none
  dialect := xprDialect

/-- A transaction signed by the agent and its authority. -/
def signedAt (currentTimeMs : UInt64) : ActionContext :=
  ⟨[js "owner", js "bot"], fun _ => true, currentTimeMs⟩

/-- The policy of the agent is created, the agent is disabled, and a second version published. -/
def chain : List (ContractAction × ActionContext) :=
  [(.createpolicy (js "bot") (js "owner") (js "active") 1 policyHash policyText,
      signedAt 1783512000000),
    (.disable (js "bot"), signedAt 1783512001000),
    (.setpolicy (js "bot") 2 policyHash policyText, signedAt 1783512002000)]

/-- The row as it was created, -/
def created : PolicyRow :=
  ⟨js "bot", js "owner", js "active", 1, policyHash, policyText, true, 1783512000000, 1783512000000⟩

/-- as it was disabled -/
def disabled : PolicyRow := { created with enabled := false, updatedat := 1783512001000 }

/-- and as a second policy was published. -/
def published : PolicyRow := { disabled with version := 2, updatedat := 1783512002000 }

/-- The chain goes through these three states. -/
theorem rowAt_chain : SignboxContract.rowAt sha256 chain (js "bot") 1 = some created ∧
    SignboxContract.rowAt sha256 chain (js "bot") 2 = some disabled ∧
    SignboxContract.rowAt sha256 chain (js "bot") 3 = some published := by decide +kernel

end Sample

namespace PolicyCache

variable {R : PolicyReading} {opts : PolicyCacheOptions} {w : CacheWorld} {e : CacheEvent}

/-- The row that a step stores, and the agent it is stored for. -/
def stored? (R : PolicyReading) (opts : PolicyCacheOptions) (w : CacheWorld) :
    CacheEvent → Option (JsString × PolicyRowRaw)
  | .resume t (.row (some raw) nowMs dbFails) =>
    match w.tasks.lookup t with
    | some (.reading agent _) =>
      if (w.shared.accept R opts agent raw nowMs dbFails).2 = .ok then some (agent, raw) else none
    | _ => none
  | _ => none

/-- What the check computes of an event is what it stores. -/
theorem stores_of_stored? {agent : JsString} {raw : PolicyRowRaw}
    (h : stored? R opts w e = some (agent, raw)) : Stores R opts w e agent raw := by
  unfold stored? at h
  split at h
  case h_1 t raw' nowMs dbFails =>
    split at h
    case h_1 agent' caller hf =>
      split at h
      case isTrue hok =>
        cases h
        exact ⟨t, caller, nowMs, dbFails, rfl, hf, hok⟩
      case isFalse => cases h
    · cases h
  · cases h

/-- The policies that a step lets `get` return. -/
def served (R : PolicyReading) (opts : PolicyCacheOptions) (w : CacheWorld) (e : CacheEvent) :
    List (JsString × CachedPolicy) :=
  ((machine R opts).outputs w e).filterMap fun o => match o.2 with
    | .done (.policy agent cached) => some (agent, cached)
    | _ => none

end PolicyCache

namespace Overlap

open PolicyCache

/-- An empty cache. -/
def boot : CacheWorld := Async.boot ⟨[], []⟩

/-- Two refreshes overlap. -/
def starts : List CacheEvent := [.start (.refresh (js "bot")), .start (.refresh (js "bot"))]

/-- The read of the second returns the disabled row. -/
def disabled : CacheEvent :=
  .resume 1 (.row (some Sample.disabled.raw) 1783512001500 false)

/-- The read of the first returns the row as it was before. -/
def created : CacheEvent :=
  .resume 0 (.row (some Sample.created.raw) 1783512001600 false)

/-- A call for the agent's policy, when the version in memory is stale. -/
def get : CacheEvent := .start (.get (js "bot") 1783512001700 false)

/-- A `get` finds the first version stale and reads; a refresh beside it stores the second
version; then the read of the `get` fails. -/
def outrun : List CacheEvent :=
  [.start (.refresh (js "bot")), .resume 0 (.row (some Sample.created.raw) 1783512000500 false),
    .start (.get (js "bot") 1783512060000 false), .start (.refresh (js "bot"))]

/-- The published row is stored. -/
def published : CacheEvent :=
  .resume 2 (.row (some Sample.published.raw) 1783512060100 false)

/-- The chain does not answer. -/
def fails : CacheEvent := .resume 1 .failed

/-- Controlled grace of two minutes. -/
def grace : PolicyCacheOptions := { DEFAULTS with strict := false, graceMs := 120000 }

/-- The world after these events. -/
def worldAfter (opts : PolicyCacheOptions) (es : List CacheEvent) : CacheWorld :=
  (machine Sample.reading opts).run boot es

/-- In strict mode the disabled row is stored, the row that it superseded is stored over it,
and `get` returns the agent as enabled. In controlled grace `get` returns the first version
after the second was stored. -/
theorem stale_accepted :
    (Stores Sample.reading DEFAULTS (worldAfter DEFAULTS starts) disabled (js "bot")
      Sample.disabled.raw ∧
    Stores Sample.reading DEFAULTS (worldAfter DEFAULTS (starts ++ [disabled])) created (js "bot")
      Sample.created.raw ∧
    (served Sample.reading DEFAULTS (worldAfter DEFAULTS (starts ++ [disabled, created])) get).map
      (fun x => (x.1, x.2.enabled)) = [(js "bot", true)]) ∧
    (Stores Sample.reading grace (worldAfter grace outrun) published (js "bot")
      Sample.published.raw ∧
    (served Sample.reading grace (worldAfter grace (outrun ++ [published, fails]))
      (.resume 1 .resolved)).map (fun x => (x.1, x.2.version)) = [(js "bot", 1)]) ∧
    SignboxContract.rowAt Sample.sha256 Sample.chain (js "bot") 1 = some Sample.created ∧
    SignboxContract.rowAt Sample.sha256 Sample.chain (js "bot") 2 = some Sample.disabled ∧
    SignboxContract.rowAt Sample.sha256 Sample.chain (js "bot") 3 = some Sample.published := by
  refine ⟨⟨stores_of_stored? ?_, stores_of_stored? ?_, ?_⟩, ⟨stores_of_stored? ?_, ?_⟩,
    Sample.rowAt_chain⟩ <;> decide +kernel

/-- When the two reads come back in order, the disabled row is stored last, and it is not one that
the created row had superseded. -/
theorem not_rolled_back_ordered :
    NotOlder Sample.created.raw Sample.disabled.raw ∧
      ¬ Superseded Sample.sha256 Sample.chain (js "bot") Sample.disabled.raw Sample.created.raw := by
  refine (not_rolled_back Sample.reading DEFAULTS Sample.sha256 Sample.chain (js "bot") ⟨[], []⟩
    (starts ++ [created, disabled]) ?_ starts created [] disabled [] Sample.created.raw rfl
    (stores_of_stored? ?_)).1 Sample.disabled.raw (stores_of_stored? ?_)
  · intro w t raw nowMs dbFails caller hmem _
    obtain ⟨pre, post, hes, -⟩ := history_split hmem
    have hevent : (.resume t (.row (some raw) nowMs dbFails) : CacheEvent) ∈
        starts ++ [created, disabled] := by
      rw [hes]
      simp
    simp only [starts, created, disabled, List.cons_append, List.nil_append, List.mem_cons,
      List.not_mem_nil, or_false, reduceCtorEq, false_or, Event.resume.injEq, Reply.row.injEq,
      Option.some.injEq] at hevent
    rcases hevent with ⟨-, rfl, -⟩ | ⟨-, rfl, -⟩
    · exact ⟨1, _, Sample.rowAt_chain.1, rfl⟩
    · exact ⟨2, _, Sample.rowAt_chain.2.1, rfl⟩
  · decide +kernel
  · decide +kernel

end Overlap

end Signbox
