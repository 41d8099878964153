import Signbox.Proof.Rollback

/-!
# Fresh policies

In strict mode a policy that `get` returns was stored by a refresh of the agent, and not too
long before the call: what is in memory and in the table has a refresh behind it, a restart
included, and a refresh that a `get` awaits stores a policy after the call.

* `backed`: where every loaded policy and every row of the table comes from.
* `ready`: what a `get` finds after its refresh.
* `strict_fresh`: both, for every run; and how a `get` ends whose refresh fails.
-/

namespace Signbox

open Async Guard

namespace PolicyCache

variable {R : PolicyReading} {opts : PolicyCacheOptions} {cache : PolicyCache}
variable {agent : JsString} {raw : PolicyRowRaw} {policy : Policy} {nowMs : ℤ}
variable {w : CacheWorld} {e : CacheEvent} {h h' : List (CacheWorld × CacheEvent)}

/-! ## Refreshes -/

/-- A step of the history stores `raw` at a time, having passed every check: its integrity, and the
watermark. -/
structure RefreshedAt (R : PolicyReading) (opts : PolicyCacheOptions)
    (h : List (CacheWorld × CacheEvent)) (agent : JsString) (raw : PolicyRowRaw) (policy : Policy)
    (nowMs : ℤ) : Prop where
  stored : ∃ w e, (w, e) ∈ h ∧ StoresAt R opts w e agent raw nowMs ∧
    w.shared.highestSeen agent ≤ raw.version
  verified : verifyStoredPolicy R raw.policyjson raw.policyhash = .ok (.ok policy)

theorem RefreshedAt.mono (hr : RefreshedAt R opts h agent raw policy nowMs) (hsub : h ⊆ h') :
    RefreshedAt R opts h' agent raw policy nowMs := by
  obtain ⟨⟨w, e, hmem, hstores⟩, hverified⟩ := hr
  exact ⟨⟨w, e, hsub hmem, hstores⟩, hverified⟩

/-- What `refresh` puts into memory. -/
def entry (raw : PolicyRowRaw) (policy : Policy) (nowMs : ℤ) : CachedPolicy where
  policy := policy
  version := raw.version
  enabled := raw.enabled
  authority := raw.authority
  permission := raw.agentperm
  isFinancial := isFinancial policy
  verifiedAtMs := nowMs

/-- The row of the table stands for the same policy, once its text is read again. So a restart
loses nothing but the memory. -/
structure RowKeeps (row : CacheRow) (raw : PolicyRowRaw) (policy : Policy) (nowMs : ℤ) : Prop where
  policyjson : row.policyjson = raw.policyjson
  entry : rowPolicy row policy = entry raw policy nowMs

theorem RowKeeps.hydrated {row : CacheRow} {doc : Json} {policy' : Policy}
    (hk : RowKeeps row raw policy nowMs)
    (hverified : verifyStoredPolicy R raw.policyjson raw.policyhash = .ok (.ok policy))
    (hparse : R.parse row.policyjson = some doc)
    (hvalid : validatePolicy doc R.dialect = .ok policy') :
    rowPolicy row policy' = PolicyCache.entry raw policy nowMs := by
  obtain ⟨doc', hparse', hvalid'⟩ := verified_policy hverified
  rw [hk.policyjson, hparse'] at hparse
  cases hparse
  rw [hvalid'] at hvalid
  cases hvalid
  exact hk.entry

/-! ## Where policies come from -/

/-- Every loaded policy and every row was stored by a refresh of its agent. It is the invariant
behind the freshness bounds. -/
structure Backed (R : PolicyReading) (opts : PolicyCacheOptions)
    (h : List (CacheWorld × CacheEvent)) (cache : PolicyCache) : Prop where
  memory : ∀ agent cached, cache.memory.lookup agent = some cached →
    ∃ raw policy nowMs, RefreshedAt R opts h agent raw policy nowMs ∧
      cached = entry raw policy nowMs
  db : ∀ agent row, cache.db.lookup agent = some row →
    ∃ raw policy nowMs, RefreshedAt R opts h agent raw policy nowMs ∧ RowKeeps row raw policy nowMs

theorem Backed.mono (hb : Backed R opts h cache) (hsub : h ⊆ h') : Backed R opts h' cache where
  memory := by
    intro agent cached hcached
    obtain ⟨raw, policy, nowMs, hr, heq⟩ := hb.memory agent cached hcached
    exact ⟨raw, policy, nowMs, hr.mono hsub, heq⟩
  db := by
    intro agent row hrow
    obtain ⟨raw, policy, nowMs, hr, hk⟩ := hb.db agent row hrow
    exact ⟨raw, policy, nowMs, hr.mono hsub, hk⟩

/-- Loading an agent's policy. -/
theorem Backed.load (hb : Backed R opts h cache) (agent : JsString) :
    Backed R opts h (cache.load R agent).1 ∧ ∀ cached, (cache.load R agent).2 = some cached →
      ∃ raw policy nowMs, RefreshedAt R opts h agent raw policy nowMs ∧
        cached = entry raw policy nowMs := by
  have hload : Loads R cache agent (cache.load R agent) := load_cases
  generalize cache.load R agent = loaded at hload ⊢
  cases hload with
  | held cached hmemory =>
    refine ⟨hb, fun cached' heq => ?_⟩
    rw [← Option.some.inj heq]
    exact hb.memory agent cached hmemory
  | absent hmemory => exact ⟨hb, by simp⟩
  | hydrated row doc policy hmemory hrow hparse hvalid =>
    obtain ⟨raw, policy', nowMs, hr, hk⟩ := hb.db agent row hrow
    have hentry := hk.hydrated hr.verified hparse hvalid
    refine ⟨⟨fun agent' cached hcached => ?_, hb.db⟩, fun cached hcached => ?_⟩
    · rw [lookup_mapSet] at hcached
      split at hcached
      case isTrue heq =>
        rw [heq, ← Option.some.inj hcached]
        exact ⟨raw, policy', nowMs, hr, hentry⟩
      case isFalse => exact hb.memory agent' cached hcached
    · rw [← Option.some.inj hcached]
      exact ⟨raw, policy', nowMs, hr, hentry⟩

theorem Backed.store (hb : Backed R opts h cache)
    (hr : RefreshedAt R opts h agent raw policy nowMs) :
    Backed R opts h (cache.store opts agent raw policy nowMs) where
  memory := by
    intro agent' cached hcached
    unfold PolicyCache.store at hcached
    rw [lookup_mapSet] at hcached
    split at hcached
    case isTrue heq =>
      rw [heq, ← Option.some.inj hcached]
      exact ⟨raw, policy, nowMs, hr, rfl⟩
    case isFalse => exact hb.memory agent' cached hcached
  db := by
    intro agent' row hrow
    unfold PolicyCache.store at hrow
    rw [lookup_mapSet] at hrow
    split at hrow
    case isTrue heq =>
      rw [heq, ← Option.some.inj hrow]
      refine ⟨raw, policy, nowMs, hr, rfl, ?_⟩
      unfold rowPolicy PolicyCache.entry
      cases raw.enabled <;> cases isFinancial policy <;> rfl
    case isFalse => exact hb.db agent' row hrow

/-- **One step** keeps the cache backed by the history: every loaded policy and every row was
stored by a refresh of its agent. -/
theorem Backed.step (hb : Backed R opts h w.shared) :
    Backed R opts (h ++ [(w, e)]) ((machine R opts).next w e).shared := by
  have hold : Backed R opts (h ++ [(w, e)]) w.shared := hb.mono (List.subset_append_left _ _)
  rcases next_cases (M := machine R opts) w e with
    ⟨t, seg, hseg, hshared, -, -⟩ | ⟨op, rfl, hshared, -⟩ | ⟨hsame, -⟩
  · rw [hshared]
    have hruns : Runs R opts w e seg.state := segment_runs hseg
    generalize seg.state = cache' at hruns
    cases hruns with
    | same => exact hold
    | loaded agent => exact (hold.load agent).1
    | stored agent raw policy nowMs hstores hverify hseen =>
      exact hold.store ⟨⟨w, e, by simp, hstores, hseen⟩, hverify⟩
  · cases op
    rw [hshared]
    exact ⟨(fun _ _ hcached => by cases hcached), hold.db⟩
  · rw [hsame]
    exact hold

/-- **A run** from an empty table, restarts included. A restart drops the memory and keeps the
table, whose rows are backed as well. -/
theorem backed (R : PolicyReading) (opts : PolicyCacheOptions) (es : List CacheEvent) :
    Backed R opts ((machine R opts).history (boot ⟨[], []⟩) es)
      ((machine R opts).run (boot ⟨[], []⟩) es).shared :=
  run_invariant (P := fun h w => Backed R opts h w.shared) (C := fun _ _ _ => True)
    ⟨by simp [boot], by simp [boot]⟩
    (fun _ _ _ hb _ => hb.step) (fun _ _ _ _ => trivial)

/-! ## After a refresh -/

/-- A row is not stored before the time a call had. -/
def inOrder : CacheEvent → CacheEvent → Bool
  | .start (.get _ nowMs _), .resume _ (.row (some _) storedMs _) => decide (nowMs ≤ storedMs)
  | _, _ => true

/-- The clock is monotone: a row is stored no earlier than any call of `get` before it, whose
`nowMs` is a reading of the same clock. -/
def Clocked (es : List CacheEvent) : Prop := es.Pairwise fun e e' => inOrder e e' = true

instance (es : List CacheEvent) : Decidable (Clocked es) :=
  inferInstanceAs (Decidable (es.Pairwise fun e e' => inOrder e e' = true))

theorem Clocked.init {es : List CacheEvent} (hc : Clocked (es ++ [e])) : Clocked es :=
  (List.pairwise_append.1 hc).1

/-- A `get` whose refresh has succeeded finds a policy that was stored after it was called, its own
or a later one. -/
def Ready (cache : PolicyCache) : Frame → Prop
  | .refreshed agent call .ok => ∃ cached, cache.memory.lookup agent = some cached ∧
      call.nowMs ≤ cached.verifiedAtMs
  | _ => True

/-- A loaded policy stays, or a refresh replaces it. -/
theorem Runs.memory {cached : CachedPolicy} (hr : Runs R opts w e cache)
    (hmemory : w.shared.memory.lookup agent = some cached) :
    cache.memory.lookup agent = some cached ∨
      ∃ raw policy storedMs, StoresAt R opts w e agent raw storedMs ∧
        cache.memory.lookup agent = some (entry raw policy storedMs) := by
  cases hr with
  | same => exact Or.inl hmemory
  | loaded other =>
    have hload : Loads R w.shared other (w.shared.load R other) := load_cases
    generalize w.shared.load R other = loaded at hload ⊢
    cases hload with
    | held _ _ => exact Or.inl hmemory
    | absent _ => exact Or.inl hmemory
    | hydrated row doc policy hnone _ _ _ =>
      refine Or.inl ?_
      rw [lookup_mapSet, if_neg]
      · exact hmemory
      · rintro rfl
        rw [hmemory] at hnone
        cases hnone
  | stored other raw policy storedMs hstores _ _ =>
    by_cases heq : agent = other
    · subst heq
      exact Or.inr ⟨raw, policy, storedMs, hstores, (lookup_mapSet agent agent _ _).trans (if_pos rfl)⟩
    · refine Or.inl ?_
      unfold PolicyCache.store
      rw [lookup_mapSet, if_neg heq]
      exact hmemory

/-- What a read has made of the cache, and how the refresh ends. -/
def ended (R : PolicyReading) (opts : PolicyCacheOptions) (cache : PolicyCache) (agent : JsString) :
    Reply → Option RefreshOutcome
  | .failed => some (.failed .unreachable)
  | .row none _ _ => some (.failed .notRegistered)
  | .row (some raw) nowMs dbFails => some (cache.accept R opts agent raw nowMs dbFails).2
  | .resolved => none

/-- A `get` goes on when the refresh it awaits has ended, with the outcome of the read. -/
theorem refreshed_frame {t : ℕ} {seg : Step} {call : GetCall} {outcome : RefreshOutcome}
    (hseg : (machine R opts).segment? w e = some (t, seg))
    (hnext : seg.next = .inl (.refreshed agent call outcome)) :
    ∃ reply, e = .resume t reply ∧ w.tasks.lookup t = some (.reading agent (some call)) ∧
      ended R opts w.shared agent reply = some outcome := by
  rcases segment?_cases hseg with ⟨i, rfl, -, rfl⟩ | ⟨f, r, rfl, hf, hres⟩
  · cases i with
    | refresh agent' => cases hnext
    | get agent' nowMs dbFails =>
      have hframe := startGet_frame hnext
      cases hframe
  · cases f with
    | reading agent' caller =>
      cases r with
      | row raw nowMs dbFails =>
        cases hres
        cases raw with
        | none =>
          obtain ⟨call', rfl, heq⟩ := finish_frame hnext
          cases heq
          exact ⟨_, rfl, hf, rfl⟩
        | some raw =>
          obtain ⟨call', rfl, heq⟩ := finish_frame hnext
          cases heq
          exact ⟨_, rfl, hf, rfl⟩
      | failed =>
        cases hres
        obtain ⟨call', rfl, heq⟩ := finish_frame hnext
        cases heq
        exact ⟨_, rfl, hf, rfl⟩
      | resolved => cases hres
    | refreshed agent' call' outcome' =>
      cases r with
      | resolved =>
        cases hres
        exact absurd hnext endGet_done
      | _ => cases hres

/-- A refresh that ends with success has stored its row. -/
theorem storesAt_of_ended {t : ℕ} {reply : Reply} {caller : Option GetCall}
    (he : e = .resume t reply) (hf : w.tasks.lookup t = some (.reading agent caller))
    (hended : ended R opts w.shared agent reply = some .ok) :
    ∃ raw storedMs, StoresAt R opts w e agent raw storedMs := by
  cases reply with
  | row raw nowMs dbFails =>
    cases raw with
    | none => cases hended
    | some raw => exact ⟨raw, nowMs, t, caller, dbFails, he, hf, Option.some.inj hended⟩
  | failed => cases hended
  | resolved => cases hended

/-- The state a storing step leaves. -/
theorem StoresAt.next_memory {storedMs : ℤ} (hstores : StoresAt R opts w e agent raw storedMs) :
    ∃ policy, ((machine R opts).next w e).shared.memory.lookup agent =
      some (entry raw policy storedMs) := by
  obtain ⟨t, caller, dbFails, rfl, hf, hok⟩ := hstores
  obtain ⟨policy, -, -, hstate⟩ := accept_ok hok
  have hseg : (machine R opts).segment? w (.resume t (.row (some raw) storedMs dbFails)) =
      some (t, endRead R opts w.shared agent caller (some raw) storedMs dbFails) :=
    segment?_resume.2 ⟨rfl, _, hf, rfl⟩
  refine ⟨policy, ?_⟩
  rw [Async.next_shared hseg, endRead, finish_state, hstate]
  exact (lookup_mapSet agent agent _ _).trans (if_pos rfl)

/-- The call of a suspended `get` is an earlier event. -/
theorem CalledWith.mem {es : List CacheEvent} {t : ℕ} {call : GetCall}
    (hc : CalledWith R ((machine R opts).history w es) t agent call) :
    ∃ dbFails, .start (.get agent call.nowMs dbFails) ∈ es := by
  obtain ⟨w', dbFails, hmem, -, -⟩ := hc
  obtain ⟨pre, post, hes, -⟩ := history_split hmem
  exact ⟨dbFails, by rw [hes]; simp⟩

theorem Clocked.stored {es : List CacheEvent} {call : GetCall} {storedMs : ℤ} {t : ℕ}
    (hc : Clocked (es ++ [e]))
    (hcall : CalledWith R ((machine R opts).history (boot ⟨[], []⟩) es) t agent call)
    (hstores : StoresAt R opts w e agent raw storedMs) : call.nowMs ≤ storedMs := by
  obtain ⟨dbFails, hmem⟩ := hcall.mem
  obtain ⟨t', caller, dbFails', rfl, -, -⟩ := hstores
  have horder := (List.pairwise_append.1 hc).2.2 _ hmem _ (List.mem_singleton_self _)
  simpa [inOrder] using horder

/-- **Ready**, along a run with a monotone clock: a `get` that is to return after a refresh finds a
policy that was stored after it was called. -/
theorem ready {es : List CacheEvent} (hc : Clocked es) :
    ∀ tf ∈ ((machine R opts).run (boot ⟨[], []⟩) es).tasks,
      Ready ((machine R opts).run (boot ⟨[], []⟩) es).shared tf.2 := by
  induction es using List.reverseRecOn with
  | nil => simp [Machine.run, boot]
  | append_singleton es e ih =>
    rw [run_snoc]
    rintro ⟨t, f⟩ htf
    have hbehind : ∀ tf ∈ ((machine R opts).run (boot ⟨[], []⟩) es).tasks,
        Behind R ((machine R opts).history (boot ⟨[], []⟩) es) tf.1 tf.2 :=
      frames_behind ⟨[], []⟩ es
    have hold := ih hc.init
    generalize hw : (machine R opts).run (boot ⟨[], []⟩) es = w at htf hbehind hold ⊢
    cases f with
    | reading _ _ => trivial
    | refreshed agent call outcome =>
    cases outcome with
    | failed _ => trivial
    | threw => trivial
    | ok =>
    rcases mem_tasks_next htf with htf' | ⟨seg, hseg, hnext⟩
    · obtain ⟨cached, hmemory, hle⟩ := hold _ htf'
      rcases next_cases (M := machine R opts) w e with
        ⟨t', seg, hseg, hshared, -, -⟩ | ⟨op, rfl, -, -⟩ | ⟨hsame, -⟩
      · rw [hshared]
        rcases (segment_runs hseg).memory hmemory with hkept | ⟨raw, policy, storedMs, hstores, hnew⟩
        · exact ⟨cached, hkept, hle⟩
        · exact ⟨_, hnew, hc.stored (hbehind _ htf') hstores⟩
      · -- a restart ends every task
        cases op
        cases htf
      · rw [hsame]
        exact ⟨cached, hmemory, hle⟩
    · obtain ⟨reply, he, hf, hended⟩ := refreshed_frame hseg hnext
      obtain ⟨raw, storedMs, hstores⟩ := storesAt_of_ended he hf hended
      obtain ⟨policy, hmemory⟩ := hstores.next_memory
      exact ⟨_, hmemory, hc.stored (hbehind _ (mem_of_lookup hf)) hstores⟩

/-! ## A refresh that fails -/

/-- The read makes the refresh reject: the canonicalizer throws on the text, or the database
fails on a sound row. -/
def Throws (R : PolicyReading) : Reply → Prop
  | .row (some raw) _ dbFails =>
    (∃ err, verifyStoredPolicy R raw.policyjson raw.policyhash = .error err) ∨
      dbFails = true ∧ ∃ policy, verifyStoredPolicy R raw.policyjson raw.policyhash = .ok (.ok policy)
  | _ => False

theorem ended_threw {reply : Reply} :
    ended R opts cache agent reply = some .threw ↔ Throws R reply := by
  cases reply with
  | row raw nowMs dbFails =>
    cases raw with
    | none => simp [ended, Throws]
    | some raw =>
      simp only [ended, Throws, Option.some.injEq, accept]
      cases verifyStoredPolicy R raw.policyjson raw.policyhash with
      | error err => simp
      | ok verified =>
        cases verified with
        | error reason => simp
        | ok policy =>
          cases dbFails with
          | true => simp
          | false =>
            simp only [Bool.false_eq_true, if_false, reduceCtorEq, exists_false, false_and,
              or_false, iff_false]
            split_ifs <;> simp
  | failed => simp [ended, Throws]
  | resolved => simp [ended, Throws]

/-- The read that ended the refresh of a `get`, with the outcome it had then. -/
def EndedBy (R : PolicyReading) (opts : PolicyCacheOptions) (h : List (CacheWorld × CacheEvent))
    (t : ℕ) (agent : JsString) (call : GetCall) (outcome : RefreshOutcome) : Prop :=
  ∃ w reply, (w, .resume t reply) ∈ h ∧
    w.tasks.lookup t = some (.reading agent (some call)) ∧
    ended R opts w.shared agent reply = some outcome

theorem frames_ended (cache : PolicyCache) (es : List CacheEvent) :
    ∀ tf ∈ ((machine R opts).run (boot cache) es).tasks, ∀ agent call outcome,
      tf.2 = .refreshed agent call outcome →
        EndedBy R opts ((machine R opts).history (boot cache) es) tf.1 agent call outcome := by
  refine frames_hold (K := fun h t f => ∀ agent call outcome, f = .refreshed agent call outcome →
    EndedBy R opts h t agent call outcome) ?_ ?_ (wf_boot cache) (by simp [boot]) es
  · intro h x t f hK agent call outcome hframe
    obtain ⟨w, reply, hmem, hrest⟩ := hK agent call outcome hframe
    exact ⟨w, reply, List.mem_append_left _ hmem, hrest⟩
  · rintro h w e t seg f - - hseg hnext agent call outcome rfl
    obtain ⟨reply, rfl, hrest⟩ := refreshed_frame hseg hnext
    exact ⟨w, reply, by simp, hrest⟩

/-- In strict mode a `get` ends unavailable after a refresh that failed, unless it rejected. -/
theorem endGet_strict (hstrict : opts.strict = true) {call : GetCall} {outcome : RefreshOutcome}
    (hfailed : outcome ≠ .ok) : (endGet opts cache agent call outcome).next =
      .inr (if outcome = .threw then .threw agent else .unavailable agent) := by
  cases outcome with
  | ok => exact absurd rfl hfailed
  | threw => rfl
  | failed reason =>
    have hgraced : ∀ cached nowMs, graced opts cached nowMs = false := by simp [graced, hstrict]
    cases hcached : call.cached with
    | none => simp [endGet, hcached]
    | some cached => simp [endGet, hcached, hgraced]

/-! ## Strict mode -/

/-- The bound on the age of a policy; the time of a call itself is never too old. -/
def bound (opts : PolicyCacheOptions) (policy : Policy) : ℤ :=
  max 0 (if isFinancial policy then opts.financialFreshnessMs else opts.nonFinancialFreshnessMs)

/-- The policy was stored by a refresh of the agent, not too long before `nowMs`, by the bound of
its class. -/
def StoredWithin (R : PolicyReading) (opts : PolicyCacheOptions)
    (h : List (CacheWorld × CacheEvent)) (agent : JsString) (nowMs : ℤ) (cached : CachedPolicy) :
    Prop :=
  ∃ raw policy storedMs, RefreshedAt R opts h agent raw policy storedMs ∧
    cached = entry raw policy storedMs ∧ nowMs - bound opts policy ≤ storedMs

/-- Task `t` is a call of `get` with this time. -/
def CalledAt (h : List (CacheWorld × CacheEvent)) (t : ℕ) (agent : JsString) (nowMs : ℤ) : Prop :=
  ∃ w dbFails, (w, .start (.get agent nowMs dbFails)) ∈ h ∧ w.started = t

theorem fresh_bound {cached : CachedPolicy} (hfresh : ¬ stale opts (some cached) nowMs)
    (hclass : cached.isFinancial = isFinancial cached.policy) :
    nowMs - bound opts cached.policy ≤ cached.verifiedAtMs := by
  have hle : nowMs - cached.verifiedAtMs ≤ freshnessMs opts cached := by simpa [stale] using hfresh
  rw [freshnessMs, hclass] at hle
  have hmax := le_max_right 0 (if isFinancial cached.policy = true then opts.financialFreshnessMs
    else opts.nonFinancialFreshnessMs)
  unfold bound
  omega

/-- What `get` returns at a step. -/
theorem returned_fresh (hstrict : opts.strict = true) {es : List CacheEvent}
    (hc : Clocked es) {t : ℕ} {cached : CachedPolicy}
    (hout : (t, .done (.policy agent cached)) ∈
      (machine R opts).outputs ((machine R opts).run (boot ⟨[], []⟩) es) e) :
    ∃ nowMs, CalledAt ((machine R opts).history (boot ⟨[], []⟩) (es ++ [e])) t agent nowMs ∧
      StoredWithin R opts ((machine R opts).history (boot ⟨[], []⟩) es) agent nowMs cached := by
  have hbacked := backed R opts es
  rw [history_snoc]
  cases returned_cases hout with
  | fresh nowMs dbFails he hdb hload hfresh =>
    subst he
    have hstarted : ((machine R opts).run (boot ⟨[], []⟩) es).started = t := by
      obtain ⟨seg, hseg, -⟩ := mem_outputs.1 hout
      simp only [segment?_start, Option.some.injEq, Prod.mk.injEq] at hseg
      exact hseg.1
    obtain ⟨raw, policy, storedMs, hr, rfl⟩ := (hbacked.load agent).2 cached hload
    exact ⟨nowMs, ⟨_, dbFails, by simp, hstarted⟩, raw, policy, storedMs, hr, rfl,
      fresh_bound hfresh rfl⟩
  | confirmed call he hf hmemory =>
    obtain ⟨w, dbFails, hmem, hstarted, -⟩ := frames_behind ⟨[], []⟩ es _ (mem_of_lookup hf)
    obtain ⟨raw, policy, storedMs, hr, rfl⟩ := hbacked.memory agent cached hmemory
    -- nothing older than the call is left in memory
    obtain ⟨cached', hcached', hle⟩ := ready hc _ (mem_of_lookup hf)
    rw [hmemory, Option.some.injEq] at hcached'
    rw [← hcached'] at hle
    have hbound : 0 ≤ bound opts policy := le_max_left _ _
    have hstored : call.nowMs ≤ storedMs := hle
    exact ⟨call.nowMs, ⟨w, dbFails, List.mem_append_left _ hmem, hstarted⟩, raw, policy, storedMs,
      hr, rfl, by omega⟩
  | graced call reason he hf hcached hgraced =>
    simp [graced, hstrict] at hgraced

end PolicyCache

open PolicyCache in
/-- **Freshness in strict mode.** From an empty table, with a monotone clock and restarts that
keep the table, in any interleaving: every policy that `get` returns was stored by a refresh of
the agent within the bound of its class before the call, or after the call. A `get` whose refresh
fails ends unavailable, unless the refresh rejected: then it rejects. -/
theorem strict_fresh (R : PolicyReading) (opts : PolicyCacheOptions)
    (hstrict : opts.strict = true) (es : List CacheEvent) (hclock : Clocked es) :
    ∀ pre e post, es = pre ++ e :: post →
      (∀ t agent cached, (t, .done (.policy agent cached)) ∈
          (machine R opts).outputs ((machine R opts).run (boot ⟨[], []⟩) pre) e →
        ∃ nowMs, CalledAt ((machine R opts).history (boot ⟨[], []⟩) (pre ++ [e])) t agent nowMs ∧
          StoredWithin R opts ((machine R opts).history (boot ⟨[], []⟩) pre) agent nowMs cached) ∧
      ∀ t agent call outcome, e = .resume t .resolved →
        ((machine R opts).run (boot ⟨[], []⟩) pre).tasks.lookup t =
          some (.refreshed agent call outcome) →
        ∃ w reply, (w, .resume t reply) ∈ (machine R opts).history (boot ⟨[], []⟩) pre ∧
          w.tasks.lookup t = some (.reading agent (some call)) ∧
          ((∀ raw, ¬ Stores R opts w (.resume t reply) agent raw) →
            ((machine R opts).outputs ((machine R opts).run (boot ⟨[], []⟩) pre) e =
              [(t, .done (.unavailable agent))] ↔ ¬ Throws R reply)) := by
  intro pre e post hes
  have hpre : Clocked pre := by
    rw [hes] at hclock
    exact (List.pairwise_append.1 hclock).1
  refine ⟨fun t agent cached hout => returned_fresh hstrict hpre hout, ?_⟩
  -- the `get` waited for a read, and that read has answered
  rintro t agent call outcome rfl hf
  obtain ⟨w, reply, hmem, hreading, hended⟩ := frames_ended _ _ _ (mem_of_lookup hf) _ _ _ rfl
  refine ⟨w, reply, hmem, hreading, fun hfails => ?_⟩
  -- it stored nothing, so the refresh failed or threw
  have hfailed : outcome ≠ .ok := by
    rintro rfl
    obtain ⟨raw, storedMs, hstores⟩ := storesAt_of_ended rfl hreading hended
    exact hfails raw hstores.stores
  have hthrew : outcome = .threw ↔ Throws R reply := by
    rw [← ended_threw, hended, Option.some.injEq]
  have hseg : (machine R opts).segment? ((machine R opts).run (boot ⟨[], []⟩) pre)
      (.resume t .resolved) = some (t, endGet opts
        ((machine R opts).run (boot ⟨[], []⟩) pre).shared agent call outcome) :=
    segment?_resume.2 ⟨rfl, _, hf, rfl⟩
  have heffects : (endGet opts ((machine R opts).run (boot ⟨[], []⟩) pre).shared agent call
      outcome).effects = [] := by
    unfold endGet
    cases outcome with
    | threw => rfl
    | ok => exact absurd rfl hfailed
    | failed reason =>
      cases call.cached with
      | none => rfl
      | some cached => simp only; split_ifs <;> rfl
  -- strict mode gives no grace, so the outcome alone decides what is answered
  rw [← hthrew, Machine.outputs, hseg]
  simp only [Segment.outputs, heffects, endGet_strict hstrict hfailed, List.map_nil,
    List.nil_append, List.map_cons]
  by_cases h : outcome = .threw <;> simp [h]

/-! ## Two runs -/

namespace Lapsed

open PolicyCache Overlap

/-- A number that no double can hold. -/
def hugeText : JsString := js "1e999"

def hugeHash : List UInt8 :=
  [210, 17, 206, 211, 20, 200, 158, 243, 169, 108, 73, 2, 102, 217, 225, 245, 236, 227, 43, 201, 9,
    145, 81, 42, 6, 127, 242, 225, 178, 225, 107, 188]

/-- SHA-256 and `JSON.parse`, on two texts. -/
def reading : PolicyReading where
  sha256 bytes := if bytes = utf8 hugeText then hex hugeHash else Sample.reading.sha256 bytes
  parse text := if text = hugeText then some (.num (.infinite false)) else Sample.reading.parse text
  dialect := xprDialect

def huge : PolicyRowRaw :=
  { Sample.published.raw with policyhash := hex hugeHash, policyjson := hugeText }

/-- A policy is stored; a minute later it is stale, and `get` reads the row of the number. -/
def events : List CacheEvent :=
  [.start (.refresh (js "bot")), .resume 0 (.row (some Sample.created.raw) 1783512000500 false),
    .start (.get (js "bot") 1783512060000 false),
    .resume 1 (.row (some huge) 1783512060100 false)]

def worldBefore (es : List CacheEvent) : CacheWorld := (machine reading DEFAULTS).run boot es

/-- The calls that reject at a step. -/
def rejected (w : CacheWorld) (e : CacheEvent) : List JsString :=
  ((machine reading DEFAULTS).outputs w e).filterMap fun o => match o.2 with
    | .done (.threw agent) => some agent
    | _ => none

/-- The policies that a step lets `get` return. -/
def returned (w : CacheWorld) (e : CacheEvent) : List (ℕ × JsString × CachedPolicy) :=
  ((machine reading DEFAULTS).outputs w e).filterMap fun o => match o.2 with
    | .done (.policy agent cached) => some (o.1, agent, cached)
    | _ => none

theorem mem_outputs_of_returned {w : CacheWorld} {e : CacheEvent} {t : ℕ} {agent : JsString}
    {cached : CachedPolicy} (h : (t, agent, cached) ∈ returned w e) :
    (t, .done (.policy agent cached)) ∈ (machine reading DEFAULTS).outputs w e := by
  obtain ⟨⟨t', o⟩, hmem, ho⟩ := List.mem_filterMap.1 h
  dsimp only at ho
  split at ho
  · cases ho
    exact hmem
  · cases ho

/-- **A refresh that rejects.** The stale policy is loaded, the row that is read cannot be
canonicalized, and `get` rejects where it should end unavailable. -/
theorem rejects_stale :
    (((worldBefore (events.take 2)).shared.memory.lookup (js "bot")).map
        fun cached => (cached.verifiedAtMs, stale DEFAULTS (some cached) 1783512060000)) =
      some (1783512000500, true) ∧
    rejected (worldBefore events) (.resume 1 .resolved) = [js "bot"] ∧
    (machine reading DEFAULTS).outputs (worldBefore events) (.resume 1 .resolved) ≠
      [(1, .done (.unavailable (js "bot")))] := by
  have hrejected : rejected (worldBefore events) (.resume 1 .resolved) = [js "bot"] := by
    decide +kernel
  refine ⟨by decide +kernel, hrejected, ?_⟩
  intro hout
  rw [rejected, hout] at hrejected
  cases hrejected

/-- Five seconds after it was stored, the policy is asked for again. -/
def soon : CacheEvent := .start (.get (js "bot") 1783512005000 false)

/-- It is returned from memory, within the bound of its class after it was stored. -/
theorem strict_fresh_capped : ∃ cached nowMs,
    (1, .done (.policy (js "bot") cached)) ∈
      (machine reading DEFAULTS).outputs (worldBefore (events.take 2)) soon ∧
    CalledAt ((machine reading DEFAULTS).history boot (events.take 2 ++ [soon])) 1 (js "bot")
      nowMs ∧
    StoredWithin reading DEFAULTS ((machine reading DEFAULTS).history boot (events.take 2))
      (js "bot") nowMs cached := by
  have hreturned : (returned (worldBefore (events.take 2)) soon).map (fun x => (x.1, x.2.1)) =
      [(1, js "bot")] := by
    decide +kernel
  have hfirst : ((1 : ℕ), js "bot") ∈
      (returned (worldBefore (events.take 2)) soon).map fun x => (x.1, x.2.1) := by
    rw [hreturned]
    exact List.mem_singleton_self _
  obtain ⟨⟨t, agent, cached⟩, hmem, heq⟩ := List.mem_map.1 hfirst
  obtain rfl : t = 1 := congrArg Prod.fst heq
  obtain rfl : agent = js "bot" := congrArg Prod.snd heq
  have hout := mem_outputs_of_returned hmem
  have hfresh := (strict_fresh reading DEFAULTS rfl (events.take 2 ++ [soon]) (by decide +kernel)
    (events.take 2) soon [] rfl).1 1 (js "bot") cached
  obtain ⟨nowMs, hcalled, hstored⟩ := hfresh hout
  exact ⟨cached, nowMs, hout, hcalled, hstored⟩

end Lapsed

end Signbox
