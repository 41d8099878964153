import Signbox.Proof.Rollback

/-!
# What the policy cache serves

The table `policy_cache` outlives the process. It keeps the watermark, which no restart lowers,
and the last policy of each agent, which `get` serves again after a restart.

* `versions_kept`: the versions that `get` returns never decrease, unless a `get` ends in
  controlled grace with a policy that was replaced while it waited.
* `served_from_reader`: in strict mode every policy returned was read from the chain, unless
  the table answers before a refresh has.
* `Overtaken.downgraded`, `Altered.served_unread`: a run for each exception.
-/

namespace Signbox

open Async Guard

namespace PolicyCache

variable {R : PolicyReading} {opts : PolicyCacheOptions} {cache cache' : PolicyCache}
variable {agent other : JsString} {raw : PolicyRowRaw} {policy : Policy} {cached : CachedPolicy}
variable {w : CacheWorld} {e : CacheEvent} {h : List (CacheWorld × CacheEvent)}

/-- The policies that `get` returns in a history, in order. -/
def servedBy (R : PolicyReading) (opts : PolicyCacheOptions) (h : List (CacheWorld × CacheEvent)) :
    List (JsString × CachedPolicy) :=
  h.flatMap fun x => served R opts x.1 x.2

theorem mem_served :
    (agent, cached) ∈ served R opts w e ↔
      ∃ t, (t, .done (.policy agent cached)) ∈ (machine R opts).outputs w e := by
  unfold served
  rw [List.mem_filterMap]
  constructor
  · rintro ⟨⟨t, o⟩, ho, heq⟩
    split at heq
    case h_1 agent' cached' hpolicy =>
      cases heq
      exact ⟨t, hpolicy ▸ ho⟩
    · cases heq
  · rintro ⟨t, ho⟩
    exact ⟨_, ho, rfl⟩

/-! ## Versions -/

/-- The version in the table, or zero where the agent has no row. -/
def heldVersion (cache : PolicyCache) (agent : JsString) : ℤ :=
  ((cache.db.lookup agent).map CacheRow.version).getD 0

/-- No row is above its watermark. Every row that the cache has written is so. -/
def Consistent (db : List (JsString × CacheRow)) : Prop :=
  ∀ agent row, db.lookup agent = some row → row.version ≤ row.highestSeenVersion

theorem heldVersion_of_row {row : CacheRow} (hrow : cache.db.lookup agent = some row) :
    cache.heldVersion agent = row.version := by simp [heldVersion, hrow]

theorem Consistent.held (hc : Consistent cache.db) (agent : JsString) :
    cache.heldVersion agent ≤ cache.highestSeen agent := by
  unfold heldVersion PolicyCache.highestSeen
  cases hrow : cache.db.lookup agent with
  | none => exact le_rfl
  | some row => exact hc agent row hrow

theorem heldVersion_store {nowMs : ℤ} :
    (cache.store opts other raw policy nowMs).heldVersion agent =
      if agent = other then raw.version else cache.heldVersion agent := by
  unfold heldVersion store
  rw [lookup_mapSet]
  split <;> rfl

theorem Consistent.store {nowMs : ℤ} (hc : Consistent cache.db) :
    Consistent (cache.store opts other raw policy nowMs).db := by
  intro agent row hrow
  unfold PolicyCache.store at hrow
  rw [lookup_mapSet] at hrow
  split at hrow
  · cases hrow
    dsimp only
    split
    · exact le_rfl
    · exact le_max_right _ _
  · exact hc agent row hrow

/-- A loaded policy has the version of the table, since both are written together. -/
def Agrees (cache : PolicyCache) : Prop :=
  ∀ agent cached, cache.memory.lookup agent = some cached → cached.version = cache.heldVersion agent

theorem Agrees.load (ha : cache.Agrees) (hload : Loads R cache other (cache', some cached)) :
    cached.version = cache.heldVersion other := by
  cases hload with
  | held cached hmemory => exact ha other cached hmemory
  | hydrated row doc policy hmemory hrow hparse hvalid => exact (heldVersion_of_row hrow).symm

theorem Loads.db {loaded : PolicyCache × Option CachedPolicy} (hload : Loads R cache other loaded) :
    loaded.1.db = cache.db := by cases hload <;> rfl

/-- What a step keeps: both invariants, and that the version in the table does not fall. -/
structure Keeps (cache cache' : PolicyCache) : Prop where
  consistent : Consistent cache'.db
  agrees : cache'.Agrees
  held : ∀ agent, cache.heldVersion agent ≤ cache'.heldVersion agent

theorem Changes.keeps (hchange : Changes R opts w e cache') (hc : Consistent w.shared.db)
    (ha : w.shared.Agrees) : Keeps w.shared cache' := by
  cases hchange with
  | same => exact ⟨hc, ha, fun _ => le_rfl⟩
  | loaded other =>
    have hload : Loads R w.shared other (w.shared.load R other) := load_cases
    have hheld : ∀ agent, (w.shared.load R other).1.heldVersion agent = w.shared.heldVersion agent :=
      fun agent => by unfold heldVersion; rw [hload.db]
    refine ⟨by rw [hload.db]; exact hc, fun agent cached hcached => ?_, fun agent => (hheld agent).ge⟩
    rw [hheld]
    generalize w.shared.load R other = loaded at hload hcached
    cases hload with
    | held cached' hmemory => exact ha agent cached hcached
    | absent hmemory => exact ha agent cached hcached
    | hydrated row doc policy hmemory hrow hparse hvalid =>
      rw [lookup_mapSet] at hcached
      split at hcached
      case isTrue heq =>
        cases hcached
        rw [heq]
        exact (heldVersion_of_row hrow).symm
      case isFalse => exact ha agent cached hcached
  | stored other raw policy nowMs hstores hverify hseen =>
    refine ⟨hc.store, fun agent cached hcached => ?_, fun agent => ?_⟩
    · rw [heldVersion_store]
      unfold store at hcached
      rw [lookup_mapSet] at hcached
      split at hcached
      case isTrue heq =>
        cases hcached
        rw [if_pos heq]
      case isFalse hne =>
        rw [if_neg hne]
        exact ha agent cached hcached
    · rw [heldVersion_store]
      split
      case isTrue heq =>
        -- the row was accepted, so it is not below the watermark
        subst heq
        exact (hc.held agent).trans hseen
      case isFalse => exact le_rfl
  | restarted =>
    refine ⟨hc, fun agent cached hcached => ?_, fun _ => le_rfl⟩
    cases hcached

/-- The policy that a suspended `get` had loaded. -/
def Frame.loaded? : Frame → Option (JsString × CachedPolicy)
  | .reading agent caller => (caller.bind GetCall.cached).map fun cached => (agent, cached)
  | .refreshed agent call _ => call.cached.map fun cached => (agent, cached)

/-- A frame is left by a `get` that loads, or takes over the policy of the frame before. -/
theorem loaded_of_segment {t : ℕ} {seg : Segment PolicyCache Frame Effect Result} {f : Frame}
    (hseg : (machine R opts).segment? w e = some (t, seg)) (hnext : seg.next = .inl f)
    (hloaded : f.loaded? = some (agent, cached)) :
    (w.shared.load R agent).2 = some cached ∨
      ∃ f₀, (t, f₀) ∈ w.tasks ∧ f₀.loaded? = some (agent, cached) := by
  rcases segment?_cases hseg with ⟨i, rfl, rfl, rfl⟩ | ⟨f₀, r, rfl, hf, hres⟩
  · cases i with
    | refresh agent' =>
      cases hnext
      cases hloaded
    | get agent' nowMs dbFails =>
      rw [startGet_frame hnext] at hloaded
      obtain ⟨cached', hcached, heq⟩ := Option.map_eq_some_iff.1 hloaded
      cases heq
      exact Or.inl hcached
  · refine Or.inr ⟨f₀, mem_of_lookup hf, ?_⟩
    cases f₀ with
    | reading agent' caller =>
      have hfinish : ∀ {cache : PolicyCache} {outcome},
          (finish cache agent' caller outcome).next = .inl f →
            (Frame.reading agent' caller).loaded? = some (agent, cached) := by
        intro cache outcome hnext
        obtain ⟨call, rfl, rfl⟩ := finish_frame hnext
        exact hloaded
      cases r with
      | row raw nowMs dbFails =>
        cases hres
        cases raw <;> exact hfinish hnext
      | failed =>
        cases hres
        exact hfinish hnext
      | resolved => cases hres
    | refreshed agent' call outcome =>
      cases r with
      | resolved =>
        cases hres
        exact absurd hnext endGet_done
      | _ => cases hres

/-- A `get` that ends in controlled grace returns a policy no older than the table's. Another
refresh may have stored one since the call. -/
def NotOvertaken (opts : PolicyCacheOptions) (w : CacheWorld) (e : CacheEvent) : Prop :=
  ∀ t agent call reason cached, e = .resume t .resolved →
    w.tasks.lookup t = some (.refreshed agent call (.failed reason)) → call.cached = some cached →
    graced opts cached call.nowMs → w.shared.heldVersion agent ≤ cached.version

/-- What a run has behind it, and holds in its table: nothing that was returned is above the
version that is held. -/
structure Rising (R : PolicyReading) (opts : PolicyCacheOptions)
    (h : List (CacheWorld × CacheEvent)) (w : CacheWorld) : Prop where
  consistent : Consistent w.shared.db
  agrees : w.shared.Agrees
  tasks : ∀ tf ∈ w.tasks, ∀ agent cached, tf.2.loaded? = some (agent, cached) →
    cached.version ≤ w.shared.heldVersion agent
  served : ∀ x ∈ servedBy R opts h, x.2.version ≤ w.shared.heldVersion x.1
  ordered : (servedBy R opts h).Pairwise fun x y => x.1 = y.1 → x.2.version ≤ y.2.version

/-- A policy that is returned has the version of the table. -/
theorem Rising.returned {t : ℕ} (hr : Rising R opts h w) (hnot : NotOvertaken opts w e)
    (hret : Returned R opts w e t agent cached) :
    cached.version = w.shared.heldVersion agent := by
  cases hret with
  | fresh nowMs dbFails he hdb hload hfresh =>
    have hloads : Loads R w.shared agent (w.shared.load R agent) := load_cases
    rw [← Prod.mk.eta (p := w.shared.load R agent), hload] at hloads
    exact hr.agrees.load hloads
  | confirmed call he hf hmemory => exact hr.agrees agent cached hmemory
  | graced call reason he hf hcached hgraced =>
    have hle : cached.version ≤ w.shared.heldVersion agent :=
      hr.tasks _ (mem_of_lookup hf) agent cached (by simp [Frame.loaded?, hcached])
    exact le_antisymm hle (hnot t agent call reason cached he hf hcached hgraced)

/-- **One step** keeps every version that was served at or below the one the table holds, unless a
`get` ends in grace with a policy that the table has gone past. -/
theorem Rising.step (hr : Rising R opts h w) (hnot : NotOvertaken opts w e) :
    Rising R opts (h ++ [(w, e)]) ((machine R opts).next w e) := by
  have hkeeps : Keeps w.shared ((machine R opts).next w e).shared :=
    (shared_next w e).keeps hr.consistent hr.agrees
  have hnew : ∀ x ∈ PolicyCache.served R opts w e, x.2.version = w.shared.heldVersion x.1 := by
    intro x hx
    obtain ⟨t, hout⟩ := mem_served.1 hx
    exact hr.returned hnot (returned_cases hout)
  have hserved : servedBy R opts (h ++ [(w, e)]) =
      servedBy R opts h ++ PolicyCache.served R opts w e := by simp [servedBy]
  refine ⟨hkeeps.consistent, hkeeps.agrees, ?_, ?_, ?_⟩
  · intro tf htf agent cached hloaded
    refine le_trans ?_ (hkeeps.held agent)
    rcases mem_tasks_next htf with htf | ⟨seg, hseg, hnext⟩
    · exact hr.tasks tf htf agent cached hloaded
    · rcases loaded_of_segment hseg hnext hloaded with hload | ⟨f₀, hf₀, hloaded₀⟩
      · have hloads : Loads R w.shared agent (w.shared.load R agent) := load_cases
        rw [← Prod.mk.eta (p := w.shared.load R agent), hload] at hloads
        exact (hr.agrees.load hloads).le
      · exact hr.tasks _ hf₀ agent cached hloaded₀
  · rw [hserved]
    intro x hx
    refine le_trans ?_ (hkeeps.held x.1)
    rcases List.mem_append.1 hx with hx | hx
    · exact hr.served x hx
    · exact (hnew x hx).le
  · rw [hserved, List.pairwise_append]
    refine ⟨hr.ordered, ?_, fun x hx y hy heq => ?_⟩
    · refine List.pairwise_of_forall_mem_list fun x hx y hy heq => ?_
      rw [hnew x hx, hnew y hy, heq]
    · rw [hnew y hy, ← heq]
      exact hr.served x hx

/-- In strict mode there is no grace. -/
theorem notOvertaken_of_strict (hstrict : opts.strict = true) : NotOvertaken opts w e := by
  intro t agent call reason cached he hf hcached hgraced
  simp [graced, hstrict] at hgraced

/-- The versions returned of an agent never decrease, and none is above the watermark. -/
structure NeverLower (R : PolicyReading) (opts : PolicyCacheOptions)
    (db : List (JsString × CacheRow)) (es : List CacheEvent) : Prop where
  ordered : (servedBy R opts ((machine R opts).history (boot ⟨db, []⟩) es)).Pairwise
    fun x y => x.1 = y.1 → x.2.version ≤ y.2.version
  highestSeen : ∀ x ∈ servedBy R opts ((machine R opts).history (boot ⟨db, []⟩) es),
    x.2.version ≤ ((machine R opts).run (boot ⟨db, []⟩) es).shared.highestSeen x.1

end PolicyCache

open PolicyCache in
/-- **Served versions never decrease.** In every run of `get`, `refresh` and restarts over a
table that the cache has written, whatever the reads return and in whatever order, if no `get`
ends in controlled grace with a policy older than the one the table holds by then. -/
theorem versions_kept (R : PolicyReading) (opts : PolicyCacheOptions)
    (db : List (JsString × CacheRow)) (es : List CacheEvent) (hdb : Consistent db)
    (hnot : ∀ x ∈ (machine R opts).history (boot ⟨db, []⟩) es, NotOvertaken opts x.1 x.2) :
    NeverLower R opts db es := by
  have hr : Rising R opts ((machine R opts).history (boot ⟨db, []⟩) es)
      ((machine R opts).run (boot ⟨db, []⟩) es) := by
    refine run_invariant (C := fun _ w e => NotOvertaken opts w e) ?_ ?_ ?_
    · refine ⟨hdb, fun agent cached hcached => ?_, fun tf htf => ?_, fun x hx => ?_, .nil⟩
      · cases hcached
      · cases htf
      · cases hx
    · exact fun h w e hr hnot => hr.step hnot
    · intro pre e post hes
      exact hnot (_, e) (by rw [hes]; exact mem_history)
  exact ⟨hr.ordered, fun x hx => (hr.served x hx).trans (hr.consistent.held x.1)⟩

/-! ## Two runs in grace -/

namespace Overtaken

open PolicyCache Overlap

/-- A `get` finds the first version stale and reads; a refresh stores the second version, which
another `get` returns; then the read of the first `get` fails. -/
def overtaken : List CacheEvent :=
  outrun ++ [published, .start (.get (js "bot") 1783512060200 false), fails, .resume 1 .resolved]

/-- In controlled grace the first version is returned after the second: it was loaded before the
call awaited its refresh, which failed. -/
theorem downgraded : Consistent [] ∧ ¬ NeverLower Sample.reading grace [] overtaken := by
  refine ⟨fun agent row hrow => ?_, fun hkept => ?_⟩
  · cases hrow
  have hserved : (servedBy Sample.reading grace
      ((machine Sample.reading grace).history (Async.boot ⟨[], []⟩) overtaken)).map
        (fun x => (x.1, x.2.version)) = [(js "bot", 2), (js "bot", 1)] := by decide +kernel
  have hordered := (List.pairwise_map (f := fun x : JsString × CachedPolicy => (x.1, x.2.version))
    (R := fun x y => x.1 = y.1 → x.2 ≤ y.2)).2 hkept.ordered
  rw [hserved] at hordered
  simp at hordered

/-- In strict mode that `get` returns nothing, and so the versions that are returned do not
fall. -/
theorem versions_kept_strict : NeverLower Sample.reading DEFAULTS [] overtaken :=
  versions_kept Sample.reading DEFAULTS [] overtaken (fun agent row hrow => by cases hrow)
    fun x _ => notOvertaken_of_strict rfl

end Overtaken

namespace PolicyCache

variable {R : PolicyReading} {opts : PolicyCacheOptions} {cache cache' : PolicyCache}
variable {agent other : JsString} {raw : PolicyRowRaw} {policy : Policy} {cached : CachedPolicy}
variable {w : CacheWorld} {e : CacheEvent} {h : List (CacheWorld × CacheEvent)}

/-! ## Reads -/

/-- The reader has returned `raw` for the agent. -/
def ReadIn (h : List (CacheWorld × CacheEvent)) (agent : JsString) (raw : PolicyRowRaw) : Prop :=
  ∃ w t caller nowMs dbFails, (w, .resume t (.row (some raw) nowMs dbFails)) ∈ h ∧
    w.tasks.lookup t = some (.reading agent caller)

/-- The policy is the verified policy of a row that the reader has returned, with the version and
the flags of that row. -/
def FromReader (R : PolicyReading) (h : List (CacheWorld × CacheEvent)) (agent : JsString)
    (cached : CachedPolicy) : Prop :=
  ∃ raw, ReadIn h agent raw ∧
    verifyStoredPolicy R raw.policyjson raw.policyhash = .ok (.ok cached.policy) ∧
    cached.version = raw.version ∧ cached.enabled = raw.enabled ∧
    cached.permission = raw.agentperm ∧ cached.authority = raw.authority

/-- The row stands for such a policy, once its text is parsed and validated again. -/
def RowFromReader (R : PolicyReading) (h : List (CacheWorld × CacheEvent)) (agent : JsString)
    (row : CacheRow) : Prop :=
  ∃ doc policy, R.parse row.policyjson = some doc ∧ validatePolicy doc R.dialect = .ok policy ∧
    FromReader R h agent (rowPolicy row policy)

/-- A refresh of the agent has been stored. From then on the row is the reader's. -/
def Refreshed (R : PolicyReading) (opts : PolicyCacheOptions) (h : List (CacheWorld × CacheEvent))
    (agent : JsString) : Prop :=
  ∃ x ∈ h, ∃ raw, Stores R opts x.1 x.2 agent raw

/-- A `get` that is answered from the cache comes after a refresh. A `get` that refreshes first is
not restricted. -/
def AfterRefresh (R : PolicyReading) (opts : PolicyCacheOptions)
    (h : List (CacheWorld × CacheEvent)) (w : CacheWorld) (e : CacheEvent) : Prop :=
  ∀ agent nowMs dbFails cached, e = .start (.get agent nowMs dbFails) →
    ¬ (dbFails ∧ w.shared.memory.lookup agent = none) →
    (w.shared.load R agent).2 = some cached → ¬ stale opts (some cached) nowMs →
    Refreshed R opts h agent

theorem FromReader.mono {h' : List (CacheWorld × CacheEvent)} (hread : FromReader R h agent cached)
    (hsub : h ⊆ h') : FromReader R h' agent cached := by
  obtain ⟨raw, ⟨w, t, caller, nowMs, dbFails, hmem, hf⟩, hrest⟩ := hread
  exact ⟨raw, ⟨w, t, caller, nowMs, dbFails, hsub hmem, hf⟩, hrest⟩

/-- What the cache holds of an agent after a refresh comes from the reader. -/
structure Sourced (R : PolicyReading) (h : List (CacheWorld × CacheEvent)) (agent : JsString)
    (cache : PolicyCache) : Prop where
  memory : ∀ cached, cache.memory.lookup agent = some cached → FromReader R h agent cached
  row : ∀ row, cache.db.lookup agent = some row → RowFromReader R h agent row

theorem Sourced.mono {h' : List (CacheWorld × CacheEvent)} (hs : Sourced R h agent cache)
    (hsub : h ⊆ h') : Sourced R h' agent cache := by
  refine ⟨fun cached hcached => (hs.memory cached hcached).mono hsub, fun row hrow => ?_⟩
  obtain ⟨doc, policy, hparse, hvalid, hread⟩ := hs.row row hrow
  exact ⟨doc, policy, hparse, hvalid, hread.mono hsub⟩

theorem Sourced.load (hs : Sourced R h agent cache)
    (hload : Loads R cache agent (cache', some cached)) : FromReader R h agent cached := by
  cases hload with
  | held cached hmemory => exact hs.memory cached hmemory
  | hydrated row doc policy hmemory hrow hparse hvalid =>
    obtain ⟨doc', policy', hparse', hvalid', hread⟩ := hs.row row hrow
    rw [hparse] at hparse'
    cases hparse'
    rw [hvalid] at hvalid'
    cases hvalid'
    exact hread

/-- A verified row that is stored comes from the reader that returned it. -/
theorem sourced_store {nowMs : ℤ} (hread : ReadIn h agent raw)
    (hverify : verifyStoredPolicy R raw.policyjson raw.policyhash = .ok (.ok policy)) :
    Sourced R h agent (cache.store opts agent raw policy nowMs) := by
  unfold store
  constructor
  · intro cached hcached
    rw [lookup_mapSet, if_pos rfl] at hcached
    cases hcached
    exact ⟨raw, hread, hverify, rfl, rfl, rfl, rfl⟩
  · intro row hrow
    rw [lookup_mapSet, if_pos rfl] at hrow
    cases hrow
    obtain ⟨doc, hparse, hvalid⟩ := verified_policy hverify
    refine ⟨doc, policy, hparse, hvalid, raw, hread, hverify, rfl, ?_, rfl, rfl⟩
    cases raw.enabled <;> simp [rowPolicy]

/-- A step that stores nothing for the agent keeps what the cache holds of it. -/
theorem Sourced.changes (hs : Sourced R h agent w.shared) (hchange : Changes R opts w e cache')
    (hnot : ∀ raw, ¬ Stores R opts w e agent raw) : Sourced R h agent cache' := by
  cases hchange with
  | same => exact hs
  | loaded other =>
    have hload : Loads R w.shared other (w.shared.load R other) := load_cases
    refine ⟨fun cached hcached => ?_, by rw [hload.db]; exact hs.row⟩
    generalize w.shared.load R other = loaded at hload hcached
    cases hload with
    | held cached' hmemory => exact hs.memory cached hcached
    | absent hmemory => exact hs.memory cached hcached
    | hydrated row doc policy hmemory hrow hparse hvalid =>
      rw [lookup_mapSet] at hcached
      split at hcached
      case isTrue heq =>
        subst heq
        cases hcached
        exact hs.load (.hydrated row doc policy hmemory hrow hparse hvalid)
      case isFalse => exact hs.memory cached hcached
  | stored other raw policy nowMs hstores hverify hseen =>
    have hne : agent ≠ other := by
      rintro rfl
      exact hnot raw hstores
    refine ⟨fun cached hcached => hs.memory cached ?_, fun row hrow => hs.row row ?_⟩
    · unfold store at hcached
      rwa [lookup_mapSet, if_neg hne] at hcached
    · unfold store at hrow
      rwa [lookup_mapSet, if_neg hne] at hrow
  | restarted =>
    refine ⟨fun cached hcached => ?_, hs.row⟩
    cases hcached

/-- **One step** keeps every policy that can be served one that a reader returned, from the first
refresh of the agent on. -/
theorem sourced_step (hs : Refreshed R opts h agent → Sourced R h agent w.shared)
    (href : Refreshed R opts (h ++ [(w, e)]) agent) :
    Sourced R (h ++ [(w, e)]) agent ((machine R opts).next w e).shared := by
  by_cases hstores : ∃ raw, Stores R opts w e agent raw
  · obtain ⟨raw, hraw⟩ := hstores
    obtain ⟨policy, nowMs, hverify, hnext⟩ := hraw.next_shared
    obtain ⟨t, caller, nowMs', dbFails, rfl, hf, -⟩ := hraw
    rw [hnext]
    exact sourced_store ⟨w, t, caller, nowMs', dbFails, by simp, hf⟩ hverify
  · have hnot : ∀ raw, ¬ Stores R opts w e agent raw := fun raw hraw => hstores ⟨raw, hraw⟩
    obtain ⟨x, hx, raw, hraw⟩ := href
    -- the refresh was stored before this step
    have hbefore : x ∈ h := by
      rcases List.mem_append.1 hx with hx | hx
      · exact hx
      · obtain rfl := List.mem_singleton.1 hx
        exact absurd hraw (hnot raw)
    exact ((hs ⟨x, hbefore, raw, hraw⟩).changes (shared_next w e) hnot).mono
      (List.subset_append_left _ _)

theorem sourced_run (db : List (JsString × CacheRow)) (es : List CacheEvent) (agent : JsString)
    (href : Refreshed R opts ((machine R opts).history (boot ⟨db, []⟩) es) agent) :
    Sourced R ((machine R opts).history (boot ⟨db, []⟩) es) agent
      ((machine R opts).run (boot ⟨db, []⟩) es).shared := by
  refine run_invariant (M := machine R opts)
    (P := fun h w => Refreshed R opts h agent → Sourced R h agent w.shared)
    (C := fun _ _ _ => True) ?_ ?_ (fun _ _ _ _ => trivial) href
  · rintro ⟨x, hx, -⟩
    cases hx
  · exact fun h w e hs _ => sourced_step hs

/-- A refresh that a `get` awaits and that ended well was stored. -/
theorem refreshed_of_frame (cache : PolicyCache) (es : List CacheEvent) :
    ∀ tf ∈ ((machine R opts).run (boot cache) es).tasks, ∀ agent call,
      tf.2 = .refreshed agent call .ok →
        Refreshed R opts ((machine R opts).history (boot cache) es) agent := by
  refine frames_hold (K := fun h _ f => ∀ agent call, f = .refreshed agent call .ok →
    Refreshed R opts h agent) ?_ ?_ (wf_boot cache) (by simp [boot]) es
  · rintro h x t f hK agent call hf
    obtain ⟨y, hy, hraw⟩ := hK agent call hf
    exact ⟨y, List.mem_append_left _ hy, hraw⟩
  · rintro h w e t seg f - - hseg hnext agent call rfl
    rcases segment?_cases hseg with ⟨i, rfl, rfl, rfl⟩ | ⟨f₀, r, rfl, hf, hres⟩
    · cases i with
      | refresh agent' => cases hnext
      | get agent' nowMs dbFails => cases startGet_frame hnext
    · cases f₀ with
      | reading agent' caller =>
        cases r with
        | row raw nowMs dbFails =>
          cases hres
          cases raw with
          | none =>
            obtain ⟨call', rfl, heq⟩ := finish_frame hnext
            cases heq
          | some raw =>
            obtain ⟨call', rfl, heq⟩ := finish_frame hnext
            obtain ⟨rfl, rfl, hok⟩ := Frame.refreshed.inj heq
            exact ⟨_, List.mem_append_right _ (List.mem_singleton_self _), raw,
              t, some call, nowMs, dbFails, rfl, hf, hok.symm⟩
        | failed =>
          cases hres
          obtain ⟨call', rfl, heq⟩ := finish_frame hnext
          cases heq
        | resolved => cases hres
      | refreshed agent' call outcome =>
        cases r with
        | resolved =>
          cases hres
          exact absurd hnext endGet_done
        | _ => cases hres

/-- Every policy that a `get` returns was read from the chain before. -/
def ServedFromReader (R : PolicyReading) (opts : PolicyCacheOptions)
    (db : List (JsString × CacheRow)) (es : List CacheEvent) : Prop :=
  ∀ pre e post agent cached, es = pre ++ e :: post →
    (agent, cached) ∈ served R opts ((machine R opts).run (boot ⟨db, []⟩) pre) e →
    FromReader R ((machine R opts).history (boot ⟨db, []⟩) pre) agent cached

end PolicyCache

open PolicyCache in
/-- **The cache file is not an authority.** In strict mode, over any content of the table, in
every run of `get`, `refresh` and restarts, whatever the reads return: every policy that `get`
returns is the verified policy of a row that the reader returned for the agent, if no `get` is
answered from the table before a refresh of the agent has been stored. -/
theorem served_from_reader (R : PolicyReading) (opts : PolicyCacheOptions)
    (db : List (JsString × CacheRow)) (es : List CacheEvent) (hstrict : opts.strict = true)
    (hafter : ∀ pre e post, es = pre ++ e :: post →
      AfterRefresh R opts ((machine R opts).history (boot ⟨db, []⟩) pre)
        ((machine R opts).run (boot ⟨db, []⟩) pre) e) :
    ServedFromReader R opts db es := by
  intro pre e post agent cached hes hserved
  obtain ⟨t, hout⟩ := mem_served.1 hserved
  cases returned_cases hout with
  | fresh nowMs dbFails he hdb hload hfresh =>
    have href := hafter pre e post hes agent nowMs dbFails cached he hdb hload hfresh
    have hloads : Loads R ((machine R opts).run (boot ⟨db, []⟩) pre).shared agent _ := load_cases
    rw [← Prod.mk.eta (p := ((machine R opts).run (boot ⟨db, []⟩) pre).shared.load R agent),
      hload] at hloads
    exact (sourced_run db pre agent href).load hloads
  | confirmed call he hf hmemory =>
    have href := refreshed_of_frame _ pre _ (mem_of_lookup hf) agent call rfl
    exact (sourced_run db pre agent href).memory cached hmemory
  | graced call reason he hf hcached hgraced => simp [graced, hstrict] at hgraced

/-! ## An altered table -/

namespace Altered

open PolicyCache Overlap

/-- A row that no read returned, with the hash of another policy, dated now. -/
def altered : CacheRow where
  authority := js "owner"
  permission := js "active"
  version := 7
  policyhash := js "00"
  policyjson := Sample.policyText
  enabled := 1
  isFinancial := 1
  verifiedAtMs := 1783512001700
  source := js "chain"
  highestSeenVersion := 7

/-- The first `get` after a start returns the policy of the row, without a read: nothing compares
its text with its hash. -/
theorem served_unread :
    DEFAULTS.strict = true ∧
      ¬ ServedFromReader Sample.reading DEFAULTS [(js "bot", altered)] [get] := by
  refine ⟨rfl, fun hread => ?_⟩
  have hserved : ∃ x ∈ served Sample.reading DEFAULTS
      (Async.boot ⟨[(js "bot", altered)], []⟩) get, x.1 = js "bot" :=
    List.any_eq_true.1 (by decide +kernel) |>.imp fun x hx => ⟨hx.1, of_decide_eq_true hx.2⟩
  obtain ⟨⟨agent, cached⟩, hmem, -⟩ := hserved
  obtain ⟨raw, ⟨w, t, caller, nowMs, dbFails, hin, -⟩, -⟩ := hread [] get [] agent cached rfl hmem
  cases hin

/-- Once a refresh was stored, the table no longer matters: the `get` after it returns what the
reader returned. -/
theorem served_from_reader_refreshed :
    ServedFromReader Sample.reading DEFAULTS [] [.start (.refresh (js "bot")), created, get] := by
  refine served_from_reader Sample.reading DEFAULTS [] _ rfl ?_
  intro pre e post hes agent nowMs dbFails cached he _ _ _
  subst he
  match pre with
  | [] => cases hes
  | [_] => cases hes
  | [_, _] =>
    cases hes
    exact ⟨_, List.mem_cons_of_mem _ (List.mem_singleton_self _), Sample.created.raw,
      stores_of_stored? (by decide +kernel)⟩
  | _ :: _ :: _ :: pre =>
    have hlen := congrArg List.length hes
    simp at hlen

end Altered

end Signbox
