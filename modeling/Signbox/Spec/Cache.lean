import Signbox.Guard.Async
import Signbox.Spec.Nonce
import Signbox.Spec.Policy

/-!
# The policy cache

`core/policy/onchain.ts` and `daemon/policyCache.ts`: the integrity check of an on-chain
policy row, the table `policy_cache` with the map of loaded policies over it, and the two
operations on them. `refresh` and `get` are tasks: each awaits its read of the chain, and
`get` also awaits the refresh it made.
-/

namespace Signbox

open Async

/-- One raw policy row, exactly as the contract stores it. Nothing of it is trusted before its hash
is checked. -/
structure PolicyRowRaw where
  agent : JsString
  authority : JsString
  agentperm : JsString
  version : ℤ
  policyhash : JsString
  policyjson : JsString
  enabled : Bool
  updatedat : ℕ
  deriving DecidableEq

/-! ## The integrity check -/

inductive PolicyIntegrityError where
  | hashMismatch
  | invalidJson
  | notCanonical
  | schemaInvalid
  deriving DecidableEq

/-- `String.prototype.toLowerCase`, as far as hexadecimal digits go. -/
def toLowerCase (s : JsString) : JsString := s.map fun u => if isUpper u then u + 32 else u

/-- What the cache is built on: the hexadecimal digest, `JSON.parse` and the dialect. -/
structure PolicyReading where
  sha256 : List UInt8 → JsString
  parse : JsString → Option Json
  dialect : PolicyDialect

/-- Verify a stored policy's bytes against its hash and the canonical form, then validate the
schema. A text that parses to an infinite number makes the canonicalizer throw. -/
def verifyStoredPolicy (R : PolicyReading) (policyjson policyhash : JsString) :
    Except JsError (Except PolicyIntegrityError Policy) :=
  if R.sha256 (utf8 policyjson) ≠ toLowerCase policyhash then .ok (.error .hashMismatch)
  else match R.parse policyjson with
    | none => .ok (.error .invalidJson)
    | some parsed =>
      (canonicalize parsed).map fun canonical =>
        if canonical ≠ policyjson then .error .notCanonical
        else match validatePolicy parsed R.dialect with
          | .error _ => .error .schemaInvalid
          | .ok policy => .ok policy

/-! ## The state -/

structure CachedPolicy where
  policy : Policy
  version : ℤ
  /-- On-chain enabled flag, distinct from the local kill-switch. -/
  enabled : Bool
  authority : JsString
  /-- The on-chain agent permission. -/
  permission : JsString
  isFinancial : Bool
  verifiedAtMs : ℤ
  deriving DecidableEq

/-- A row of `policy_cache`; its key is the agent. The columns hold what SQLite stores, so the
flags are integers. -/
structure CacheRow where
  authority : JsString
  permission : JsString
  version : ℤ
  policyhash : JsString
  policyjson : JsString
  enabled : ℤ
  isFinancial : ℤ
  verifiedAtMs : ℤ
  source : JsString
  highestSeenVersion : ℤ
  deriving DecidableEq

structure PolicyCacheOptions where
  financialFreshnessMs : ℤ
  nonFinancialFreshnessMs : ℤ
  strict : Bool
  graceMs : ℤ
  source : JsString

/-- The table, and the policies loaded from it or from the chain. Only the table survives a
restart. -/
structure PolicyCache where
  db : List (JsString × CacheRow)
  memory : List (JsString × CachedPolicy)

inductive RefreshFailure where
  | unreachable
  | notRegistered
  | integrity (reason : PolicyIntegrityError)
  | rollback
  deriving DecidableEq

/-- How a refresh ends; it rejects when the canonicalizer or the database throws. A failure is
returned, and leaves the cache as it was. -/
inductive RefreshOutcome where
  | ok
  | failed (reason : RefreshFailure)
  | threw
  deriving DecidableEq

namespace PolicyCache

def DEFAULTS : PolicyCacheOptions := ⟨10000, 30000, true, 0, js "chain"⟩

variable (R : PolicyReading) (opts : PolicyCacheOptions)

/-! ## Refreshing -/

/-- Highest version ever accepted for an agent: zero before the first one. It is kept in the row of
the agent. -/
def highestSeen (cache : PolicyCache) (agent : JsString) : ℤ :=
  ((cache.db.lookup agent).map CacheRow.highestSeenVersion).getD 0

def isFinancial (policy : Policy) : Bool :=
  policy.rules.any fun r => r.effect = .allow ∧ r.limits.isSome

/-- The row and the loaded policy a verified read leaves. The watermark never falls. -/
def store (cache : PolicyCache) (agent : JsString) (raw : PolicyRowRaw) (policy : Policy)
    (nowMs : ℤ) : PolicyCache where
  db := mapSet agent {
      authority := raw.authority
      permission := raw.agentperm
      version := raw.version
      policyhash := raw.policyhash
      policyjson := raw.policyjson
      enabled := if raw.enabled then 1 else 0
      isFinancial := if isFinancial policy then 1 else 0
      verifiedAtMs := nowMs
      source := opts.source
      highestSeenVersion := match cache.db.lookup agent with
        | none => raw.version
        | some row => max row.highestSeenVersion raw.version } cache.db
  memory := mapSet agent {
      policy := policy
      version := raw.version
      enabled := raw.enabled
      authority := raw.authority
      permission := raw.agentperm
      isFinancial := isFinancial policy
      verifiedAtMs := nowMs } cache.memory

/-- What `refresh` does with a row it has read: the integrity check, the comparison with the
watermark, and the write. -/
def accept (cache : PolicyCache) (agent : JsString) (raw : PolicyRowRaw) (nowMs : ℤ)
    (dbFails : Bool) : PolicyCache × RefreshOutcome :=
  match verifyStoredPolicy R raw.policyjson raw.policyhash with
  | .error _ => (cache, .threw)
  | .ok (.error reason) => (cache, .failed (.integrity reason))
  | .ok (.ok policy) =>
    if dbFails then (cache, .threw)
    else if raw.version < cache.highestSeen agent then (cache, .failed .rollback)
    else (cache.store opts agent raw policy nowMs, .ok)

/-! ## Loading -/

/-- Load a cached policy into memory from the table. The document is validated again, but its hash
is not computed. -/
def hydrate (cache : PolicyCache) (agent : JsString) : PolicyCache × Option CachedPolicy :=
  match cache.db.lookup agent with
  | none => (cache, none)
  | some row =>
    match (R.parse row.policyjson).map fun doc => validatePolicy doc R.dialect with
    | some (.ok policy) =>
      let cached : CachedPolicy := {
        policy := policy
        version := row.version
        enabled := row.enabled = 1
        authority := row.authority
        permission := row.permission
        isFinancial := row.isFinancial = 1
        verifiedAtMs := row.verifiedAtMs }
      ({ cache with memory := mapSet agent cached cache.memory }, some cached)
    | _ => (cache, none)

/-- `this.memory.get(agent) ?? this.hydrate(agent)`: the policy of the memory, or else the one of
the table. -/
def load (cache : PolicyCache) (agent : JsString) : PolicyCache × Option CachedPolicy :=
  match cache.memory.lookup agent with
  | some cached => (cache, some cached)
  | none => cache.hydrate R agent

def freshnessMs (cached : CachedPolicy) : ℤ :=
  if cached.isFinancial then opts.financialFreshnessMs else opts.nonFinancialFreshnessMs

def stale (cached : Option CachedPolicy) (nowMs : ℤ) : Bool :=
  match cached with
  | none => true
  | some cached => nowMs - cached.verifiedAtMs > freshnessMs opts cached

/-- Controlled grace, for a cached policy that could not be confirmed. In strict mode there is
none. -/
def graced (cached : CachedPolicy) (nowMs : ℤ) : Bool :=
  !opts.strict && decide (nowMs - cached.verifiedAtMs ≤ opts.graceMs)

/-! ## Tasks -/

/-- A call of `get` that awaits a refresh, with the policy it had loaded. It is this policy that
grace would return. -/
structure GetCall where
  nowMs : ℤ
  cached : Option CachedPolicy

inductive Frame where
  /-- `await this.reader.read(agent)`, for `refresh` alone or inside a `get`. -/
  | reading (agent : JsString) (caller : Option GetCall)
  /-- `await this.refresh(agent)`, after the refresh has ended. -/
  | refreshed (agent : JsString) (call : GetCall) (outcome : RefreshOutcome)

/-- A call; whether the database would fail matters to `get` when it has to load. -/
inductive Request where
  | refresh (agent : JsString)
  | get (agent : JsString) (nowMs : ℤ) (dbFails : Bool)

/-- What resumes a task: the read ended, or the promise of the refresh was resolved. The
clock and the database are those of the moment. -/
inductive Reply where
  | row (raw : Option PolicyRowRaw) (nowMs : ℤ) (dbFails : Bool)
  | failed
  | resolved

inductive Result where
  | refreshed (agent : JsString) (outcome : RefreshOutcome)
  | policy (agent : JsString) (cached : CachedPolicy)
  | unavailable (agent : JsString)
  | threw (agent : JsString)

inductive Effect where
  | read (agent : JsString)

abbrev Step := Segment PolicyCache Frame Effect Result

/-- A refresh has ended: alone, or for the `get` that awaits it. The latter goes on in a later
segment. -/
def finish (cache : PolicyCache) (agent : JsString) (caller : Option GetCall)
    (outcome : RefreshOutcome) : Step :=
  match caller with
  | none => ⟨cache, [], .inr (.refreshed agent outcome)⟩
  | some call => ⟨cache, [], .inl (.refreshed agent call outcome)⟩

def startRefresh (cache : PolicyCache) (agent : JsString) (caller : Option GetCall) : Step :=
  ⟨cache, [.read agent], .inl (.reading agent caller)⟩

/-- Return the active policy for an agent, or re-confirm it first. Only a policy that is not stale
is returned without a read. -/
def startGet (cache : PolicyCache) (agent : JsString) (nowMs : ℤ) (dbFails : Bool) : Step :=
  if dbFails ∧ cache.memory.lookup agent = none then ⟨cache, [], .inr (.threw agent)⟩
  else match cache.load R agent with
  | (cache, cached) =>
    if stale opts cached nowMs then startRefresh cache agent (some ⟨nowMs, cached⟩)
    else match cached with
      | none => ⟨cache, [], .inr (.unavailable agent)⟩
      | some cached => ⟨cache, [], .inr (.policy agent cached)⟩

def endRead (cache : PolicyCache) (agent : JsString) (caller : Option GetCall)
    (raw : Option PolicyRowRaw) (nowMs : ℤ) (dbFails : Bool) : Step :=
  match raw with
  | none => finish cache agent caller (.failed .notRegistered)
  | some raw =>
    match cache.accept R opts agent raw nowMs dbFails with
    | (cache, outcome) => finish cache agent caller outcome

/-- The rest of `get` after its refresh: the policy of the memory when it succeeded, and the one
loaded before it in grace. -/
def endGet (cache : PolicyCache) (agent : JsString) (call : GetCall) (outcome : RefreshOutcome) :
    Step :=
  match outcome with
  | .threw => ⟨cache, [], .inr (.threw agent)⟩
  | .ok =>
    match cache.memory.lookup agent with
    | some cached => ⟨cache, [], .inr (.policy agent cached)⟩
    | none => ⟨cache, [], .inr (.unavailable agent)⟩
  | .failed _ =>
    match call.cached with
    | some cached =>
      if graced opts cached call.nowMs then ⟨cache, [], .inr (.policy agent cached)⟩
      else ⟨cache, [], .inr (.unavailable agent)⟩
    | none => ⟨cache, [], .inr (.unavailable agent)⟩

/-- An operation on the process: a restart that keeps the database. The policies in memory and the
calls that wait are lost. -/
inductive Admin where
  | restart

/-- The cache as a program of cooperative tasks. -/
def machine : Machine PolicyCache Request Frame Reply Admin Effect Result where
  start
    | .refresh agent, cache => startRefresh cache agent none
    | .get agent nowMs dbFails, cache => startGet R opts cache agent nowMs dbFails
  resume
    | .reading agent caller, .row raw nowMs dbFails, cache =>
      some (endRead R opts cache agent caller raw nowMs dbFails)
    | .reading agent caller, .failed, cache =>
      some (finish cache agent caller (.failed .unreachable))
    | .refreshed agent call outcome, .resolved, cache =>
      some (endGet opts cache agent call outcome)
    | _, _, _ => none
  admin
    | .restart, cache => { cache with memory := [] }
  ends
    | .restart => true

end PolicyCache

end Signbox
