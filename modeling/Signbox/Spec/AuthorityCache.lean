import Signbox.Guard.Async
import Signbox.Spec.Nonce

/-!
# The key-authority cache

`daemon/authorityCache.ts`: whether the daemon's key is still authorized by the permission of an
account, remembered for a while. A check is a task that awaits the resolver when nothing recent
is remembered; what it then stores carries the time at which the check began.
-/

namespace Signbox

open Async

structure KeyAuthorityResult where
  authorized : Bool
  reason : Option JsString
  deriving DecidableEq

/-- The arguments of a check: the account, its permission, and the key that is expected to be
authorized by it. -/
structure KeyBinding where
  account : JsString
  permission : JsString
  expectedPublicKey : JsString
  deriving DecidableEq

structure AuthorityCacheOptions where
  freshnessMs : ℤ
  negativeMs : ℤ

structure AuthorityEntry where
  result : KeyAuthorityResult
  verifiedAtMs : ℤ
  deriving DecidableEq

structure AuthorityCache where
  entries : List (JsString × AuthorityEntry)

namespace AuthorityCache

def DEFAULTS : AuthorityCacheOptions := ⟨30000, 5000⟩

/-- ASCII unit separator. It joins the parts of a cache key, and no account or permission name of
the chain contains it. -/
def SEP : JsString := [0x1f]

def cacheKey (b : KeyBinding) : JsString :=
  JsString.join SEP [b.account, b.permission, b.expectedPublicKey]

def ttl (opts : AuthorityCacheOptions) (result : KeyAuthorityResult) : ℤ :=
  if result.authorized then opts.freshnessMs else opts.negativeMs

/-- What is remembered, unless it has lapsed. A negative result lapses sooner than a positive
one. -/
def cachedResult (opts : AuthorityCacheOptions) (cache : AuthorityCache) (b : KeyBinding) (now : ℤ) :
    Option KeyAuthorityResult :=
  ((cache.entries.lookup (cacheKey b)).filter fun cached =>
    now - cached.verifiedAtMs < ttl opts cached.result).map AuthorityEntry.result

def store (cache : AuthorityCache) (b : KeyBinding) (result : KeyAuthorityResult) (now : ℤ) :
    AuthorityCache := ⟨mapSet (cacheKey b) ⟨result, now⟩ cache.entries⟩

/-- `invalidate`: drop what is remembered, so that the next check asks the resolver again. -/
def invalidate (cache : AuthorityCache) (b : KeyBinding) : AuthorityCache :=
  ⟨cache.entries.filter fun entry => entry.1 ≠ cacheKey b⟩

/-! ## Tasks -/

/-- `await this.resolve(account, permission, expectedPublicKey)`. -/
structure Frame where
  binding : KeyBinding
  now : ℤ

/-- A check, with the time at which it begins. That time is what the entry is dated with, not the
time of the answer. -/
structure Request where
  binding : KeyBinding
  now : ℤ

inductive Reply where
  | resolved (result : KeyAuthorityResult)
  | failed

inductive Effect where
  | resolve (b : KeyBinding)

abbrev Step := Segment AuthorityCache Frame Effect KeyAuthorityResult

/-- What a reply of the resolver is read as: a failed lookup is a refusal, and is remembered as
one. -/
def outcome : Reply → KeyAuthorityResult
  | .resolved result => result
  | .failed => ⟨false, some (js "authority lookup failed")⟩

def startCheck (opts : AuthorityCacheOptions) (cache : AuthorityCache) (b : KeyBinding) (now : ℤ) :
    Step :=
  match cache.cachedResult opts b now with
  | some result => ⟨cache, [], .inr result⟩
  | none => ⟨cache, [.resolve b], .inl ⟨b, now⟩⟩

def endCheck (cache : AuthorityCache) (f : Frame) (reply : Reply) : Step :=
  ⟨cache.store f.binding (outcome reply) f.now, [], .inr (outcome reply)⟩

/-- The cache as a program of cooperative tasks; an operation from outside drops a binding. -/
def machine (opts : AuthorityCacheOptions) :
    Machine AuthorityCache Request Frame Reply KeyBinding Effect KeyAuthorityResult where
  start request cache := startCheck opts cache request.binding request.now
  resume f reply cache := some (endCheck cache f reply)
  admin b cache := cache.invalidate b
  ends _ := false

end AuthorityCache

end Signbox
