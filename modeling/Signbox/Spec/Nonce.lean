import Signbox.Spec.Json

/-!
# The anti-replay nonce cache

`daemon/nonceCache.ts`: a nonce is remembered until its request's expiry, in a table of its
agent. A full table refuses new nonces rather than dropping live ones.
-/

namespace Signbox

/-- `Map.prototype.set`: replace the value of a key, or add the key at the end. An entry keeps its
place when its value is replaced. -/
def mapSet {α : Type} (key : JsString) (value : α) :
    List (JsString × α) → List (JsString × α)
  | [] => [(key, value)]
  | (k, v) :: entries =>
    if k = key then (key, value) :: entries else (k, v) :: mapSet key value entries

inductive NonceState where
  | ok
  | replayed
  | full
  deriving DecidableEq

/-- The nonces of each agent, with their expiry. Agents have tables of their own, so none can fill
up the table of another. -/
structure NonceCache where
  maxEntriesPerAgent : ℕ
  perAgent : List (JsString × List (JsString × ℤ))
  deriving DecidableEq

namespace NonceCache

def empty : NonceCache := ⟨100000, []⟩

def purge (entries : List (JsString × ℤ)) (nowMs : ℤ) : List (JsString × ℤ) :=
  entries.filter fun e => ¬ e.2 ≤ nowMs

/-- Register a nonce in the table of one agent. The table is only swept when it is full, and live
nonces are never dropped. -/
def registerIn (maxEntries : ℕ) (entries : List (JsString × ℤ)) (nonce : JsString)
    (expiresAtMs nowMs : ℤ) : List (JsString × ℤ) × NonceState :=
  if ∃ expiry ∈ entries.lookup nonce, nowMs < expiry then (entries, .replayed)
  else if entries.length < maxEntries then (mapSet nonce expiresAtMs entries, .ok)
  else
    let entries := purge entries nowMs
    if entries.length < maxEntries then (mapSet nonce expiresAtMs entries, .ok)
    else (entries, .full)

/-- Register a nonce for an agent. A nonce that is remembered and has not expired is a replay. -/
def register (cache : NonceCache) (agent nonce : JsString) (expiresAtMs nowMs : ℤ) :
    NonceCache × NonceState :=
  let entries := (cache.perAgent.lookup agent).getD []
  let (entries, state) := registerIn cache.maxEntriesPerAgent entries nonce expiresAtMs nowMs
  ({ cache with perAgent := mapSet agent entries cache.perAgent }, state)

end NonceCache

end Signbox
