import Signbox.Guard.Async
import Signbox.Spec.Decompile

/-!
# Verified RPC

`chains/xpr/rpc.ts`: `get_info` is wrapped with the checks of the pinned chain id and of the head,
and `fetch` with a verification that is not older than the freshness window. A call of either is
a task. The verification that data calls share is a promise of the instance: its `get_info` is
answered, and only some microtasks later the promise is settled and `inflight` cleared.
-/

namespace Signbox

open Async

/-- The options; `Date.parse` reads the texts of head times. A text that it cannot read is a failed
check. -/
structure VerifiedRpcOptions where
  chainId : JsString
  freshnessMs : ℤ
  maxHeadLagMs : ℤ
  dateParse : JsString → Option ℤ

/-- A request to an endpoint, by its path and its body. Only the path decides whether it is
verified. -/
structure RpcRequest where
  path : JsString
  body : Json

namespace VerifiedRpc

def DEFAULT_FRESHNESS_MS : ℤ := 30000

def DEFAULT_MAX_HEAD_LAG_MS : ℤ := 120000

def VERIFY_PATH : JsString := js "/v1/chain/get_info"

/-- `originalGetInfo` asks for the path with an empty body. -/
def getInfoRequest : RpcRequest := ⟨VERIFY_PATH, .obj .ordinary []⟩

/-! ## The checks of `get_info` -/

/-- How the endpoint answers `get_info`, and the two readings of the clock that follow: at the
check of the head, and when the time is noted. -/
structure Answer where
  info : Option Json
  checkedMs : ℤ
  verifiedMs : ℤ

/-- The checks on an answer; nothing is accepted when the call fails. The chain id is pinned, and
the head must not lag behind. -/
def accepts (opts : VerifiedRpcOptions) (a : Answer) : Bool :=
  match a.info with
  | none => false
  | some info =>
    if (info.get (js "chain_id")).bind Json.str? ≠ some opts.chainId then false
    else match info.get (js "head_block_time") with
      | some (.str headTime) =>
        match opts.dateParse (headTime ++ js "Z") with
        | some headMs => !decide (a.checkedMs - headMs > opts.maxHeadLagMs)
        | none => false
      | _ => false

/-! ## The state -/

/-- The promise of a shared verification: `get_info` is asked, then it has returned or thrown, and
after that the promise is settled. -/
inductive Phase where
  | asked
  | returned
  | threw
  | fulfilled
  | rejected
  deriving DecidableEq

structure RpcState where
  verifiedAtMs : Option ℤ
  inflight : Option ℕ
  verifications : List (ℕ × Phase)

/-- `now() - verifiedAtMs < freshnessMs`, when there was a verification, whichever call it was made
for. -/
def fresh (opts : VerifiedRpcOptions) (s : RpcState) (now : ℤ) : Bool :=
  match s.verifiedAtMs with
  | none => false
  | some verifiedAtMs => decide (now - verifiedAtMs < opts.freshnessMs)

def setPhase (s : RpcState) (v : ℕ) (phase : Phase) : List (ℕ × Phase) :=
  s.verifications.map fun x => if x.1 = v then (v, phase) else x

/-! ## Tasks -/

inductive Frame where
  /-- `await ensureVerified()`, on a promise that is resolved already. -/
  | verified (request : RpcRequest)
  /-- `await ensureVerified()`, on a shared verification. -/
  | waiting (v : ℕ) (request : RpcRequest)
  /-- `await originalGetInfo()`. -/
  | asking

/-- A call of the wrapped `fetch`, with the reading of the clock it makes, or of `get_info`. The
latter is always asked anew. -/
inductive Call where
  | fetch (request : RpcRequest) (now : ℤ)
  | getInfo

inductive Reply where
  | resumed
  | answered (a : Answer)

/-- A request was handed to the underlying `fetch`, whose promise is the result. A `fetch` that is
rejected has not sent its request. -/
inductive Result where
  | sent
  | info
  | rejected
  deriving DecidableEq

inductive Effect where
  | send (request : RpcRequest)

abbrev Step := Segment RpcState Frame Effect Result

/-- What happens to a shared verification, apart from the calls. Its answer and its settlement are
two moments. -/
inductive Progress where
  | answered (v : ℕ) (a : Answer)
  | settled (v : ℕ)

/-- `ensureVerified` and the `await` on it: nothing to wait for, a verification to join, or a new
one. -/
def ensureVerified (opts : VerifiedRpcOptions) (s : RpcState) (request : RpcRequest) (now : ℤ) :
    Step :=
  if fresh opts s now then ⟨s, [], .inl (.verified request)⟩
  else match s.inflight with
    | some v => ⟨s, [], .inl (.waiting v request)⟩
    | none =>
      let v := s.verifications.length
      ⟨{ s with inflight := some v, verifications := s.verifications ++ [(v, .asked)] },
        [.send getInfoRequest], .inl (.waiting v request)⟩

def startFetch (opts : VerifiedRpcOptions) (s : RpcState) (request : RpcRequest) (now : ℤ) : Step :=
  if request.path ≠ VERIFY_PATH then ensureVerified opts s request now
  else ⟨s, [.send request], .inr .sent⟩

def endGetInfo (opts : VerifiedRpcOptions) (s : RpcState) (a : Answer) : Step :=
  if accepts opts a then ⟨{ s with verifiedAtMs := some a.verifiedMs }, [], .inr .info⟩
  else ⟨s, [], .inr .rejected⟩

/-- A waiting call goes on when the promise is settled: it sends its request, or rejects. -/
def endWait (s : RpcState) (v : ℕ) (request : RpcRequest) : Option Step :=
  match s.verifications.lookup v with
  | some .fulfilled => some ⟨s, [.send request], .inr .sent⟩
  | some .rejected => some ⟨s, [], .inr .rejected⟩
  | _ => none

/-- The `get_info` of a shared verification is answered, or its promise is settled. -/
def progress (opts : VerifiedRpcOptions) (s : RpcState) : Progress → RpcState
  | .answered v a =>
    match s.verifications.lookup v with
    | some .asked =>
      if accepts opts a then
        { s with verifiedAtMs := some a.verifiedMs, verifications := setPhase s v .returned }
      else { s with verifications := setPhase s v .threw }
    | _ => s
  | .settled v =>
    match s.verifications.lookup v with
    | some .returned => { s with inflight := none, verifications := setPhase s v .fulfilled }
    | some .threw => { s with inflight := none, verifications := setPhase s v .rejected }
    | _ => s

/-- The wrapped instance as a program of cooperative tasks. -/
def machine (opts : VerifiedRpcOptions) :
    Machine RpcState Call Frame Reply Progress Effect Result where
  start
    | .fetch request now, s => startFetch opts s request now
    | .getInfo, s => ⟨s, [.send getInfoRequest], .inl .asking⟩
  resume
    | .verified request, .resumed, s => some ⟨s, [.send request], .inr .sent⟩
    | .waiting v request, .resumed, s => endWait s v request
    | .asking, .answered a, s => some (endGetInfo opts s a)
    | _, _, _ => none
  admin p s := progress opts s p
  ends _ := false

/-- An instance that was just wrapped: nothing is verified, and nothing in flight. -/
def wrapped : RpcState := ⟨none, none, []⟩

end VerifiedRpc

end Signbox
