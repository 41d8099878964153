import Signbox.Spec.Policy

/-!
# The daemon protocol

`daemon/protocol.ts`: one line is one request, one line is one response. A line stands here
for what `JSON.parse` makes of it. The three request schemas are closed; the time stamps of
a request that was read are the instants `Date.parse` gives them.
-/

namespace Signbox

/-- A request line: what it parses to, or nothing where `JSON.parse` throws. Both are answered. -/
abbrev Line := Option Json

/-! ## Time stamps -/

/-- The parts of an `ISO_DATETIME_PATTERN` string; `fraction` holds up to three digits. -/
structure IsoDatetime where
  year : ℕ
  month : ℕ
  day : ℕ
  hour : ℕ
  minute : ℕ
  second : ℕ
  fraction : JsString
  deriving DecidableEq

namespace IsoDatetime

/-- `\d{n}`, with its value. -/
def digits (n : ℕ) (s : JsString) : Option (ℕ × JsString) :=
  if n ≤ s.length ∧ (s.take n).all isDigit then some (natOfDigits (s.take n), s.drop n) else none

/-- One literal character. -/
def expect (c : Char) : JsString → Option JsString
  | [] => none
  | u :: us => if u = unit c then some us else none

/-- `(\.\d{1,3})?Z$`, with the digits of the fraction. -/
def ending (s : JsString) : Option JsString :=
  match s with
  | [] => none
  | u :: us =>
    if u = unit 'Z' ∧ us = [] then some []
    else if u = unit '.' then
      let fraction := us.takeWhile isDigit
      if us.dropWhile isDigit = [unit 'Z'] ∧ 1 ≤ fraction.length ∧ fraction.length ≤ 3 then
        some fraction
      else none
    else none

/-- `ISO_DATETIME_PATTERN`: the digits only, so a day such as the 45th is read, and refused by
`Date.parse`. -/
def read (s : JsString) : Option IsoDatetime := do
  let (year, s) ← digits 4 s
  let (month, s) ← digits 2 (← expect '-' s)
  let (day, s) ← digits 2 (← expect '-' s)
  let (hour, s) ← digits 2 (← expect 'T' s)
  let (minute, s) ← digits 2 (← expect ':' s)
  let (second, s) ← digits 2 (← expect ':' s)
  return ⟨year, month, day, hour, minute, second, ← ending s⟩

/-- Days from 1970-01-01 to a day of the proleptic Gregorian calendar; the years are
counted from March. -/
def days (d : IsoDatetime) : ℤ :=
  let y : ℤ := if d.month ≤ 2 then d.year - 1 else d.year
  let m : ℤ := (d.month + 9) % 12
  365 * y + y / 4 - y / 100 + y / 400 + (153 * m + 2) / 5 + (d.day - 1) - 719468

def millisecond (d : IsoDatetime) : ℕ :=
  natOfDigits (d.fraction ++ List.replicate (3 - d.fraction.length) (unit '0'))

/-- `Date.parse`. Any month takes days up to 31, which run over into the next month, and
`24:00:00` is the end of the day. -/
def parse (d : IsoDatetime) : Option ℤ :=
  if 1 ≤ d.month ∧ d.month ≤ 12 ∧ 1 ≤ d.day ∧ d.day ≤ 31 ∧
      (d.hour ≤ 23 ∧ d.minute ≤ 59 ∧ d.second ≤ 59 ∨
        d.hour = 24 ∧ d.minute = 0 ∧ d.second = 0 ∧ d.millisecond = 0) then
    some (86400000 * d.days +
      (3600000 * d.hour + 60000 * d.minute + 1000 * d.second + d.millisecond : ℕ))
  else none

end IsoDatetime

example : (IsoDatetime.read (js "2026-07-08T12:00:00.5Z")).bind IsoDatetime.parse =
    some 1783512000500 := by decide

/-! ## Requests -/

/-- `SignRequestJson`: what an agent sends to have a transaction signed. Its token is that of the
agent. -/
structure SignRequest where
  requestId : JsString
  agent : JsString
  chain : JsString
  network : JsString
  chainId : JsString
  /-- Raw unserialized JSON transaction. -/
  transaction : Json
  /-- When true, the daemon signs and submits. -/
  broadcast : Option Bool
  requestedAt : ℤ
  expiresAt : ℤ
  nonce : JsString
  token : JsString

/-- `BroadcastRequestJson`: what an agent sends to have a signed transaction submitted. The daemon
does not look into it. -/
structure BroadcastRequest where
  requestId : JsString
  agent : JsString
  chain : JsString
  network : JsString
  chainId : JsString
  /-- The opaque signed transaction produced earlier by a sign request. -/
  signedTransaction : Json
  requestedAt : ℤ
  expiresAt : ℤ
  nonce : JsString
  token : JsString

inductive ReadOp where
  | whoami
  | query
  deriving DecidableEq

/-- `ReadRequestJson`: a question that uses no key. It carries no nonce. -/
structure ReadRequest where
  op : ReadOp
  requestId : JsString
  agent : JsString
  requestedAt : ℤ
  expiresAt : ℤ
  token : JsString
  method : Option JsString
  params : Option Json

namespace RequestSchema

open Schema

/-- `[A-Za-z0-9]`. -/
def isAlphanumeric (u : UInt16) : Bool := isLower u || isUpper u || isDigit u

def requestId : Json → Option JsString :=
  pattern (matchesClass (fun u => isAlphanumeric u || u == unit '-') 8 64)

def agent : Json → Option JsString :=
  pattern (matchesClass (fun u => isLower u || (decide (unit '1' ≤ u) && decide (u ≤ unit '5')) ||
    u == unit '.') 1 12)

def chainId : Json → Option JsString := pattern CHAIN_ID_PATTERN

/-- `[A-Za-z0-9_-]{16,hi}`. -/
def opaqueText (hi : ℕ) : Json → Option JsString :=
  pattern (matchesClass (fun u => isAlphanumeric u || u == unit '_' || u == unit '-') 16 hi)

/-- An `ISO_DATETIME_PATTERN` string that `Date.parse` reads. A request with any other is refused
as malformed. -/
def timestamp : Json → Option ℤ
  | .str s => (IsoDatetime.read s).bind IsoDatetime.parse
  | _ => none

/-- `{ type: "object" }`. -/
def object : Json → Option Json
  | .obj proto ms => some (.obj proto ms)
  | _ => none

def boolean : Json → Option Bool
  | .bool b => some b
  | _ => none

def readOp : Json → Option ReadOp
  | .str s => if s = js "whoami" then some .whoami else if s = js "query" then some .query else none
  | _ => none

def method : Json → Option JsString :=
  pattern (matchesClass (fun u => isLower u || u == unit '_') 1 40)

/-- `signRequestSchema`, as a reader. -/
def sign : Json → Option SignRequest
  | .obj _ ms => do
    guard (closed ms [js "requestId", js "agent", js "chain", js "network", js "chainId",
      js "transaction", js "broadcast", js "requestedAt", js "expiresAt", js "nonce", js "token"])
    return {
      requestId := ← required ms (js "requestId") requestId
      agent := ← required ms (js "agent") agent
      chain := ← required ms (js "chain") (text 1 32)
      network := ← required ms (js "network") (text 1 32)
      chainId := ← required ms (js "chainId") chainId
      transaction := ← required ms (js "transaction") object
      broadcast := ← optional ms (js "broadcast") boolean
      requestedAt := ← required ms (js "requestedAt") timestamp
      expiresAt := ← required ms (js "expiresAt") timestamp
      nonce := ← required ms (js "nonce") (opaqueText 128)
      token := ← required ms (js "token") (opaqueText 256) }
  | _ => none

/-- `broadcastRequestSchema`, as a reader. -/
def broadcast : Json → Option BroadcastRequest
  | .obj _ ms => do
    guard (closed ms [js "op", js "requestId", js "agent", js "chain", js "network", js "chainId",
      js "signedTransaction", js "requestedAt", js "expiresAt", js "nonce", js "token"])
    required ms (js "op") (const (js "broadcast"))
    return {
      requestId := ← required ms (js "requestId") requestId
      agent := ← required ms (js "agent") agent
      chain := ← required ms (js "chain") (text 1 32)
      network := ← required ms (js "network") (text 1 32)
      chainId := ← required ms (js "chainId") chainId
      signedTransaction := ← required ms (js "signedTransaction") object
      requestedAt := ← required ms (js "requestedAt") timestamp
      expiresAt := ← required ms (js "expiresAt") timestamp
      nonce := ← required ms (js "nonce") (opaqueText 128)
      token := ← required ms (js "token") (opaqueText 256) }
  | _ => none

/-- `readRequestSchema`, as a reader. -/
def read : Json → Option ReadRequest
  | .obj _ ms => do
    guard (closed ms [js "op", js "requestId", js "agent", js "requestedAt", js "expiresAt",
      js "token", js "method", js "params"])
    return {
      op := ← required ms (js "op") readOp
      requestId := ← required ms (js "requestId") requestId
      agent := ← required ms (js "agent") agent
      requestedAt := ← required ms (js "requestedAt") timestamp
      expiresAt := ← required ms (js "expiresAt") timestamp
      token := ← required ms (js "token") (opaqueText 256)
      method := ← optional ms (js "method") method
      params := ← optional ms (js "params") object }
  | _ => none

end RequestSchema

def parseSignRequest (line : Line) : Option SignRequest := line.bind RequestSchema.sign

def parseBroadcastRequest (line : Line) : Option BroadcastRequest :=
  line.bind RequestSchema.broadcast

/-- A query must name its method. -/
def parseReadRequest (line : Line) : Option ReadRequest := do
  let request ← line.bind RequestSchema.read
  guard (request.op = .query → request.method.isSome)
  return request

inductive Op where
  | sign
  | broadcast
  | whoami
  | query
  deriving DecidableEq

/-- Peek the operation kind without full validation. Defaults to `sign`, also for a line that is no
object. -/
def peekOp : Line → Op
  | some (.obj _ ms) =>
    match ms.lookup (js "op") with
    | some (.str s) =>
      if s = js "whoami" then .whoami
      else if s = js "query" then .query
      else if s = js "broadcast" then .broadcast
      else .sign
    | _ => .sign
  | _ => .sign

/-! ## Responses -/

inductive BroadcastStatus where
  | accepted
  | rejected
  | ambiguous
  deriving DecidableEq

/-- The fate of the reserved stateful quota, as the response reports it. -/
inductive QuotaFate where
  | committed
  | released
  | none
  deriving DecidableEq

/-- Outcome of the submit path, and its effect on stateful quota. There is a receipt, or a
reason. -/
structure BroadcastReport where
  status : BroadcastStatus
  receipt : Option Json
  reason : Option JsString
  quota : QuotaFate

/-- A refusal: its code, its text, and the policy version it was decided under. Before the policy
is loaded there is no version. -/
structure Denial where
  code : DenyCode
  safeReason : JsString
  policyVersion : Option ℤ
  deriving DecidableEq

inductive SignResponse where
  | signed (requestId signature transactionDigest : JsString) (signedTransaction : Option Json)
      (policyVersion : ℤ) (broadcast : Option BroadcastReport)
  | denied (requestId : JsString) (denial : Denial)

inductive BroadcastResponse where
  | broadcast (requestId : JsString) (report : BroadcastReport)
  | denied (requestId : JsString) (denial : Denial)

inductive ReadResponse where
  | whoami (requestId agent permission publicKey chain network chainId : JsString)
  | query (requestId method : JsString) (result : Json)
  | error (requestId : JsString) (op : ReadOp) (error : JsString)

inductive Response where
  | sign (response : SignResponse)
  | broadcast (response : BroadcastResponse)
  | read (response : ReadResponse)

end Signbox
