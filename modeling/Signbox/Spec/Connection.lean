import Signbox.Spec.Number

/-!
# Connections

`handleConnection` and `handleAdminConnection` of `daemon/server.ts`: the text a socket receives,
chunk by chunk, and the lines that are dispatched. The socket decodes UTF-8, so a chunk is a text.
-/

namespace Signbox

/-- `Buffer.byteLength(s, "utf8")`. The limit on a request is one of bytes, while the buffer holds
a string. -/
def byteLength (s : JsString) : ℕ := (utf8 s).length

/-- What is buffered of a line, and whether the socket is destroyed. A destroyed one never comes
back. -/
structure Connection where
  buffered : JsString
  destroyed : Bool
  deriving DecidableEq

namespace Connection

def opened : Connection := ⟨[], false⟩

def newline : UInt16 := unit '\n'

/-- The line up to the first newline, and what follows it. -/
def nextLine : JsString → Option (JsString × JsString)
  | [] => none
  | u :: us =>
    if u = newline then some ([], us) else (nextLine us).map fun x => (u :: x.1, x.2)

theorem nextLine_shorter {s line rest : JsString} (h : nextLine s = some (line, rest)) :
    rest.length < s.length := by
  induction s generalizing line with
  | nil => cases h
  | cons u us ih =>
    rw [nextLine] at h
    split at h
    · cases h
      exact Nat.lt_succ_self _
    · obtain ⟨⟨line', rest'⟩, hnext, heq⟩ := Option.map_eq_some_iff.1 h
      obtain ⟨-, rfl⟩ := Prod.mk.inj heq
      exact Nat.lt_succ_of_lt (ih hnext)

/-- A line that is dispatched: one that is not empty once it is trimmed. -/
def isRequest (line : JsString) : Bool := decide ((JsString.trim line).length > 0)

/-- The loop: the lines that are dispatched, and what stays buffered. The last part has no newline
yet. -/
def extract (buffered : JsString) : List JsString × JsString :=
  match _h : nextLine buffered with
  | none => ([], buffered)
  | some (line, rest) =>
    let more := extract rest
    (if isRequest line then line :: more.1 else more.1, more.2)
termination_by buffered.length
decreasing_by exact nextLine_shorter _h

/-- The handler of `data`. A destroyed socket receives nothing. The limit is on the buffer with the
whole chunk in it. -/
def onData (maxRequestBytes : ℕ) (c : Connection) (chunk : JsString) : Connection × List JsString :=
  if c.destroyed then (c, [])
  else
    let buffered := c.buffered ++ chunk
    -- oversized input: the connection is dropped
    if byteLength buffered > maxRequestBytes then (⟨buffered, true⟩, [])
    else (⟨(extract buffered).2, false⟩, (extract buffered).1)

/-- The chunks that arrive, one after the other, and the lines that are dispatched on the way. -/
def receive (maxRequestBytes : ℕ) : Connection → List JsString → Connection × List JsString
  | c, [] => (c, [])
  | c, chunk :: chunks =>
    let r := onData maxRequestBytes c chunk
    let r' := receive maxRequestBytes r.1 chunks
    (r'.1, r.2 ++ r'.2)

def DEFAULT_MAX_REQUEST_BYTES : ℕ := 64 * 1024

def handleConnection (maxRequestBytes : Option ℕ) (chunks : List JsString) :
    Connection × List JsString :=
  receive (maxRequestBytes.getD DEFAULT_MAX_REQUEST_BYTES) opened chunks

def handleAdminConnection (chunks : List JsString) : Connection × List JsString :=
  receive 4096 opened chunks

end Connection

end Signbox
