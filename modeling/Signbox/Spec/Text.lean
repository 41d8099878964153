import Signbox.Spec.Types
import Mathlib.Data.List.Sort

/-!
# Texts of JSON values

`JSON.stringify`, `String(x)`, the UTF-8 bytes of a string, and the RFC 8785
canonicalizer of `core/canonical/jcs.ts`.
-/

namespace Signbox

/-! ## Quoting -/

def isHighSurrogate (u : UInt16) : Bool := decide (0xD800 ≤ u) && decide (u ≤ 0xDBFF)

def isLowSurrogate (u : UInt16) : Bool := decide (0xDC00 ≤ u) && decide (u ≤ 0xDFFF)

/-- The lowercase hexadecimal digit of a value below 16. -/
def hexDigit (n : ℕ) : UInt16 :=
  if n < 10 then unit '0' + n.toUInt16 else unit 'a' + (n - 10).toUInt16

/-- `\uXXXX`. -/
def unicodeEscape (u : UInt16) : JsString :=
  js "\\u" ++ [hexDigit (u.toNat / 4096 % 16), hexDigit (u.toNat / 256 % 16),
    hexDigit (u.toNat / 16 % 16), hexDigit (u.toNat % 16)]

/-- `JSON.stringify` of one code unit that is not part of a surrogate pair. -/
def escapeUnit (u : UInt16) : JsString :=
  if u = unit '"' then js "\\\""
  else if u = unit '\\' then js "\\\\"
  else if u = 0x08 then js "\\b"
  else if u = 0x09 then js "\\t"
  else if u = 0x0A then js "\\n"
  else if u = 0x0C then js "\\f"
  else if u = 0x0D then js "\\r"
  else if u < 0x20 || isHighSurrogate u || isLowSurrogate u then unicodeEscape u
  else [u]

/-- The escaped body of a string: a surrogate pair stays, a lone surrogate is escaped. So the text
is well-formed Unicode. -/
def escapeUnits : JsString → JsString
  | [] => []
  | [u] => escapeUnit u
  | u :: v :: us =>
    if isHighSurrogate u && isLowSurrogate v then u :: v :: escapeUnits us
    else escapeUnit u ++ escapeUnits (v :: us)

/-- `JSON.stringify` of a string. -/
def quote (s : JsString) : JsString := unit '"' :: escapeUnits s ++ [unit '"']

/-! ## `JSON.stringify` and `String` -/

mutual
/-- `JSON.stringify`: members in insertion order, an infinity as `null`. There is no white
space. -/
def Json.stringify : Json → JsString
  | .null => js "null"
  | .bool b => if b then js "true" else js "false"
  | .num (.finite d) => (JsNumber.finite d).toText
  | .num (.infinite _) => js "null"
  | .str s => quote s
  | .arr items => js "[" ++ JsString.join (js ",") (stringifyItems items) ++ js "]"
  | .obj _ members => js "\x7b" ++ JsString.join (js ",") (stringifyMembers members) ++ js "\x7d"

def stringifyItems : List Json → List JsString
  | [] => []
  | v :: vs => v.stringify :: stringifyItems vs

def stringifyMembers : List (JsString × Json) → List JsString
  | [] => []
  | (k, v) :: ms => (quote k ++ js ":" ++ v.stringify) :: stringifyMembers ms
end

/-- The white space between the tokens of a text: what stands before a token at a depth, and
what stands after a colon. -/
structure Spacing where
  line : ℕ → JsString
  colon : JsString

namespace Spacing

/-- No white space. -/
def compact : Spacing := ⟨fun _ => [], []⟩

/-- A line for each element, indented by `n` spaces a level. -/
def indented (n : ℕ) : Spacing :=
  ⟨fun depth => unit '\n' :: List.replicate (n * depth) (unit ' '), [unit ' ']⟩

/-- What stands between the brackets of a value at a depth. -/
def body (p : Spacing) (depth : ℕ) (parts : List JsString) : JsString :=
  if parts = [] then []
  else p.line (depth + 1) ++ JsString.join (unit ',' :: p.line (depth + 1)) parts ++ p.line depth

end Spacing

mutual
/-- `JSON.stringify` with white space, as its third argument asks for. -/
def Json.render (p : Spacing) (depth : ℕ) : Json → JsString
  | .arr items => unit '[' :: p.body depth (renderItems p (depth + 1) items) ++ [unit ']']
  | .obj _ members =>
    unit '\x7b' :: p.body depth (renderMembers p (depth + 1) members) ++ [unit '\x7d']
  | v => v.stringify

def renderItems (p : Spacing) (depth : ℕ) : List Json → List JsString
  | [] => []
  | v :: vs => v.render p depth :: renderItems p depth vs

def renderMembers (p : Spacing) (depth : ℕ) : List (JsString × Json) → List JsString
  | [] => []
  | (k, v) :: ms =>
    (quote k ++ unit ':' :: p.colon ++ v.render p depth) :: renderMembers p depth ms
end

/-- `JSON.stringify(value, null, n)`. -/
def Json.stringifyIndented (n : ℕ) (v : Json) : JsString := v.render (.indented n) 0

mutual
/-- `String(value)` of a JSON value. An own `toString` member is never callable, so an
object that has one has no primitive form, and neither has one without a prototype. -/
def Json.toText : Json → Except JsError JsString
  | .null => .ok (js "null")
  | .bool b => .ok (if b then js "true" else js "false")
  | .num n => .ok n.toText
  | .str s => .ok s
  | .arr items => return JsString.join (js ",") (← joinItems items)
  | .obj .bare _ => .error .type
  | .obj .ordinary members =>
    if (members.lookup (js "toString")).isSome then .error .type else .ok (js "[object Object]")

/-- The element texts of `Array.prototype.join`: `null` is empty. An item without a text makes the
whole fail. -/
def joinItems : List Json → Except JsError (List JsString)
  | [] => .ok []
  | .null :: vs => return [] :: (← joinItems vs)
  | v :: vs => return (← v.toText) :: (← joinItems vs)
end

/-- `String(value)` of anything a property read returns. -/
def JsValue.toText : JsValue → Except JsError JsString
  | .undefined => .ok (js "undefined")
  | .json v => v.toText
  | .function name => .ok (js "function " ++ name ++ js "() \x7b [native code] \x7d")
  | .objectPrototype => .ok (js "[object Object]")

/-! ## Bytes and lengths -/

/-- The UTF-8 bytes of a string (`Buffer.from(s, "utf8")`): a lone surrogate is
written as the replacement character. -/
def utf8 : JsString → List UInt8
  | [] => []
  | [u] => single u
  | u :: v :: us =>
    if isHighSurrogate u && isLowSurrogate v then
      let c := 0x10000 + (u.toNat - 0xD800) * 0x400 + (v.toNat - 0xDC00)
      [(0xF0 + c / 0x40000).toUInt8, (0x80 + c / 0x1000 % 0x40).toUInt8,
        (0x80 + c / 0x40 % 0x40).toUInt8, (0x80 + c % 0x40).toUInt8] ++ utf8 us
    else single u ++ utf8 (v :: us)
where
  single (u : UInt16) : List UInt8 :=
    let c := if isHighSurrogate u || isLowSurrogate u then 0xFFFD else u.toNat
    if c < 0x80 then [c.toUInt8]
    else if c < 0x800 then [(0xC0 + c / 0x40).toUInt8, (0x80 + c % 0x40).toUInt8]
    else [(0xE0 + c / 0x1000).toUInt8, (0x80 + c / 0x40 % 0x40).toUInt8, (0x80 + c % 0x40).toUInt8]

/-- The code units of a code point. -/
def unitsOfPoint (c : ℕ) : JsString :=
  if c < 0x10000 then [c.toUInt16]
  else [(0xD800 + (c - 0x10000) / 0x400).toUInt16, (0xDC00 + (c - 0x10000) % 0x400).toUInt16]

/-- A character whose first bytes are read: its bits so far, how many bytes are to come, and the
bounds of the next one. -/
structure Utf8State where
  point : ℕ
  needed : ℕ
  lower : ℕ
  upper : ℕ

/-- The first byte of a character: all of it, no byte of any, or a character to be completed. -/
def utf8Start (a : ℕ) : JsString × Option Utf8State :=
  if a < 0x80 then ([a.toUInt16], none)
  else if a < 0xC2 then ([0xFFFD], none)
  else if a < 0xE0 then ([], some ⟨a - 0xC0, 1, 0x80, 0xBF⟩)
  else if a < 0xF0 then
    ([], some ⟨a - 0xE0, 2, if a = 0xE0 then 0xA0 else 0x80, if a = 0xED then 0x9F else 0xBF⟩)
  else if a < 0xF5 then
    ([], some ⟨a - 0xF0, 3, if a = 0xF0 then 0x90 else 0x80, if a = 0xF4 then 0x8F else 0xBF⟩)
  else ([0xFFFD], none)

def utf8Read : Option Utf8State → List UInt8 → JsString
  | none, [] => []
  | some _, [] => [0xFFFD]
  | none, a :: bs => (utf8Start a.toNat).1 ++ utf8Read (utf8Start a.toNat).2 bs
  | some c, a :: bs =>
    if c.lower ≤ a.toNat ∧ a.toNat ≤ c.upper then
      let point := c.point * 0x40 + (a.toNat - 0x80)
      if c.needed ≤ 1 then unitsOfPoint point ++ utf8Read none bs
      else utf8Read (some ⟨point, c.needed - 1, 0x80, 0xBF⟩) bs
    -- the byte is not part of the character, and is read again
    else 0xFFFD :: (utf8Start a.toNat).1 ++ utf8Read (utf8Start a.toNat).2 bs

/-- `Buffer.toString("utf8")`: the longest start of a character that is not completed is
read as one replacement character. -/
def decodeUtf8 (bytes : List UInt8) : JsString := utf8Read none bytes

/-- The length a JSON schema counts: code points, where a surrogate pair is one. -/
def ucs2length : JsString → ℕ
  | [] => 0
  | [_] => 1
  | u :: v :: us =>
    if isHighSurrogate u && isLowSurrogate v then ucs2length us + 1
    else ucs2length (v :: us) + 1

/-! ## Canonical form -/

/-- The members of an object in the order of their sorted keys. Their values are canonical texts
already. -/
def sortMembers (ms : List (JsString × JsString)) : List (JsString × JsString) :=
  ms.insertionSort fun a b => JsString.le a.1 b.1

mutual
/-- RFC 8785 canonical form: sorted keys, no white space, and numbers as `Number::toString` prints
them. It throws on an infinity. -/
def canonicalize : Json → Except JsError JsString
  | .null => .ok (js "null")
  | .bool b => .ok (if b then js "true" else js "false")
  | .num (.finite d) => .ok (JsNumber.finite d).toText
  | .num (.infinite _) =>
    .error (.canonicalization (js "non-finite numbers cannot be canonicalized"))
  | .str s => .ok (quote s)
  | .arr items => return js "[" ++ JsString.join (js ",") (← canonicalizeItems items) ++ js "]"
  | .obj _ members => do
    let texts ← canonicalizeMembers members
    let entries := (sortMembers texts).map fun m => quote m.1 ++ js ":" ++ m.2
    return js "\x7b" ++ JsString.join (js ",") entries ++ js "\x7d"

def canonicalizeItems : List Json → Except JsError (List JsString)
  | [] => .ok []
  | v :: vs => return (← canonicalize v) :: (← canonicalizeItems vs)

def canonicalizeMembers : List (JsString × Json) → Except JsError (List (JsString × JsString))
  | [] => .ok []
  | (k, v) :: ms => return (k, ← canonicalize v) :: (← canonicalizeMembers ms)
end

/-- A key test: members come out in code-unit order, strings quoted. -/
example : canonicalize (.obj .ordinary [(js "b", .arr [.null, .str (js "x\n")]), (js "a", .bool true)])
    = .ok (js "\x7b\"a\":true,\"b\":[null,\"x\\n\"]\x7d") := by decide

example : (Json.obj .ordinary [(js "a", .arr [.null]), (js "b", .arr [])]).stringifyIndented 2 =
    js "\x7b\n  \"a\": [\n    null\n  ],\n  \"b\": []\n\x7d" := by decide

end Signbox
