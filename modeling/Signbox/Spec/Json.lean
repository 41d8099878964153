import Mathlib.Algebra.GroupWithZero.Nat
import Mathlib.Data.Int.Notation
import Mathlib.Data.List.Sort

/-!
# JavaScript strings, numbers and JSON values

The values the daemon, the policy engine and the editor pass around are what
`JSON.parse` returns. A string is its list of UTF-16 code units, a finite number
is the decimal `Number::toString` prints (the shortest one that reads back as the
same double), and an object lists its own members in insertion order.
-/

namespace Signbox

/-- A JavaScript string: its UTF-16 code units. Surrogates need not come in pairs. -/
abbrev JsString := List UInt16

/-- Strings are compared unit by unit. -/
instance (s : JsString) (l : List JsString) : Decidable (s ∈ l) :=
  List.instDecidableMemOfLawfulBEq s l

/-- The code units of one character. -/
def unitsOf (c : Char) : JsString :=
  if c.toNat < 0x10000 then [c.toNat.toUInt16]
  else [(0xD800 + (c.toNat - 0x10000) / 0x400).toUInt16,
    (0xDC00 + (c.toNat - 0x10000) % 0x400).toUInt16]

/-- A string literal of the source. -/
def js (s : String) : JsString := s.toList.flatMap unitsOf

/-- The code unit of an ASCII character. -/
def unit (c : Char) : UInt16 := c.toNat.toUInt16

/-- `\d` of a regular expression. -/
def isDigit (u : UInt16) : Bool := decide (unit '0' ≤ u) && decide (u ≤ unit '9')

/-- `[a-z]`. -/
def isLower (u : UInt16) : Bool := decide (unit 'a' ≤ u) && decide (u ≤ unit 'z')

/-- `[A-Z]`. -/
def isUpper (u : UInt16) : Bool := decide (unit 'A' ≤ u) && decide (u ≤ unit 'Z')

/-- `[a-zA-Z0-9_]`. -/
def isWord (u : UInt16) : Bool := isLower u || isUpper u || isDigit u || u == unit '_'

/-- `^[class]{lo,hi}$` over one character class. -/
def matchesClass (cls : UInt16 → Bool) (lo hi : ℕ) (s : JsString) : Bool :=
  decide (lo ≤ s.length) && decide (s.length ≤ hi) && s.all cls

/-- `String.prototype.includes`. -/
def JsString.includes (s sub : JsString) : Bool := s.tails.any (sub.isPrefixOf ·)

/-- `String.prototype.split` on one separator unit: never empty. -/
def JsString.split (sep : UInt16) : JsString → List JsString
  | [] => [[]]
  | u :: us =>
    match JsString.split sep us with
    | [] => [[u]]
    | seg :: segs => if u = sep then [] :: seg :: segs else (u :: seg) :: segs

/-- `Array.prototype.join`. -/
def JsString.join (sep : JsString) : List JsString → JsString
  | [] => []
  | [s] => s
  | s :: t :: ss => s ++ sep ++ JsString.join sep (t :: ss)

/-- The order of `Array.prototype.sort` on strings: by UTF-16 code units, not by code points. -/
def JsString.le : JsString → JsString → Bool
  | [], _ => true
  | _ :: _, [] => false
  | u :: us, v :: vs => decide (u < v) || (u == v && JsString.le us vs)

/-! ## Numbers -/

/-- A finite number, as the shortest decimal that denotes it: `coeff * 10 ^ exp`,
negated when `neg`. Zero has one form, and no other coefficient ends in a zero. -/
structure Decimal where
  neg : Bool
  coeff : ℕ
  exp : ℤ
  normal : coeff % 10 ≠ 0 ∨ (coeff = 0 ∧ neg = false ∧ exp = 0)
  deriving DecidableEq

theorem Decimal.normal_zero :
    (0 : ℕ) % 10 ≠ 0 ∨ ((0 : ℕ) = 0 ∧ false = false ∧ (0 : ℤ) = 0) := .inr ⟨rfl, rfl, rfl⟩

/-- The decimal of `coeff * 10 ^ exp`, without the trailing zeros of the coefficient; each
step removes one, so `coeff` steps are enough. -/
def Decimal.strip : (fuel coeff : ℕ) → (exp : ℤ) → Decimal
  | fuel + 1, coeff, exp =>
    if h : coeff % 10 ≠ 0 then ⟨false, coeff, exp, .inl h⟩
    else Decimal.strip fuel (coeff / 10) (exp + 1)
  | 0, _, _ => ⟨false, 0, 0, Decimal.normal_zero⟩

/-- A natural number, as a number. -/
def Decimal.ofNat (n : ℕ) : Decimal := Decimal.strip n n 0

/-- A number `JSON.parse` can return: a finite double, or the infinity a literal
such as `1e999` overflows to. -/
inductive JsNumber where
  | finite (d : Decimal)
  | infinite (neg : Bool)
  deriving DecidableEq

/-- The value of an integral number (`!(x % 1)` on a finite number). A normal decimal is one when
its exponent is not negative. -/
def JsNumber.toInt? : JsNumber → Option ℤ
  | .finite d =>
    if 0 ≤ d.exp then
      some ((if d.neg then -1 else 1) * ((d.coeff * 10 ^ d.exp.toNat : ℕ) : ℤ))
    else none
  | .infinite _ => none

/-- `Number.isSafeInteger`, with the integer. -/
def JsNumber.safeInt? (n : JsNumber) : Option ℤ :=
  match n.toInt? with
  | some i => if i.natAbs ≤ 2 ^ 53 - 1 then some i else none
  | none => none

/-- The decimal digits of a natural number (`BigInt.prototype.toString`). -/
def digitsOf (n : ℕ) : JsString := (Nat.toDigits 10 n).map unit

/-- `Number::toString` (radix 10). Large and small numbers are written with an exponent. -/
def JsNumber.toText : JsNumber → JsString
  | .infinite neg => if neg then js "-Infinity" else js "Infinity"
  | .finite d =>
    if d.coeff = 0 then js "0"
    else
      let digits := digitsOf d.coeff
      let k : ℤ := digits.length
      let n : ℤ := d.exp + k
      let zeros (z : ℤ) : JsString := List.replicate z.toNat (unit '0')
      let body : JsString :=
        if k ≤ n ∧ n ≤ 21 then digits ++ zeros (n - k)
        else if 0 < n ∧ n ≤ 21 then
          digits.take n.toNat ++ [unit '.'] ++ digits.drop n.toNat
        else if -6 < n ∧ n ≤ 0 then js "0." ++ zeros (-n) ++ digits
        else
          let e := n - 1
          let expo := unit 'e' :: (if e < 0 then unit '-' else unit '+') :: digitsOf e.natAbs
          match digits with
          | [] => expo
          | [u] => u :: expo
          | u :: us => u :: unit '.' :: us ++ expo
      if d.neg then unit '-' :: body else body

/-! ## JSON values -/

/-- The prototype of an object: `Object.prototype` for a parsed object or an object
literal, none for `Object.create(null)`. -/
inductive Proto where
  | ordinary
  | bare
  deriving DecidableEq

/-- A JSON value. `JSON.parse` returns ordinary objects only. Bare ones are made by the decoder. -/
inductive Json where
  | null
  | bool (b : Bool)
  | num (n : JsNumber)
  | str (s : JsString)
  | arr (items : List Json)
  | obj (proto : Proto) (members : List (JsString × Json))

namespace Json

/-- The own members, if the value is an object. -/
def members? : Json → Option (List (JsString × Json))
  | .obj _ ms => some ms
  | _ => none

/-- The string a value is, if it is one (`typeof value === "string"`). -/
def str? : Json → Option JsString
  | .str s => some s
  | _ => none

end Json

/-! ## Property reads -/

/-- What an expression evaluates to: a JSON value, nothing, or something inherited
from `Object.prototype` by reading a property of an ordinary object. -/
inductive JsValue where
  | undefined
  | json (v : Json)
  | function (name : JsString)
  | objectPrototype

/-- The functions `Object.prototype` holds, with their own names. -/
def prototypeFunctions : List (JsString × JsString) :=
  [(js "constructor", js "Object"),
    (js "__defineGetter__", js "__defineGetter__"), (js "__defineSetter__", js "__defineSetter__"),
    (js "hasOwnProperty", js "hasOwnProperty"),
    (js "__lookupGetter__", js "__lookupGetter__"), (js "__lookupSetter__", js "__lookupSetter__"),
    (js "isPrototypeOf", js "isPrototypeOf"), (js "propertyIsEnumerable", js "propertyIsEnumerable"),
    (js "toString", js "toString"), (js "valueOf", js "valueOf"),
    (js "toLocaleString", js "toLocaleString")]

/-- A property `Object.prototype` holds itself, or `undefined` where it has none. -/
def prototypeMember (key : JsString) : JsValue :=
  if key = js "__proto__" then .json .null
  else match prototypeFunctions.lookup key with
    | some name => .function name
    | none => .undefined

/-- Read `key` of an object with these own members. What it does not own it may inherit. -/
def readMember (proto : Proto) (members : List (JsString × Json)) (key : JsString) : JsValue :=
  match members.lookup key with
  | some v => .json v
  | none =>
    match proto with
    | .bare => .undefined
    | .ordinary => if key = js "__proto__" then .objectPrototype else prototypeMember key

namespace JsValue

/-- The string a value is, if it is one (`typeof value === "string"`). -/
def str? : JsValue → Option JsString
  | .json (.str s) => some s
  | _ => none

/-- `value === undefined || value === null`. -/
def isNullish : JsValue → Bool
  | .undefined => true
  | .json .null => true
  | _ => false

/-- Read a property of a value that is an object and not an array; anything else
reads as `undefined`. -/
def readObject (key : JsString) : JsValue → JsValue
  | .json (.obj proto ms) => readMember proto ms key
  | .objectPrototype => prototypeMember key
  | _ => .undefined

end JsValue

end Signbox
