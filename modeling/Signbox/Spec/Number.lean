import Signbox.Guard.Rounding
import Signbox.Spec.Parse

/-!
# Number arithmetic

What the editor computes with numbers: `parseFloat`, `parseInt`, `Math.round`, products and
quotients, and the text of a result. A finite number is the rational it denotes, so that an
operation is the exact one followed by the rounding of binary64; the two zeros are one.
-/

namespace Signbox

/-! ## White space -/

/-- `WhiteSpace` and `LineTerminator`. -/
def isWhite (u : UInt16) : Bool :=
  [0x09, 0x0A, 0x0B, 0x0C, 0x0D, 0x20, 0xA0, 0x1680, 0x2028, 0x2029, 0x202F, 0x205F, 0x3000,
    0xFEFF].contains u || (decide (0x2000 ≤ u) && decide (u ≤ 0x200A))

/-- `String.prototype.trimStart`. -/
def JsString.trimStart (s : JsString) : JsString := s.dropWhile isWhite

/-- `String.prototype.trim`. -/
def JsString.trim (s : JsString) : JsString :=
  (JsString.trimStart (JsString.trimStart s).reverse).reverse

/-! ## Doubles -/

inductive Double where
  | nan
  | infinite (neg : Bool)
  | finite (x : ℚ)
  deriving DecidableEq

namespace Double

/-- The double a rational rounds to: ties to even, and an infinity beyond the largest finite
one. -/
def nearest (q : ℚ) : Double :=
  let x := Rounding.round 53 (-1074) q
  if |x| < 2 ^ 1024 then .finite x else .infinite (decide (q < 0))

/-- `x > 0`. -/
def isPositive : Double → Bool
  | .nan => false
  | .infinite neg => !neg
  | .finite x => decide (0 < x)

def isNegative : Double → Bool
  | .nan => false
  | .infinite neg => neg
  | .finite x => decide (x < 0)

/-- `x * y`. -/
def mul : Double → Double → Double
  | .finite x, .finite y => nearest (x * y)
  | .nan, _ => .nan
  | _, .nan => .nan
  | .infinite s, y =>
    if y.isPositive then .infinite s else if y.isNegative then .infinite (!s) else .nan
  | .finite x, .infinite s =>
    if 0 < x then .infinite s else if x < 0 then .infinite (!s) else .nan

/-- `x / y` for a finite `y` that is not zero. -/
def divBy (y : ℚ) : Double → Double
  | .nan => .nan
  | .infinite s => .infinite (s != decide (y < 0))
  | .finite x => nearest (x / y)

/-- `Math.round`: the nearest integer, ties upward. An integer stays as it is. -/
def round : Double → Double
  | .nan => .nan
  | .infinite s => .infinite s
  | .finite x => .finite ⌊x + 1 / 2⌋

end Double

/-! ## Texts of doubles -/

/-- The rational a decimal denotes. -/
def Decimal.value (d : Decimal) : ℚ := (if d.neg then -1 else 1) * (d.coeff * 10 ^ d.exp)

/-- The number of a JSON value. -/
def JsNumber.toDouble : JsNumber → Double
  | .finite d => .nearest d.value
  | .infinite neg => .infinite neg

namespace Double

/-- The decimal of `k` digits that denotes the positive double `x`, if there is one: the
closest of the two around it that does. -/
def decimalOf (x : ℚ) (k : ℕ) : Option Decimal :=
  let e := Int.log 10 x + 1 - k
  let y := x / 10 ^ e
  ([Rounding.roundEven y, ⌊y⌋, ⌊y⌋ + 1].find? fun s =>
    decide (nearest (s.toNat * 10 ^ e) = .finite x)).map fun s => .ofParts false s.toNat e

/-- All digits of a double: its denominator is a power of two. -/
def allDigits (x : ℚ) : Decimal :=
  .ofParts false (x.num.natAbs * 5 ^ x.den.log2) (-x.den.log2)

/-- The shortest decimal that denotes the positive double `x`; 17 digits are enough. Of several it
is the closest. -/
def shortest (x : ℚ) : Decimal :=
  ((List.range 17).findSome? fun k => decimalOf x (k + 1)).getD (allDigits x)

/-- The decimal `Number::toString` prints. An integer up to `2 ^ 53` has all its digits. -/
def toDecimal (x : ℚ) : Decimal :=
  if x.den = 1 ∧ x.num.natAbs ≤ 2 ^ 53 then .ofParts (decide (x < 0)) x.num.natAbs 0
  else .ofParts (decide (x < 0)) (shortest |x|).coeff (shortest |x|).exp

/-- `String(x)`. -/
def toText : Double → JsString
  | .nan => js "NaN"
  | .infinite neg => (JsNumber.infinite neg).toText
  | .finite x => (JsNumber.finite (toDecimal x)).toText

/-- The number of a JSON value, unless it is `NaN`. -/
def toNumber : Double → Option JsNumber
  | .nan => none
  | .infinite neg => some (.infinite neg)
  | .finite x => some (.finite (toDecimal x))

end Double

/-- What `JSON.parse` makes of a number literal; no literal denotes `NaN`. -/
def JsNumber.ofLiteral (d : Decimal) : JsNumber :=
  (Double.nearest d.value).toNumber.getD (.finite d)

/-! ## Reading numbers -/

/-- The digits after a point, if there is one, and the text after them. -/
def splitFraction : JsString → JsString × JsString
  | [] => ([], [])
  | u :: us =>
    if u = unit '.' then (us.takeWhile isDigit, us.dropWhile isDigit) else ([], u :: us)

/-- An unsigned decimal literal at the start of a text: its digits and exponent. -/
def readDecimal (s : JsString) : Option (ℕ × ℤ) :=
  let whole := s.takeWhile isDigit
  let (frac, rest) := splitFraction (s.dropWhile isDigit)
  if whole = [] ∧ frac = [] then none
  else
    -- an exponent part that is not complete is not part of the literal
    let e := ((JsonText.readExponent rest).map Prod.fst).getD 0
    some (natOfDigits (whole ++ frac), e - frac.length)

/-- `parseFloat`: the longest literal at the start of the text, and `NaN` where there is none. -/
def parseFloat (s : JsString) : Double :=
  let (neg, t) := JsonText.readSign true (JsString.trimStart s)
  if (js "Infinity").isPrefixOf t then .infinite neg
  else
    match readDecimal t with
    | none => .nan
    | some (coeff, e) => .nearest ((if neg then -1 else 1) * (coeff * 10 ^ e))

/-- `parseInt(s, 10)`: the digits at the start of the text. Neither a fraction nor an exponent is
read. -/
def parseInt (s : JsString) : Double :=
  let (neg, t) := JsonText.readSign true (JsString.trimStart s)
  let digits := t.takeWhile isDigit
  if digits = [] then .nan
  else .nearest ((if neg then -1 else 1) * natOfDigits digits)

/-- `parseInt(s, 10) || 1`: zero and a text without digits both count as one. -/
def parseCount (s : JsString) : JsNumber :=
  match parseInt s with
  | .finite x => if x = 0 then .finite (.ofNat 1) else .finite (Double.toDecimal x)
  | .infinite neg => .infinite neg
  | .nan => .finite (.ofNat 1)

end Signbox
