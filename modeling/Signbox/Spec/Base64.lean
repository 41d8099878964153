import Signbox.Spec.Parse

/-!
# Base64

`Buffer.toString("base64")`, and `Buffer.from(text, "base64")` for the texts its documentation
describes: either alphabet of RFC 4648, with white space anywhere and padding that may be missing.
-/

namespace Signbox

/-! ## Digits -/

/-- A digit of the standard alphabet. -/
def base64Digit (n : ℕ) : UInt16 :=
  if n < 26 then unit 'A' + n.toUInt16
  else if n < 52 then unit 'a' + (n - 26).toUInt16
  else if n < 62 then unit '0' + (n - 52).toUInt16
  else if n = 62 then unit '+' else unit '/'

/-- The value of a digit of either alphabet. -/
def base64Value? (u : UInt16) : Option ℕ :=
  if isUpper u then some (u.toNat - (unit 'A').toNat)
  else if isLower u then some (u.toNat - (unit 'a').toNat + 26)
  else if isDigit u then some (u.toNat - (unit '0').toNat + 52)
  else if u = unit '+' ∨ u = unit '-' then some 62
  else if u = unit '/' ∨ u = unit '_' then some 63
  else none

/-- The bytes in groups of six bits; the last group is filled with zeros. -/
def sextetsOf : List UInt8 → List ℕ
  | [] => []
  | [a] => [a.toNat / 4, a.toNat % 4 * 16]
  | [a, b] => [a.toNat / 4, a.toNat % 4 * 16 + b.toNat / 16, b.toNat % 16 * 4]
  | a :: b :: c :: rest =>
    a.toNat / 4 :: (a.toNat % 4 * 16 + b.toNat / 16) :: (b.toNat % 16 * 4 + c.toNat / 64) ::
      c.toNat % 64 :: sextetsOf rest

/-- The bytes of groups of six bits; one group alone holds none. -/
def bytesOfSextets : List ℕ → Option (List UInt8)
  | [] => some []
  | [_] => none
  | [a, b] => some [(a * 4 + b / 16).toUInt8]
  | [a, b, c] => some [(a * 4 + b / 16).toUInt8, (b % 16 * 16 + c / 4).toUInt8]
  | a :: b :: c :: d :: rest => (bytesOfSextets rest).map fun bytes =>
    (a * 4 + b / 16).toUInt8 :: (b % 16 * 16 + c / 4).toUInt8 :: (c % 4 * 64 + d).toUInt8 :: bytes

/-! ## Texts -/

/-- What fills the last group of four digits. -/
def base64Padding (bytes : List UInt8) : JsString :=
  if bytes.length % 3 = 1 then js "==" else if bytes.length % 3 = 2 then js "=" else []

/-- `Buffer.toString("base64")`. -/
def toBase64 (bytes : List UInt8) : JsString :=
  (sextetsOf bytes).map base64Digit ++ base64Padding bytes

/-- The bytes of a base64 text. -/
def fromBase64? (s : JsString) : Option (List UInt8) :=
  let text := s.filter fun u => !JsonText.isSpace u
  let digits := text.takeWhile (· ≠ unit '=')
  let padding := text.dropWhile (· ≠ unit '=')
  if padding.length ≤ 2 ∧ padding.all (· = unit '=') then
    (digits.mapM base64Value?).bind bytesOfSextets
  else none

example : toBase64 [0x66, 0x6f, 0x6f, 0xff] = js "Zm9v/w==" := by decide

example : fromBase64? (js "Zm9v\n_w") = some [0x66, 0x6f, 0x6f, 0xff] := by decide

end Signbox
