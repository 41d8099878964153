import Signbox.Spec.Asset
import Signbox.Spec.Nonce
import Signbox.Spec.Text

/-!
# `JSON.parse`

The text of one JSON value, with nothing but white space around it. A number literal denotes
the double nearest to it: `nearest` gives the shortest decimal of that double, or an infinity
when the literal is too large for one. A key that comes twice keeps its first place and its
last value.
-/

namespace Signbox

/-- The number `coeff * 10 ^ exp`, negated when `neg`. -/
def Decimal.ofParts (neg : Bool) (coeff : ℕ) (exp : ℤ) : Decimal :=
  if h : (Decimal.strip coeff coeff exp).coeff % 10 ≠ 0 then
    ⟨neg, (Decimal.strip coeff coeff exp).coeff, (Decimal.strip coeff coeff exp).exp, .inl h⟩
  else ⟨false, 0, 0, normal_zero⟩

namespace JsonText

def isSpace (u : UInt16) : Bool := u = 0x20 || u = 0x09 || u = 0x0A || u = 0x0D

def skipSpace (s : JsString) : JsString := s.dropWhile isSpace

/-- The text after one unit, and white space before it. -/
def readUnit (c : Char) (s : JsString) : Option JsString :=
  match skipSpace s with
  | [] => none
  | u :: us => if u = unit c then some us else none

def readWord (word s : JsString) : Option JsString :=
  if word.isPrefixOf s then some (s.drop word.length) else none

/-! ## Strings -/

def hexValue? (u : UInt16) : Option ℕ :=
  if isDigit u then some (u.toNat - (unit '0').toNat)
  else if unit 'a' ≤ u ∧ u ≤ unit 'f' then some (u.toNat - (unit 'a').toNat + 10)
  else if unit 'A' ≤ u ∧ u ≤ unit 'F' then some (u.toNat - (unit 'A').toNat + 10)
  else none

/-- The four digits of a `\u` escape. -/
def hex4 (a b c d : UInt16) : Option UInt16 := do
  let w ← hexValue? a
  let x ← hexValue? b
  let y ← hexValue? c
  let z ← hexValue? d
  return (w * 4096 + x * 256 + y * 16 + z).toUInt16

/-- The escapes of one character. -/
def simpleEscape (u : UInt16) : Option UInt16 :=
  if u = unit '"' ∨ u = unit '\\' ∨ u = unit '/' then some u
  else if u = unit 'b' then some 0x08
  else if u = unit 't' then some 0x09
  else if u = unit 'n' then some 0x0A
  else if u = unit 'f' then some 0x0C
  else if u = unit 'r' then some 0x0D
  else none

/-- A string literal after its opening quote, and the text after its closing one. -/
def readChars : JsString → Option (JsString × JsString)
  | [] => none
  | u :: us =>
    if u = unit '"' then some ([], us)
    else if u = unit '\\' then
      match us with
      | [] => none
      | e :: us =>
        if e = unit 'u' then
          match us with
          | a :: b :: c :: d :: us => do
            let x ← hex4 a b c d
            let (s, rest) ← readChars us
            return (x :: s, rest)
          | _ => none
        else do
          let x ← simpleEscape e
          let (s, rest) ← readChars us
          return (x :: s, rest)
    else if u < 0x20 then none
    else do
      let (s, rest) ← readChars us
      return (u :: s, rest)

/-! ## Numbers -/

/-- An optional sign. -/
def readSign (plus : Bool) : JsString → Bool × JsString
  | [] => (false, [])
  | u :: us =>
    if u = unit '-' then (true, us)
    else if plus ∧ u = unit '+' then (false, us)
    else (false, u :: us)

/-- An optional fraction: a point and digits. -/
def readFraction : JsString → Option (JsString × JsString)
  | [] => some ([], [])
  | u :: us =>
    if u = unit '.' then
      if us.takeWhile isDigit = [] then none
      else some (us.takeWhile isDigit, us.dropWhile isDigit)
    else some ([], u :: us)

/-- An optional exponent. -/
def readExponent : JsString → Option (ℤ × JsString)
  | [] => some (0, [])
  | u :: us =>
    if u = unit 'e' ∨ u = unit 'E' then
      let (neg, us) := readSign true us
      if us.takeWhile isDigit = [] then none
      else
        let e : ℤ := natOfDigits (us.takeWhile isDigit)
        some (if neg then -e else e, us.dropWhile isDigit)
    else some (0, u :: us)

/-- A number literal; its integer part has no leading zero. -/
def readNumber (nearest : Decimal → JsNumber) (s : JsString) : Option (JsNumber × JsString) := do
  let (neg, s) := readSign false s
  let whole := s.takeWhile isDigit
  guard (whole ≠ [] ∧ (whole.head? = some (unit '0') → whole.length = 1))
  let (frac, s) ← readFraction (s.dropWhile isDigit)
  let (e, s) ← readExponent s
  return (nearest (.ofParts neg (natOfDigits (whole ++ frac)) (e - frac.length)), s)

/-! ## Values -/

/-- What follows an element: whether another one does, and the text from there. Anything but a
comma or the bracket fails. -/
def readEnd (close : Char) (s : JsString) : Option (Bool × JsString) :=
  match skipSpace s with
  | [] => none
  | u :: us =>
    if u = unit close then some (false, us)
    else if u = unit ',' then some (true, us)
    else none

/-- The members of an object: the last value of each key, at the place of its first one. -/
def defineAll (ms : List (JsString × Json)) : List (JsString × Json) :=
  ms.foldl (fun acc m => mapSet m.1 m.2 acc) []

mutual
/-- A value. Every level of nesting takes two units of fuel, and two units of text. -/
def readValue (nearest : Decimal → JsNumber) : ℕ → JsString → Option (Json × JsString)
  | 0, _ => none
  | n + 1, s =>
    match skipSpace s with
    | [] => none
    | u :: us =>
      if u = unit '"' then (readChars us).map fun (s, rest) => (.str s, rest)
      else if u = unit '[' then
        match readUnit ']' us with
        | some rest => some (.arr [], rest)
        | none => (readItems nearest n us).map fun (items, rest) => (.arr items, rest)
      else if u = unit '\x7b' then
        match readUnit '\x7d' us with
        | some rest => some (.obj .ordinary [], rest)
        | none => (readMembers nearest n us).map fun (ms, rest) =>
          (.obj .ordinary (defineAll ms), rest)
      else if u = unit 'n' then (readWord (js "null") (u :: us)).map fun rest => (.null, rest)
      else if u = unit 't' then (readWord (js "true") (u :: us)).map fun rest => (.bool true, rest)
      else if u = unit 'f' then
        (readWord (js "false") (u :: us)).map fun rest => (.bool false, rest)
      else (readNumber nearest (u :: us)).map fun (x, rest) => (.num x, rest)

/-- The elements of an array that has some. -/
def readItems (nearest : Decimal → JsNumber) : ℕ → JsString → Option (List Json × JsString)
  | 0, _ => none
  | n + 1, s => do
    let (v, s) ← readValue nearest n s
    let (more, s) ← readEnd ']' s
    if more then
      let (vs, s) ← readItems nearest n s
      return (v :: vs, s)
    else return ([v], s)

/-- The members of an object that has some. -/
def readMembers (nearest : Decimal → JsNumber) :
    ℕ → JsString → Option (List (JsString × Json) × JsString)
  | 0, _ => none
  | n + 1, s => do
    let (key, s) ← readChars (← readUnit '"' s)
    let (v, s) ← readValue nearest n (← readUnit ':' s)
    let (more, s) ← readEnd '\x7d' s
    if more then
      let (ms, s) ← readMembers nearest n s
      return ((key, v) :: ms, s)
    else return ([(key, v)], s)
end

end JsonText

open JsonText in
/-- `JSON.parse`; `none` where it throws. The fuel is the length of the text and one more, which is
enough for any nesting. -/
def Json.parse (nearest : Decimal → JsNumber) (s : JsString) : Option Json :=
  match readValue nearest (s.length + 1) s with
  | none => none
  | some (v, rest) => if skipSpace rest = [] then some v else none

end Signbox
