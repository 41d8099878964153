import Signbox.Spec.Types

/-!
# Asset amounts

`core/asset.ts`: an amount is a natural number of minimal units with a symbol and a
precision, and two amounts compare only when symbol and precision agree.
-/

namespace Signbox

/-- Antelope max asset amount: `2^62 - 1` minimal units. An amount above it is no asset. -/
def MAX_ASSET_UNITS : ℕ := 2 ^ 62 - 1

def MAX_PRECISION : ℕ := 18

structure AssetAmount where
  units : ℕ
  symbol : JsString
  precision : ℕ
  deriving DecidableEq

structure BareAmount where
  units : ℕ
  precision : ℕ
  deriving DecidableEq

/-- `BigInt` of a string of digits. -/
def natOfDigits (ds : JsString) : ℕ :=
  ds.foldl (fun n u => n * 10 + (u.toNat - (unit '0').toNat)) 0

/-- `BARE_AMOUNT_RE`: the integer part and the fraction. -/
def matchBareAmount (s : JsString) : Option (JsString × Option JsString) :=
  match s.takeWhile isDigit, s.dropWhile isDigit with
  | [], _ => none
  | int, [] => some (int, none)
  | int, u :: frac =>
    if u = unit '.' ∧ frac ≠ [] ∧ frac.all isDigit then some (int, some frac) else none

/-- `ASSET_RE`: the integer part, the fraction and the symbol. -/
def matchAsset (s : JsString) : Option (JsString × Option JsString × JsString) :=
  match s.dropWhile (· ≠ unit ' ') with
  | [] => none
  | _ :: symbol =>
    if matchesClass isUpper 1 7 symbol then
      (matchBareAmount (s.takeWhile (· ≠ unit ' '))).map fun m => (m.1, m.2, symbol)
    else none

def toUnits (intPart : JsString) (fracPart : Option JsString) (context : JsString) :
    Except JsError BareAmount :=
  let precision := (fracPart.map List.length).getD 0
  if precision > MAX_PRECISION then
    .error (.asset (context ++ js ": precision " ++ digitsOf precision ++ js " exceeds maximum "
      ++ digitsOf MAX_PRECISION))
  else
    let units := natOfDigits (intPart ++ fracPart.getD [])
    if units > MAX_ASSET_UNITS then
      .error (.asset (context ++ js ": amount exceeds maximum representable value"))
    else .ok ⟨units, precision⟩

/-- Parse a strict asset string such as `1000.0000 XPR`. The digits after the point are the
precision. -/
def parseAsset (input : JsString) : Except JsError AssetAmount :=
  match matchAsset input with
  | none => .error (.asset (js "invalid asset string"))
  | some (intPart, fracPart, symbol) => do
    let bare ← toUnits intPart fracPart (js "asset")
    return ⟨bare.units, symbol, bare.precision⟩

/-- Parse a bare amount string such as `1000.0000`, which carries its precision but no symbol. -/
def parseBareAmount (input : JsString) : Except JsError BareAmount :=
  match matchBareAmount input with
  | none => .error (.asset (js "invalid amount string"))
  | some (intPart, fracPart) => toUnits intPart fracPart (js "amount")

/-- `String.prototype.padStart` with one unit. -/
def JsString.padStart (length : ℕ) (u : UInt16) (s : JsString) : JsString :=
  List.replicate (length - s.length) u ++ s

def formatBareAmount (amount : BareAmount) : JsString :=
  let digits := JsString.padStart (amount.precision + 1) (unit '0') (digitsOf amount.units)
  if amount.precision = 0 then digits
  else
    let split := digits.length - amount.precision
    digits.take split ++ js "." ++ digits.drop split

def formatAsset (asset : AssetAmount) : JsString :=
  formatBareAmount ⟨asset.units, asset.precision⟩ ++ js " " ++ asset.symbol

/-- Compare two amounts of the same precision; a precision mismatch throws, so no amount is ever
scaled. -/
def compareBareAmounts (a b : BareAmount) : Except JsError Ordering :=
  if a.precision ≠ b.precision then
    .error (.asset (js "precision mismatch: " ++ digitsOf a.precision ++ js " vs "
      ++ digitsOf b.precision))
  else .ok (compare a.units b.units)

example : parseAsset (js "12.0500 XPR") = .ok ⟨120500, js "XPR", 4⟩ := by decide

end Signbox
