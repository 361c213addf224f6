import LiveMarkup.Number.Binary64

/-
This file writes numbers with the fewest digits that read back as the same number.
-/

namespace LiveMarkup

/-- A decimal stands for `digits * 10 ^ exponent`. -/
structure Decimal where
  digits : Nat
  exponent : Int
deriving DecidableEq, Repr

/-- Of two shortest decimals that are equally near, a rule chooses one. -/
inductive TieRule where
  | up
  | toEven
deriving DecidableEq, Repr

namespace Decimal

/-- This function removes zeros at the end of the digits, at most `limit` of them. -/
def strip : Nat → Decimal → Decimal
  | 0, decimal => decimal
  | limit + 1, decimal =>
      if decimal.digits ≠ 0 ∧ decimal.digits % 10 = 0 then
        strip limit ⟨decimal.digits / 10, decimal.exponent + 1⟩
      else decimal

end Decimal

namespace Binary64

/-- This function counts the zeros between the point and the first digit of a magnitude below one. -/
def leadingZeros : Nat → Nat → Nat
  | 0, _ => 0
  | limit + 1, units =>
      if unitsPerOne ≤ units * 10 then 0 else leadingZeros limit (units * 10) + 1

/-- The magnitude lies in the decade from `10 ^ (decade - 1)` to `10 ^ decade`. -/
def decade (units : Nat) : Int :=
  if unitsPerOne ≤ units then ((toString (units / unitsPerOne)).length : Int)
  else -(leadingZeros 330 units : Int)

/-- These are the ends of the reals that round to a magnitude, counted in quarters of a unit. -/
structure RoundingInterval where
  low : Nat
  middle : Nat
  high : Nat
  closed : Bool

def roundingInterval (units : Nat) : RoundingInterval :=
  let step := powerOfTwo (spacing units)
  let lowest := units = powerOfTwo 52 * step ∧ 1 < step
  { low := 4 * units - (if lowest then step else 2 * step)
    middle := 4 * units
    high := 4 * units + 2 * step
    closed := units / step % 2 = 0 }

/-- On the grid of multiples of `10 ^ exponent` this is the nearest point that rounds back, if any. -/
def gridPoint (tie : TieRule) (interval : RoundingInterval) (exponent : Int) : Option Nat :=
  let scale := powerOfTen (-exponent).toNat
  let grid := 4 * unitsPerOne * powerOfTen exponent.toNat
  let below := interval.middle * scale / grid
  let above := below + 1
  let inside := fun point =>
    if interval.closed then interval.low * scale ≤ point * grid ∧ point * grid ≤ interval.high * scale
    else interval.low * scale < point * grid ∧ point * grid < interval.high * scale
  let twice := 2 * interval.middle * scale
  let centre := (below + above) * grid
  if inside below then
    if inside above then
      if twice < centre then some below
      else if centre < twice then some above
      else match tie with
        | .up => some above
        | .toEven => some (if below % 2 = 0 then below else above)
    else some below
  else if inside above then some above
  else none

/-- This function tries one digit more at each step. The last grid has seventeen digits. -/
def searchGrids (tie : TieRule) (interval : RoundingInterval) : Nat → Int → Decimal
  | 0, exponent =>
      ⟨interval.middle * powerOfTen (-exponent).toNat /
        (4 * unitsPerOne * powerOfTen exponent.toNat), exponent⟩
  | left + 1, exponent =>
      match gridPoint tie interval exponent with
      | some digits => ⟨digits, exponent⟩
      | none => searchGrids tie interval left (exponent - 1)

/-- This function gives the shortest decimal of a positive magnitude. -/
def shortest (tie : TieRule) (units : Nat) : Decimal :=
  if units = 0 then ⟨0, 0⟩
  else (searchGrids tie (roundingInterval units) 17 (decade units - 1)).strip 20

end Binary64

namespace Decimal

def zeros (count : Nat) : List Char := List.replicate count '0'

/-- This function writes all digits around the point, and nothing after an integer. -/
def positional (decimal : Decimal) : List Char :=
  let digits := (toString decimal.digits).toList
  if 0 ≤ decimal.exponent then digits ++ zeros decimal.exponent.toNat
  else
    let places := (-decimal.exponent).toNat
    if places < digits.length then
      digits.take (digits.length - places) ++ '.' :: digits.drop (digits.length - places)
    else '0' :: '.' :: zeros (places - digits.length) ++ digits

/-- This function writes one digit before the point, and after the letter e a signed power of ten. -/
def scientific (decimal : Decimal) : List Char :=
  let digits := (toString decimal.digits).toList
  let power := decimal.exponent + digits.length - 1
  digits.take 1 ++ (if digits.length = 1 then [] else '.' :: digits.drop 1) ++
    'e' :: (if 0 ≤ power then ['+'] else []) ++ (toString power).toList

/-- A literal is positional while its point lies within reach of its digits, and keeps a fraction. -/
def literal (decimal : Decimal) : List Char :=
  let point := decimal.exponent + (toString decimal.digits).length
  if -5 < point ∧ point ≤ 16 then
    decimal.positional ++ (if 0 ≤ decimal.exponent then ['.', '0'] else [])
  else decimal.scientific

end Decimal

namespace Binary64

def signed (negative : Bool) (text : List Char) : String :=
  String.ofList (if negative then '-' :: text else text)

/-- An integral number below `10 ^ 15` is shown as an integer, and any other one positionally. -/
def display (number : Binary64) : String :=
  match number with
  | .nan => "NaN"
  | .infinite negative => signed negative "Infinity".toList
  | .finite negative units =>
      if number.isIntegral ∧ number.isBelow (powerOfTen 15) then toString number.truncate
      else signed negative (shortest .up units).positional

/-- This function writes a number as a literal that keeps its sign and shows that it is no integer. -/
def literal : Binary64 → String
  | .nan => "NaN"
  | .infinite negative => signed negative "inf".toList
  | .finite negative units => signed negative (shortest .toEven units).literal

end Binary64

end LiveMarkup
