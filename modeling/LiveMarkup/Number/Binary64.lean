/-
This file models the numbers of IEEE 754 binary64 and their arithmetic over exact integers.
Each operation computes its exact result and rounds once, to nearest with ties to even.
-/

namespace LiveMarkup

def powerOfTwo (exponent : Nat) : Nat := Nat.pow 2 exponent

def powerOfTen (exponent : Nat) : Nat := Nat.pow 10 exponent

/-- A finite number is a sign and a whole count of units, where one unit is `2 ^ -1074`. -/
inductive Binary64 where
  | nan
  | infinite (negative : Bool)
  | finite (negative : Bool) (units : Nat)
deriving DecidableEq, Repr, Inhabited

namespace Binary64

/-- This is the number of units in the number one. -/
def unitsPerOne : Nat := powerOfTwo 1074

/-- A magnitude of this many units or more has no finite form. -/
def overflowUnits : Nat := powerOfTwo 2098

/-- This function divides and rounds to the nearest integer, a tie going to the even one. -/
def roundQuotient (numerator denominator : Nat) : Nat :=
  let quotient := numerator / denominator
  let twice := 2 * (numerator % denominator)
  if denominator < twice then quotient + 1
  else if twice = denominator ∧ quotient % 2 = 1 then quotient + 1
  else quotient

/-- Numbers near this many units lie `2 ^ spacing` units apart. -/
def spacing (units : Nat) : Nat :=
  if units < powerOfTwo 53 then 0 else units.log2 - 52

/-- This function rounds a quotient of unit counts to 53 significant bits. -/
def roundUnits (numerator denominator : Nat) : Nat :=
  let step := powerOfTwo (spacing (numerator / denominator))
  roundQuotient numerator (denominator * step) * step

/-- This function makes the number nearest to a quotient of unit counts. -/
def ofUnits (negative : Bool) (numerator : Nat) (denominator : Nat) : Binary64 :=
  let units := roundUnits numerator denominator
  if units < overflowUnits then .finite negative units else .infinite negative

/-- This function makes the number nearest to an integer. -/
def ofInt (value : Int) : Binary64 :=
  ofUnits (value < 0) (value.natAbs * unitsPerOne) 1

def zero : Binary64 := .finite false 0

def one : Binary64 := ofInt 1

def isFinite : Binary64 → Bool
  | .finite _ _ => true
  | _ => false

/-- This function gives the signed count of units of a finite number. -/
def signedUnits (negative : Bool) (units : Nat) : Int :=
  if negative then -(units : Int) else units

def neg : Binary64 → Binary64
  | .nan => .nan
  | .infinite negative => .infinite (!negative)
  | .finite negative units => .finite (!negative) units

@[simp] theorem neg_neg (number : Binary64) : number.neg.neg = number := by
  cases number <;> simp [neg]

/-- A sum of zero is negative only when both terms are. -/
def add : Binary64 → Binary64 → Binary64
  | .nan, _ => .nan
  | _, .nan => .nan
  | .infinite first, .infinite second => if first = second then .infinite first else .nan
  | .infinite first, .finite _ _ => .infinite first
  | .finite _ _, .infinite second => .infinite second
  | .finite first firstUnits, .finite second secondUnits =>
      let total := signedUnits first firstUnits + signedUnits second secondUnits
      if total = 0 then .finite (first && second) 0
      else ofUnits (total < 0) total.natAbs 1

def sub (first second : Binary64) : Binary64 := first.add second.neg

def mul : Binary64 → Binary64 → Binary64
  | .nan, _ => .nan
  | _, .nan => .nan
  | .infinite first, .infinite second => .infinite (first != second)
  | .infinite first, .finite second units =>
      if units = 0 then .nan else .infinite (first != second)
  | .finite first units, .infinite second =>
      if units = 0 then .nan else .infinite (first != second)
  | .finite first firstUnits, .finite second secondUnits =>
      ofUnits (first != second) (firstUnits * secondUnits) unitsPerOne

def div : Binary64 → Binary64 → Binary64
  | .nan, _ => .nan
  | _, .nan => .nan
  | .infinite _, .infinite _ => .nan
  | .infinite first, .finite second _ => .infinite (first != second)
  | .finite first _, .infinite second => .finite (first != second) 0
  | .finite first firstUnits, .finite second secondUnits =>
      if secondUnits = 0 then
        if firstUnits = 0 then .nan else .infinite (first != second)
      else ofUnits (first != second) (firstUnits * unitsPerOne) secondUnits

/-- The remainder is exact and takes the sign of the dividend. -/
def rem : Binary64 → Binary64 → Binary64
  | .nan, _ => .nan
  | _, .nan => .nan
  | .infinite _, _ => .nan
  | .finite first units, .infinite _ => .finite first units
  | .finite first firstUnits, .finite _ secondUnits =>
      if secondUnits = 0 then .nan else .finite first (firstUnits % secondUnits)

/-- Numbers other than nan are ordered by their rank, in which the two zeros are equal. -/
def rank : Binary64 → Option Int
  | .nan => none
  | .infinite negative => some (signedUnits negative overflowUnits)
  | .finite negative units => some (signedUnits negative units)

/-- A comparison with nan has no answer. -/
def compare? (first second : Binary64) : Option Ordering :=
  match first.rank, second.rank with
  | some a, some b => some (compare a b)
  | _, _ => none

/-- Two numbers are equal when neither is nan and their ranks agree. -/
def equal (first second : Binary64) : Bool := first.compare? second == some .eq

/-- A number is integral when it is finite and has no fractional part. -/
def isIntegral : Binary64 → Bool
  | .finite _ units => units % unitsPerOne == 0
  | _ => false

/-- The magnitude of a finite number is below an integer bound. -/
def isBelow (bound : Nat) : Binary64 → Bool
  | .finite _ units => units < bound * unitsPerOne
  | _ => false

/-- This function drops the fractional part of a finite number. -/
def truncate : Binary64 → Int
  | .finite negative units => signedUnits negative (units / unitsPerOne)
  | _ => 0

/-- This function gives the sign bit, the exponent field and the fraction field as one word. -/
def toBits : Binary64 → Nat
  | .nan => 0x7ff8000000000000
  | .infinite negative => signBit negative + 0x7ff0000000000000
  | .finite negative units =>
      let step := spacing units
      signBit negative + step * powerOfTwo 52 + units / powerOfTwo step
where
  signBit (negative : Bool) : Nat := if negative then powerOfTwo 63 else 0

end Binary64

end LiveMarkup
