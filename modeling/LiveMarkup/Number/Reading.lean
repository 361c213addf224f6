import LiveMarkup.Number.Binary64

/-
This file reads decimal text as the nearest binary64 number.
-/

namespace LiveMarkup.Binary64

/-- This function rounds `digits * 10 ^ exponent`. Exponents that are out of reach need no power. -/
def ofDecimal (negative : Bool) (digits : Nat) (exponent : Int) : Binary64 :=
  if digits = 0 then .finite negative 0
  else if 0 ≤ exponent then
    if 400 < exponent then .infinite negative
    else ofUnits negative (digits * powerOfTen exponent.toNat * unitsPerOne) 1
  else
    let places := (-exponent).toNat
    if digits.log2 + 1100 < 3 * places then .finite negative 0
    else ofUnits negative (digits * unitsPerOne) (powerOfTen places)

/-- The value of a digit character, which the caller has checked to be one. -/
def digitValue (c : Char) : Nat := c.toNat - '0'.toNat

/-- This function reads digits one after the other. -/
def natInOrder (digits : List Char) : Nat :=
  digits.foldl (fun total c => 10 * total + digitValue c) 0

/-- This function halves the digits as often as it may, so that long texts are read fast. -/
def natByHalves : Nat → List Char → Nat
  | 0, digits => natInOrder digits
  | depth + 1, digits =>
      let high := digits.take (digits.length / 2)
      let low := digits.drop (digits.length / 2)
      natByHalves depth high * powerOfTen low.length + natByHalves depth low

def natOfDigits (digits : List Char) : Nat := natByHalves digits.length.log2 digits

theorem foldl_digits (digits : List Char) (start : Nat) :
    digits.foldl (fun total c => 10 * total + digitValue c) start =
      start * powerOfTen digits.length + natInOrder digits := by
  induction digits generalizing start with
  | nil => simp [natInOrder, powerOfTen]
  | cons c rest inductionHypothesis =>
      have first := inductionHypothesis (10 * start + digitValue c)
      have second := inductionHypothesis (10 * 0 + digitValue c)
      have power : powerOfTen (rest.length + 1) = powerOfTen rest.length * 10 :=
        Nat.pow_succ 10 rest.length
      simp only [natInOrder, List.foldl_cons, List.length_cons] at first second ⊢
      rw [first, second, power]
      grind

theorem natInOrder_append (high low : List Char) :
    natInOrder (high ++ low) = natInOrder high * powerOfTen low.length + natInOrder low := by
  rw [natInOrder, List.foldl_append]
  exact foldl_digits low (natInOrder high)

theorem natByHalves_eq (depth : Nat) (digits : List Char) :
    natByHalves depth digits = natInOrder digits := by
  induction depth generalizing digits with
  | zero => rfl
  | succ depth inductionHypothesis =>
      simp only [natByHalves, inductionHypothesis]
      rw [← natInOrder_append, List.take_append_drop]

/-- The order in which digits are joined makes no difference. -/
theorem natOfDigits_eq (digits : List Char) : natOfDigits digits = natInOrder digits :=
  natByHalves_eq _ digits

/-- An exponent counts no further digits once it has come to `2 ^ 16`. -/
def exponentOfDigits (digits : List Char) : Nat :=
  digits.foldl (fun total c => if total < powerOfTwo 16 then 10 * total + digitValue c else total) 0

/-- An exponent is the letter e, an optional sign and at least one digit, up to the end of the text. -/
def readExponent : List Char → Option Int
  | [] => some 0
  | mark :: rest =>
      if mark = 'e' ∨ mark = 'E' then
        match rest with
        | '-' :: digits => (readDigits digits).map fun n => -(n : Int)
        | '+' :: digits => (readDigits digits).map fun n => (n : Int)
        | digits => (readDigits digits).map fun n => (n : Int)
      else none
where
  readDigits (digits : List Char) : Option Nat :=
    if digits.isEmpty ∨ ¬ digits.all Char.isDigit then none
    else some (exponentOfDigits digits)

/-- A magnitude has digits before or after its point, and may have an exponent. -/
def readMagnitude (negative : Bool) (text : List Char) : Option Binary64 :=
  let whole := text.takeWhile Char.isDigit
  let rest := text.dropWhile Char.isDigit
  let tail := match rest with
    | '.' :: after => after
    | _ => []
  let fraction := tail.takeWhile Char.isDigit
  let ending := match rest with
    | '.' :: after => after.dropWhile Char.isDigit
    | _ => rest
  if whole.isEmpty ∧ fraction.isEmpty then none
  else (readExponent ending).map fun exponent =>
    ofDecimal negative (natOfDigits (whole ++ fraction)) (exponent - fraction.length)

/-- The names of the infinities and of nan are read in any case. -/
def readUnsigned (negative : Bool) (text : List Char) : Option Binary64 :=
  let name := text.map Char.toLower
  if name = ['i', 'n', 'f'] ∨ name = ['i', 'n', 'f', 'i', 'n', 'i', 't', 'y'] then
    some (.infinite negative)
  else if name = ['n', 'a', 'n'] then some .nan
  else readMagnitude negative text

/-- This function reads a whole text, without blanks, as a number with an optional sign. -/
def read? (text : List Char) : Option Binary64 :=
  match text with
  | '-' :: rest => readUnsigned true rest
  | '+' :: rest => readUnsigned false rest
  | rest => readUnsigned false rest

end LiveMarkup.Binary64
