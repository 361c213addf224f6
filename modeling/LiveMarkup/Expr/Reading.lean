import LiveMarkup.Error
import LiveMarkup.Number.Reading
import LiveMarkup.Reader
import LiveMarkup.Text.Escape

/-
This file reads expressions. Alternatives are tried in order and none is tried again after a success.
-/

namespace LiveMarkup.Expr

/-- Blanks between tokens carry no meaning. -/
def isGap (c : Char) : Bool := c == ' ' || c == '\t' || c == '\r' || c == '\n'

def skipGap (text : List Char) : List Char := text.dropWhile isGap

def isNameStart (c : Char) : Bool := c.isAlpha || c == '_' || c == '$'

def isNameChar (c : Char) : Bool := c.isAlphanum || c == '_' || c == '$'

/-- These words are never names. -/
def keywords : List String := ["true", "false", "null", "undefined"]

/-- This function reads one given character after a gap. -/
def mark (expected : Char) : Reader Unit := fun text =>
  match skipGap text with
  | c :: rest => if c = expected then some ((), rest) else none
  | [] => none

def readName : Reader String := fun text =>
  match text with
  | [] => none
  | c :: _ =>
      let word := String.ofList (text.takeWhile isNameChar)
      if isNameStart c && !(keywords.contains word) then some (word, text.dropWhile isNameChar)
      else none

/-- A word that stands for a value ends where no name could go on. -/
def readKeyword : Reader Expr := fun text =>
  let rest := text.dropWhile isNameChar
  match String.ofList (text.takeWhile isNameChar) with
  | "true" => some (.bool true, rest)
  | "false" => some (.bool false, rest)
  | "null" => some (.null, rest)
  | "undefined" => some (.null, rest)
  | _ => none

/-- This function splits off the digits of a fraction or exponent after its first characters. -/
def digitsAfter (start text : List Char) : List Char × List Char :=
  let digits := text.takeWhile Char.isDigit
  if digits.isEmpty then ([], []) else (start ++ digits, text.dropWhile Char.isDigit)

def fractionPart (text : List Char) : List Char × List Char :=
  match text with
  | '.' :: rest =>
      let (part, ending) := digitsAfter ['.'] rest
      if part.isEmpty then ([], text) else (part, ending)
  | _ => ([], text)

def exponentPart (text : List Char) : List Char × List Char :=
  match text with
  | letter :: rest =>
      if letter = 'e' ∨ letter = 'E' then
        let (part, ending) := match rest with
          | '+' :: digits => digitsAfter [letter, '+'] digits
          | '-' :: digits => digitsAfter [letter, '-'] digits
          | digits => digitsAfter [letter] digits
        if part.isEmpty then ([], text) else (part, ending)
      else ([], text)
  | [] => ([], [])

/-- A number has digits, then perhaps a fraction, then perhaps an exponent. -/
def numberLexeme : Reader (List Char) := fun text =>
  let whole := text.takeWhile Char.isDigit
  if whole.isEmpty then none
  else
    let (fraction, afterFraction) := fractionPart (text.dropWhile Char.isDigit)
    let (exponent, rest) := exponentPart afterFraction
    some (whole ++ fraction ++ exponent, rest)

def readNumber : Reader Expr := fun text =>
  match numberLexeme text with
  | none => none
  | some (lexeme, rest) => (Binary64.read? lexeme).map fun value => (.number value, rest)

/-- The body of a string ends at the first quote that no backslash precedes. -/
def quotedBody (quote : Char) : List Char → Option (List Char × List Char)
  | [] => none
  | '\\' :: c :: rest => (quotedBody quote rest).map fun (body, ending) => ('\\' :: c :: body, ending)
  | c :: rest =>
      if c = quote then some ([], rest)
      else if c = '\\' then none
      else (quotedBody quote rest).map fun (body, ending) => (c :: body, ending)

def readString : Reader Expr := fun text =>
  match text with
  | c :: rest =>
      if c = '"' ∨ c = '\'' then
        (quotedBody c rest).map fun (body, ending) =>
          (.string (String.ofList (Text.unescape body)), ending)
      else none
  | [] => none

def readLiteral : Reader Expr := fun text =>
  (readNumber text).orElse fun _ => (readString text).orElse fun _ => readKeyword text

/-- The arguments of a call are separated by commas. -/
def readArguments (inner : Reader Expr) : Reader (List Expr) := fun text =>
  match inner (skipGap text) with
  | none => some ([], text)
  | some (first, rest) =>
      let (others, ending) := Reader.many (fun text =>
        (mark ',' text).bind fun (_, rest) => inner (skipGap rest)) rest
      some (first :: others, ending)

def readCall (inner : Reader Expr) : Reader Expr := fun text =>
  (readName text).bind fun (name, afterName) =>
  (mark '(' afterName).bind fun (_, afterOpen) =>
  (readArguments inner afterOpen).bind fun (arguments, afterArguments) =>
  (mark ')' afterArguments).map fun (_, rest) => (.call name arguments, rest)

def readParenthesised (inner : Reader Expr) : Reader Expr := fun text =>
  (mark '(' text).bind fun (_, afterOpen) =>
  (inner (skipGap afterOpen)).bind fun (expr, afterExpr) =>
  (mark ')' afterExpr).map fun (_, rest) => (expr, rest)

def readPrimary (inner : Reader Expr) : Reader Expr := fun text =>
  (readLiteral text).orElse fun _ =>
  (readCall inner text).orElse fun _ =>
  ((readName text).map fun (name, rest) => (.ident name, rest)).orElse fun _ =>
  readParenthesised inner text

def readUnaryOperator : Reader UnaryOperator := fun text =>
  match skipGap text with
  | '!' :: rest => some (.not, rest)
  | '-' :: rest => some (.neg, rest)
  | '+' :: rest => some (.plus, rest)
  | _ => none

/-- An access follows an object and selects a part of it. -/
inductive Access where
  | member (property : String)
  | index (position : Expr)

def Access.apply (object : Expr) : Access → Expr
  | .member property => .member object property
  | .index position => .index object position

def readAccess (inner : Reader Expr) : Reader Access := fun text =>
  ((mark '.' text).bind fun (_, afterMark) =>
    (readName (skipGap afterMark)).map fun (name, rest) => (.member name, rest)).orElse fun _ =>
  (mark '[' text).bind fun (_, afterOpen) =>
  (inner (skipGap afterOpen)).bind fun (position, afterPosition) =>
  (mark ']' afterPosition).map fun (_, rest) => (.index position, rest)

/-- An operand is a primary form with its accesses, and unary operators before all of these. -/
def readOperand (inner : Reader Expr) : Reader Expr := fun text =>
  let (operators, afterOperators) := Reader.many readUnaryOperator text
  (readPrimary inner (skipGap afterOperators)).map fun (primary, afterPrimary) =>
    let (accesses, rest) := Reader.many (readAccess inner) afterPrimary
    (operators.foldr .unary (accesses.foldl Access.apply primary), rest)

/-- Of all operators the first one whose symbol begins the text is read. -/
def readBinaryOperator : Reader BinaryOperator := fun text =>
  let rest := skipGap text
  (BinaryOperator.all.find? fun operator => operator.symbol.toList.isPrefixOf rest).map
    fun operator => (operator, rest.drop operator.symbol.length)

/-- In a chain of operands this function joins those of one level, from the left. -/
def joinLevel (level : Nat) (first : Expr) :
    List (BinaryOperator × Expr) → Expr × List (BinaryOperator × Expr)
  | [] => (first, [])
  | (operator, operand) :: rest =>
      if operator.level = level then joinLevel level (.binary operator first operand) rest
      else
        let (joined, others) := joinLevel level operand rest
        (first, (operator, joined) :: others)

/-- This function joins a chain level by level, the highest first. -/
def joinLevels (first : Expr) (chain : List (BinaryOperator × Expr)) : Expr :=
  ([5, 4, 3, 2, 1, 0].foldl (fun (joined, rest) level => joinLevel level joined rest)
    (first, chain)).1

def readBinary (inner : Reader Expr) : Reader Expr := fun text =>
  (readOperand inner text).map fun (first, afterFirst) =>
    let (chain, rest) := Reader.many (fun text =>
      (readBinaryOperator text).bind fun (operator, afterOperator) =>
      (readOperand inner (skipGap afterOperator)).map fun (operand, rest) =>
        ((operator, operand), rest)) afterFirst
    (joinLevels first chain, rest)

/-- A conditional chooses between two expressions by a test. -/
def readConditionalWith (inner : Reader Expr) : Reader Expr := fun text =>
  (readBinary inner text).map fun (test, afterTest) =>
    match
      (mark '?' afterTest).bind fun (_, afterMark) =>
      (inner (skipGap afterMark)).bind fun (yes, afterYes) =>
      (mark ':' afterYes).bind fun (_, afterColon) =>
      (inner (skipGap afterColon)).map fun (no, rest) => (Expr.conditional test yes no, rest)
    with
    | some result => result
    | none => (test, afterTest)

/-- An expression nests at most `depth` times. -/
def readConditional : Nat → Reader Expr
  | 0 => fun _ => none
  | depth + 1 => readConditionalWith (readConditional depth)

/-- An inner expression starts after a character of the outer one, which bounds the nesting. -/
def read? (text : List Char) : Option Expr :=
  match readConditional (text.length + 1) (skipGap text) with
  | some (expr, rest) => if (skipGap rest).isEmpty then some expr else none
  | none => none

/-- This function reads a whole source text as one expression. -/
def parse (source : String) : Except EvalError Expr :=
  match read? source.toList with
  | some expr => .ok expr
  | none => .error (.malformed source)

end LiveMarkup.Expr
