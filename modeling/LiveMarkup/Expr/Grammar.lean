import LiveMarkup.Expr.Reading

/-
This file says how expressions are written: which lexemes there are, and which forms bind which operands.
It also writes each expression in one such way.
-/

namespace LiveMarkup.Expr

/-! Lexemes. -/

def IsBlank (text : List Char) : Prop := ∀ c ∈ text, isGap c = true

/-- A name is a word that starts as names do and is no keyword. -/
def isName (name : String) : Bool :=
  match name.toList with
  | [] => false
  | first :: rest => isNameStart first && rest.all isNameChar && !keywords.contains name

/-- These words stand for values. -/
def words : List (String × Expr) :=
  [("true", .bool true), ("false", .bool false), ("null", .null), ("undefined", .null)]

def IsDigits (text : List Char) : Prop := text ≠ [] ∧ ∀ c ∈ text, c.isDigit = true

def IsFraction (text : List Char) : Prop :=
  text = [] ∨ ∃ digits, IsDigits digits ∧ text = '.' :: digits

def IsExponent (text : List Char) : Prop :=
  text = [] ∨ ∃ letter sign digits, (letter = 'e' ∨ letter = 'E') ∧
    (sign = [] ∨ sign = ['+'] ∨ sign = ['-']) ∧ IsDigits digits ∧ text = letter :: sign ++ digits

/-- A numeral has digits, then perhaps a fraction, then perhaps an exponent. -/
inductive IsNumeral : List Char → Prop where
  | parts {whole fraction exponent : List Char} : IsDigits whole → IsFraction fraction →
      IsExponent exponent → IsNumeral (whole ++ fraction ++ exponent)

/-- Between its quotes, a string has no such quote except after a backslash, and no backslash at the end. -/
inductive IsBody (quote : Char) : List Char → Prop where
  | nil : IsBody quote []
  | pair (c : Char) {rest : List Char} : IsBody quote rest → IsBody quote ('\\' :: c :: rest)
  | plain {c : Char} {rest : List Char} : c ≠ quote → c ≠ '\\' → IsBody quote rest →
      IsBody quote (c :: rest)

/-! Forms. -/

/-- A form of a higher level binds its operands first. Binary operators have levels among themselves. -/
inductive Level where
  | conditional
  | binary (level : Nat)
  | operand
  | access
  | primary

/-- Texts are separated by commas, with blanks around each of them. -/
inductive Separated : List (List Char) → List Char → Prop where
  | none {gap : List Char} : IsBlank gap → Separated [] gap
  | one {before text after : List Char} : IsBlank before → IsBlank after →
      Separated [text] (before ++ text ++ after)
  | more {before text after rest : List Char} {texts : List (List Char)} : IsBlank before →
      IsBlank after → texts ≠ [] → Separated texts rest →
      Separated (text :: texts) (before ++ text ++ after ++ ',' :: rest)

/-- An expression is written as a form of some level. Blanks may stand between lexemes, and parentheses
make a primary form of any other. -/
inductive Renders : Level → Expr → List Char → Prop where
  | number {numeral : List Char} {value : Binary64} : IsNumeral numeral →
      Binary64.read? numeral = some value → Renders .primary (.number value) numeral
  | string {quote : Char} {body : List Char} : quote = '"' ∨ quote = '\'' → IsBody quote body →
      Renders .primary (.string (String.ofList (Text.unescape body))) (quote :: body ++ [quote])
  | word {word : String} {meaning : Expr} : (word, meaning) ∈ words →
      Renders .primary meaning word.toList
  | ident {name : String} : isName name = true → Renders .primary (.ident name) name.toList
  | call {name : String} {gap text : List Char} {parts : List (Expr × List Char)} :
      isName name = true → IsBlank gap → (∀ part ∈ parts, Renders .conditional part.1 part.2) →
      Separated (parts.map Prod.snd) text →
      Renders .primary (.call name (parts.map Prod.fst)) (name.toList ++ gap ++ '(' :: text ++ [')'])
  | parenthesised {expr : Expr} {before text after : List Char} : IsBlank before → IsBlank after →
      Renders .conditional expr text →
      Renders .primary expr ('(' :: before ++ text ++ after ++ [')'])
  | bare {expr : Expr} {text : List Char} : Renders .primary expr text → Renders .access expr text
  | member {object : Expr} {property : String} {text before after : List Char} :
      Renders .access object text → IsBlank before → IsBlank after → isName property = true →
      Renders .access (.member object property) (text ++ before ++ '.' :: after ++ property.toList)
  | index {object position : Expr} {text inner before after ending : List Char} :
      Renders .access object text → IsBlank before → IsBlank after → IsBlank ending →
      Renders .conditional position inner →
      Renders .access (.index object position)
        (text ++ before ++ '[' :: after ++ inner ++ ending ++ [']'])
  | plain {expr : Expr} {text : List Char} : Renders .access expr text → Renders .operand expr text
  | unary (operator : UnaryOperator) {operand : Expr} {gap text : List Char} : IsBlank gap →
      Renders .operand operand text →
      Renders .operand (.unary operator operand) (operator.symbol.toList ++ gap ++ text)
  | single (level : Nat) {expr : Expr} {text : List Char} : Renders .operand expr text →
      Renders (.binary level) expr text
  | higher {level : Nat} {expr : Expr} {text : List Char} : Renders (.binary (level + 1)) expr text →
      Renders (.binary level) expr text
  | binary (operator : BinaryOperator) {left right : Expr} {first second before after : List Char} :
      Renders (.binary operator.level) left first → IsBlank before → IsBlank after →
      Renders (.binary (operator.level + 1)) right second →
      Renders (.binary operator.level) (.binary operator left right)
        (first ++ before ++ operator.symbol.toList ++ after ++ second)
  | unconditional {expr : Expr} {text : List Char} : Renders (.binary 0) expr text →
      Renders .conditional expr text
  | conditional {test yes no : Expr} {first second third before after behind ahead : List Char} :
      Renders (.binary 0) test first → IsBlank before → IsBlank after → IsBlank behind →
      IsBlank ahead → Renders .conditional yes second → Renders .conditional no third →
      Renders .conditional (.conditional test yes no)
        (first ++ before ++ '?' :: after ++ second ++ behind ++ ':' :: ahead ++ third)

/-- A source is a rendering of an expression, with blanks around it. -/
def Written (expr : Expr) (source : String) : Prop :=
  ∃ before text after, IsBlank before ∧ IsBlank after ∧ source.toList = before ++ text ++ after ∧
    Renders .conditional expr text

/-! One way to write an expression. -/

def escapeQuoted (c : Char) : List Char := if c = '"' ∨ c = '\\' then ['\\', c] else [c]

def writeString (value : String) : List Char :=
  '"' :: value.toList.flatMap escapeQuoted ++ ['"']

/-- These expressions are written without operands outside of brackets. -/
def isPrimary : Expr → Bool
  | .number _ => true
  | .string _ => true
  | .bool _ => true
  | .null => true
  | .ident _ => true
  | .call .. => true
  | _ => false

/-- An operand that is no primary form is put in parentheses. -/
def enclose (operand : Expr) (text : List Char) : List Char :=
  if operand.isPrimary then text else '(' :: text ++ [')']

mutual

/-- This function writes an expression, given how its numbers are spelt. -/
def write (spell : Binary64 → List Char) : Expr → List Char
  | .number value => spell value
  | .string value => writeString value
  | .bool value => if value then "true".toList else "false".toList
  | .null => "null".toList
  | .ident name => name.toList
  | .member object property => enclose object (write spell object) ++ '.' :: property.toList
  | .index object position =>
      enclose object (write spell object) ++ '[' :: write spell position ++ [']']
  | .call name arguments => name.toList ++ '(' :: writeAll spell arguments ++ [')']
  | .unary operator operand => operator.symbol.toList ++ enclose operand (write spell operand)
  | .binary operator left right =>
      enclose left (write spell left) ++ ' ' :: operator.symbol.toList ++
        ' ' :: enclose right (write spell right)
  | .conditional test yes no =>
      enclose test (write spell test) ++ ' ' :: '?' :: ' ' :: write spell yes ++
        ' ' :: ':' :: ' ' :: write spell no

def writeAll (spell : Binary64 → List Char) : List Expr → List Char
  | [] => []
  | [argument] => write spell argument
  | argument :: rest => write spell argument ++ ',' :: ' ' :: writeAll spell rest

end

mutual

/-- The names of an expression are names, and its numbers are spelt by numerals that mean them. -/
def Writable (spell : Binary64 → List Char) : Expr → Prop
  | .number value => IsNumeral (spell value) ∧ Binary64.read? (spell value) = some value
  | .string _ => True
  | .bool _ => True
  | .null => True
  | .ident name => isName name = true
  | .member object property => Writable spell object ∧ isName property = true
  | .index object position => Writable spell object ∧ Writable spell position
  | .call name arguments => isName name = true ∧ AllWritable spell arguments
  | .unary _ operand => Writable spell operand
  | .binary _ left right => Writable spell left ∧ Writable spell right
  | .conditional test yes no => Writable spell test ∧ Writable spell yes ∧ Writable spell no

def AllWritable (spell : Binary64 → List Char) : List Expr → Prop
  | [] => True
  | argument :: rest => Writable spell argument ∧ AllWritable spell rest

end

end LiveMarkup.Expr
