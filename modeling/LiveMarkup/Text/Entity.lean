/-
This file reads and writes the character references of markup.
-/

namespace LiveMarkup.Text

/-- This function gives the value of a digit below the base. -/
def digitInBase? (base : Nat) (c : Char) : Option Nat :=
  let value :=
    if c.isDigit then c.toNat - '0'.toNat
    else if 'a' ≤ c ∧ c ≤ 'z' then c.toNat - 'a'.toNat + 10
    else if 'A' ≤ c ∧ c ≤ 'Z' then c.toNat - 'A'.toNat + 10
    else base
  if value < base then some value else none

/-- This function reads at least one digit and nothing else. -/
def digitsInBase? (base : Nat) (digits : List Char) : Option Nat :=
  if digits.isEmpty then none
  else digits.foldlM (fun total c => (digitInBase? base c).map (base * total + ·)) 0

/-- A natural number of 32 bits may be written with a plus sign in front. -/
def natural32? (base : Nat) (text : List Char) : Option Nat :=
  let digits := match text with
    | '+' :: rest => rest
    | rest => rest
  (digitsInBase? base digits).bind fun value => if value < 4294967296 then some value else none

/-- A number denotes a character when it is a Unicode scalar value. -/
def scalar? (code : Nat) : Option Char :=
  if code.isValidChar then some (Char.ofNat code) else none

/-- This function resolves the text between the ampersand and the semicolon of a reference. -/
def reference? : List Char → Option Char
  | ['a', 'm', 'p'] => some '&'
  | ['l', 't'] => some '<'
  | ['g', 't'] => some '>'
  | ['q', 'u', 'o', 't'] => some '"'
  | ['a', 'p', 'o', 's'] => some '\''
  | ['n', 'b', 's', 'p'] => some '\u00a0'
  | '#' :: 'x' :: digits => (natural32? 16 digits).bind scalar?
  | '#' :: 'X' :: digits => (natural32? 16 digits).bind scalar?
  | '#' :: digits => (natural32? 10 digits).bind scalar?
  | _ => none

/-- After an ampersand this is the character meant and the number of characters to the semicolon. -/
def referenceAhead? (rest : List Char) : Option (Char × Nat) :=
  let name := rest.takeWhile (· ≠ ';')
  if name.length < rest.length then (reference? name).map fun c => (c, name.length + 1) else none

/-- This function decodes a text after skipping some characters of it. -/
def decodeAfter : Nat → List Char → List Char
  | _, [] => []
  | skipped + 1, _ :: rest => decodeAfter skipped rest
  | 0, c :: rest =>
      if c = '&' then
        match referenceAhead? rest with
        | some (meant, length) => meant :: decodeAfter length rest
        | none => c :: decodeAfter 0 rest
      else c :: decodeAfter 0 rest

/-- This function replaces each reference by its character and leaves all other text alone. -/
def decodeEntities (text : List Char) : List Char := decodeAfter 0 text

/-- Text without ampersands contains no reference. -/
theorem decodeEntities_of_not_mem {text : List Char} (plain : '&' ∉ text) :
    decodeEntities text = text := by
  induction text with
  | nil => rfl
  | cons c rest inductionHypothesis =>
      have first : c ≠ '&' := fun equal => plain (equal ▸ List.mem_cons_self)
      have later : '&' ∉ rest := fun member => plain (List.mem_cons_of_mem c member)
      have tail : decodeAfter 0 rest = rest := inductionHypothesis later
      simp only [decodeEntities, decodeAfter, if_neg first, tail]

def escapeTextChar : Char → List Char
  | '&' => ['&', 'a', 'm', 'p', ';']
  | '<' => ['&', 'l', 't', ';']
  | '>' => ['&', 'g', 't', ';']
  | '\u00a0' => ['&', 'n', 'b', 's', 'p', ';']
  | other => [other]

/-- This function writes the content of a text node. -/
def escapeText (text : List Char) : List Char := text.flatMap escapeTextChar

theorem escapeText_append (first second : List Char) :
    escapeText (first ++ second) = escapeText first ++ escapeText second := List.flatMap_append

def escapeAttributeChar : Char → List Char
  | '&' => ['&', 'a', 'm', 'p', ';']
  | '"' => ['&', 'q', 'u', 'o', 't', ';']
  | '\u00a0' => ['&', 'n', 'b', 's', 'p', ';']
  | other => [other]

/-- This function writes an attribute value that stands between double quotes. -/
def escapeAttribute (text : List Char) : List Char := text.flatMap escapeAttributeChar

end LiveMarkup.Text
