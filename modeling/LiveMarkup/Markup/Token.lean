import LiveMarkup.Reader

/-
This file cuts a template into comments, declarations, tags and text. Nothing is left over.
-/

namespace LiveMarkup

/-- A token keeps names and values as they are written. -/
inductive Token where
  | comment (body : List Char)
  | declaration
  | closing (tag : List Char)
  | opening (tag : List Char) (attributes : List (List Char × Option (List Char)))
      (selfClosing : Bool)
  | text (content : List Char)
deriving DecidableEq, Repr

namespace Token

def isSpace (c : Char) : Bool := c == ' ' || c == '\t' || c == '\r' || c == '\n'

def skipSpace (text : List Char) : List Char := text.dropWhile isSpace

/-- This function finds the first end of a comment. -/
def commentBody : List Char → Option (List Char × List Char)
  | '-' :: '-' :: '>' :: rest => some ([], rest)
  | c :: rest => (commentBody rest).map fun (body, ending) => (c :: body, ending)
  | [] => none

def readComment : Reader Token := fun text =>
  match text with
  | '<' :: '!' :: '-' :: '-' :: rest =>
      (commentBody rest).map fun (body, ending) => (.comment body, ending)
  | _ => none

/-- A declaration goes up to the first closing angle. -/
def readDeclaration : Reader Token := fun text =>
  match text with
  | '<' :: '!' :: rest =>
      match rest.dropWhile (· ≠ '>') with
      | _ :: ending => some (.declaration, ending)
      | [] => none
  | _ => none

def isTagChar (c : Char) : Bool := c.isAlphanum || c == '-'

/-- A tag starts with a letter. -/
def readTag : Reader (List Char) := fun text =>
  match text with
  | c :: rest =>
      if c.isAlpha then some (c :: rest.takeWhile isTagChar, rest.dropWhile isTagChar) else none
  | [] => none

def readClosing : Reader Token := fun text =>
  match text with
  | '<' :: '/' :: rest =>
      (readTag rest).bind fun (tag, afterTag) =>
        match skipSpace afterTag with
        | '>' :: ending => some (.closing tag, ending)
        | _ => none
  | _ => none

def isNameChar (c : Char) : Bool :=
  !(isSpace c || c == '=' || c == '>' || c == '/' || c == '"' || c == '\'')

/-- This function reads at least one character of a class. -/
def readRun (inClass : Char → Bool) : Reader (List Char) := fun text =>
  let run := text.takeWhile inClass
  if run.isEmpty then none else some (run, text.dropWhile inClass)

def isBareChar (c : Char) : Bool :=
  !(isSpace c || c == '>' || c == '"' || c == '\'' || c == '=' || c.toNat == 0x60)

def readQuoted (quote : Char) : Reader (List Char) := fun text =>
  match text.dropWhile (· ≠ quote) with
  | _ :: ending => some (text.takeWhile (· ≠ quote), ending)
  | [] => none

/-- A value stands between quotes of one kind, or is a run without quotes and spaces. -/
def readValue : Reader (List Char) := fun text =>
  match text with
  | '"' :: rest => readQuoted '"' rest
  | '\'' :: rest => readQuoted '\'' rest
  | _ => readRun isBareChar text

/-- A value follows an equals sign, which may have space around it. -/
def readAssignment : Reader (List Char) := fun text =>
  match skipSpace text with
  | '=' :: rest => readValue (skipSpace rest)
  | _ => none

/-- Space comes before each attribute. -/
def readAttribute : Reader (List Char × Option (List Char)) := fun text =>
  (readRun isSpace text).bind fun (_, afterSpace) =>
  (readRun isNameChar afterSpace).map fun (name, afterName) =>
    match readAssignment afterName with
    | some (value, rest) => ((name, some value), rest)
    | none => ((name, none), afterName)

def readOpening : Reader Token := fun text =>
  match text with
  | '<' :: rest =>
      (readTag rest).bind fun (tag, afterTag) =>
        let (attributes, afterAttributes) := Reader.many readAttribute afterTag
        match skipSpace afterAttributes with
        | '/' :: '>' :: ending => some (.opening tag attributes true, ending)
        | '>' :: ending => some (.opening tag attributes false, ending)
        | _ => none
  | _ => none

/-- An angle that starts no tag is text by itself. -/
def readText : Reader Token := fun text =>
  match text with
  | '<' :: rest => some (.text ['<'], rest)
  | _ => (readRun (· ≠ '<') text).map fun (run, rest) => (.text run, rest)

/-- The alternatives are tried in this order. -/
def read : Reader Token := fun text =>
  (readComment text).orElse fun _ =>
  (readDeclaration text).orElse fun _ =>
  (readClosing text).orElse fun _ =>
  (readOpening text).orElse fun _ =>
  readText text

/-- This function cuts a whole template into tokens. -/
def scan (text : List Char) : List Token := (Reader.many read text).1

end Token

end LiveMarkup
