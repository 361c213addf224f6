import LiveMarkup.Demo.Program
import LiveMarkup.Text.Blank

/-
This file reads the log of the demonstration line by line. A record is written as
`[time level channel] text`, and an argument may bring lines of this form, too.
-/

namespace LiveMarkup.Demo

/-- An entry of the log is a record, or any other line. -/
inductive Entry where
  | record (level channel text : String)
  | plain (text : String)
deriving DecidableEq, Repr

/-- A carriage return before a line feed belongs to the end of the line. -/
def chomp (line : List Char) : List Char :=
  if line.getLast? = some '\r' then line.dropLast else line

/-- This function splits a text into the lines that it makes when a line feed follows it. -/
def linesOf (text : String) : List (List Char) := (text.splitOn "\n").map fun line => chomp line.toList

/-- The head of a record ends at the first bracket before a blank. -/
def splitHead : List Char → Option (List Char × List Char)
  | [] => none
  | ']' :: ' ' :: text => some ([], text)
  | c :: rest => (splitHead rest).map fun parts => (c :: parts.1, parts.2)

namespace Entry

def ofLine (line : List Char) : Entry :=
  match line with
  | '[' :: rest =>
      match splitHead rest with
      | some (head, text) =>
          match Text.words head with
          | [_, level, channel] =>
              .record (String.ofList level) (String.ofList channel) (String.ofList text)
          | _ => .plain (String.ofList line)
      | none => .plain (String.ofList line)
  | _ => .plain (String.ofList line)

/-- A notice is one record, as its text has no line feed. -/
def ofWritten : Line → List Entry
  | .plain text => (linesOf text).map ofLine
  | .notice notice => [.record notice.level.name notice.channel notice.text]

end Entry

/-- This function gives the whole log of the demonstration in its order. -/
def Outcome.log (outcome : Outcome) : List Entry := outcome.lines.flatMap Entry.ofWritten

end LiveMarkup.Demo
