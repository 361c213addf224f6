import LiveMarkup.Script.Command
import LiveMarkup.Text.Entity

/-
This file reads the arguments of the demonstration. A later argument overrides an earlier one.
-/

namespace LiveMarkup.Demo

/-- Without a level nothing is logged. The number of ticks has 32 bits. -/
structure Options where
  quiet : Bool := false
  level : Option Level := some .info
  ticks : Nat := 3
deriving Repr

/-- Reading stops at a request for help. Values that make no sense are ignored and reported. -/
structure Reading where
  options : Options := {}
  ignored : List String := []
  helpWanted : Bool := false
deriving Repr

namespace Reading

def setLevel (reading : Reading) (level : Option Level) : Reading :=
  { reading with options := { reading.options with level } }

def ticksMark : List Char := "--ticks=".toList

/-- Unknown arguments have no effect. -/
def setTicks (reading : Reading) (argument : List Char) : Reading :=
  if ticksMark.isPrefixOf argument then
    let value := argument.drop ticksMark.length
    match Text.natural32? 10 value with
    | some ticks => { reading with options := { reading.options with ticks } }
    | none => { reading with ignored := reading.ignored ++ [String.ofList value] }
  else reading

def step (reading : Reading) (argument : String) : Reading :=
  match argument with
  | "--quiet" | "-q" => { reading with options := { reading.options with quiet := true, level := none } }
  | "--log-level=off" => reading.setLevel none
  | "--log-level=error" => reading.setLevel (some .error)
  | "--log-level=warn" => reading.setLevel (some .warn)
  | "--log-level=info" => reading.setLevel (some .info)
  | "--log-level=debug" => reading.setLevel (some .debug)
  | "--log-level=trace" => reading.setLevel (some .trace)
  | "--help" | "-h" => { reading with helpWanted := true }
  | other => reading.setTicks other.toList

/-- This function reads arguments in order. -/
def readAll (reading : Reading) : List String → Reading
  | [] => reading
  | argument :: rest =>
      let next := reading.step argument
      if next.helpWanted then next else readAll next rest

end Reading

/-- This function reads the arguments of a program without the program's name. -/
def read (arguments : List String) : Reading := Reading.readAll {} arguments

end LiveMarkup.Demo
