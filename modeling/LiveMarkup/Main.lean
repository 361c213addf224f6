import LiveMarkup.Demo.Program

/-
This file is the command line of the demonstration.
-/

namespace LiveMarkup.Demo

/-- A notice is written after its level, which takes five columns, and its channel. -/
def Line.text : Line → String
  | .plain text => text
  | .notice told =>
      let level := String.ofList (told.level.name.toList.rightpad 5 ' ')
      "[" ++ level ++ " " ++ told.channel ++ "] " ++ told.text

end LiveMarkup.Demo

/-- The log goes to the error stream. -/
def main (arguments : List String) : IO UInt32 := do
  let outcome := LiveMarkup.Demo.run arguments
  for line in outcome.lines do
    IO.eprintln line.text
  pure outcome.exitCode.toUInt32
