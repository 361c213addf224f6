import LiveMarkup.Demo.Counter
import LiveMarkup.Demo.Options

/-
This file runs the demonstration for given arguments and collects what it writes.
-/

namespace LiveMarkup.Demo

/-- A program writes plain lines and notices. -/
inductive Line where
  | plain (text : String)
  | notice (notice : Notice)

structure Outcome where
  exitCode : Nat
  lines : List Line

/-- A notice is logged if the level admits it. -/
def isLogged (level : Option Level) (notice : Notice) : Bool :=
  match level with
  | none => false
  | some level => notice.level.rank ≤ level.rank

def ignoredLine (value : String) : Line := .plain ("ignoring invalid --ticks value: " ++ value)

/-- A mount error ends the demonstration with a failure. -/
def finish : EStateM.Result Stop World (Except MountError Unit) → Nat × List Notice
  | .ok (.ok _) world => (0, world.notices.reverse)
  | .ok (.error error) world => (1, (Notice.told .error error.message :: world.notices).reverse)
  | .error _ world => (101, world.notices.reverse)

/-- Help is told before the log is open, so that it leaves no trace. -/
def run (arguments : List String) : Outcome :=
  let reading := read arguments
  let ignored := reading.ignored.map ignoredLine
  if reading.helpWanted then ⟨0, ignored⟩
  else
    let (exitCode, notices) :=
      finish (runCounter (Live.runTo Live.spareDepth) reading.options.ticks World.empty)
    ⟨exitCode, ignored ++ (notices.filter (isLogged reading.options.level)).map .notice⟩

end LiveMarkup.Demo
