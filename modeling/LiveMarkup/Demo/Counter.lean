import LiveMarkup.Script.Interpreter

/-
This file is a demonstration: a counter that is mounted, clicked, set by an input and destroyed.
-/

namespace LiveMarkup.Demo

def documentTemplate : String := "<body><div id=\"app\"></div></body>"

/-- The count is shown in three ways and can be set by two buttons and an input. -/
def counterTemplate : String := String.intercalate "\n" [
  "",
  "    <div style=\"font-family:sans-serif; text-align:center; margin-top:2rem;\">",
  "      <h2>Count: <span v-text=\"count\"></span></h2>",
  "      <button id=\"dec\">-</button>",
  "      <button id=\"inc\" v-on:click=\"greet()\">+</button>",
  "      <p>",
  "        <label>Set directly:",
  "          <input type=\"range\" min=\"0\" max=\"100\" v-model=\"count\" />",
  "        </label>",
  "      </p>",
  "      <p>Double: \x7b\x7b count * 2 \x7d\x7d</p>",
  "    </div>",
  ""]

def counterName : String := "counter"

def countKey : String := "count"

/-- Rendering replaces the buttons, so each rendering adds their listeners anew. -/
def wireButton (button selector : String) (step : Int) : Script :=
  [.node (.query button (Live.rootName counterName) selector),
    .listen button "click" [.state (.increase counterName countKey step)]]

def counter : Component Script where
  name := counterName
  selector := "#app"
  initial := .object [(countKey, .integer 10)]
  template := counterTemplate
  methods := [("greet", [.tell .info "hi", .value .null])]
  hooks :=
    [(.init, [.tellValue .info "counter initialised with " counterName countKey]),
      (.mount, [.tell .info "counter mounted"]),
      (.destroy, [.tell .info "counter destroyed"])]
  rendered := some (wireButton "increment" "#inc" 1 ++ wireButton "decrement" "#dec" (-1))

open Live

/-- The content of the container is told in one line. -/
def tellMarkup (host : HostId) (text : String) : Live Unit := do
  let world ← get
  let html := (world.host? host).elim "" fun host => world.forest.innerHtml host.container
  note (.told .info (text ++ ": " ++ Text.compact html))

def findInside (host : HostId) (selector : String) : Live (Option NodeId) := do
  let world ← get
  pure ((world.host? host).bind fun host => world.forest.query? host.container selector)

def clickInside (run : Runner) (host : HostId) (selector : String) : Live Unit := do
  match ← findInside host selector with
  | some button => click run button
  | none => note (.told .warn ("nothing to click at " ++ selector))

/-- Each tick clicks the button that the last rendering made. -/
def tickFrom (run : Runner) (host : HostId) (done : Nat) : Nat → Live Unit
  | 0 => pure ()
  | left + 1 => do
      clickInside run host "#inc"
      tellMarkup host ("tick " ++ toString (done + 1))
      tickFrom run host (done + 1) left

def typeInside (run : Runner) (host : HostId) (selector text : String) : Live Unit := do
  match ← findInside host selector with
  | some input => do
      inputValue run input text
      tellMarkup host "after input"
  | none => pure ()

def tellFinal (host : HostId) : Live Unit := do
  match (← get).host? host with
  | none => pure ()
  | some found => do
      let count ← peekValue found.state countKey
      note (.told .info ("final count " ++ Value.inspectOption count ++ " after " ++
        toString found.renders ++ " render(s)"))

/-- The counter is mounted, clicked once for each tick, decremented, set to 42 and destroyed. -/
def useCounter (run : Runner) (ticks : Nat) (host : HostId) : Live (Except TemplateError Unit) := do
  discard (registerHook counterName .update [.tell .debug "counter re-rendered"])
  match ← mountHost run host with
  | .error error => pure (.error error)
  | .ok _ => do
      tellMarkup host "mounted"
      tickFrom run host 0 ticks
      clickInside run host "#dec"
      tellMarkup host "after decrement"
      typeInside run host "input" "42"
      tellFinal host
      destroyHost run host
      pure (.ok ())

/-- The host is let go at the end of the demonstration. -/
def runCounter (run : Runner) (ticks : Nat) : Live (Except MountError Unit) := operation do
  match ← parseTemplate documentTemplate with
  | .error error => pure (.error (.template error))
  | .ok document => do
      match ← createHost run counter document with
      | .error error => pure (.error error)
      | .ok host => do
          modifyNames fun names => { names with hosts := names.hosts.put counterName host }
          let result ← useCounter run ticks host
          modifyNames fun names => { names with hosts := names.hosts.erase counterName }
          pure (result.mapError .template)

end LiveMarkup.Demo
