import LiveMarkup.Proofs.Plain

/-
This file defines the scripts that only read, and shows what they follow. A total script neither
panics nor calls methods, so that it always comes to an end.
-/

namespace LiveMarkup

/-- An evaluation may call methods unless it must be total. -/
def Expr.onlyReads (total : Bool) (source : String) : Bool := !total || isCallFreeSource source

def Interpolation.onlyReads (total : Bool) (text : String) : Bool := !total || isCallFree text

def StateCommand.onlyReads (total : Bool) : StateCommand → Bool
  | .readForm _ => true
  | .isAlive _ => true
  | .isSame .. => true
  | .identity _ => true
  | .get .. => true
  | .peek .. => true
  | .contains .. => true
  | .snapshot _ => true
  | .trackAll _ => true
  | .hasMethod .. => true
  | .evaluate _ source => Expr.onlyReads total source
  | .evaluateText _ source => Expr.onlyReads total source
  | .evaluateStrictly _ source => Expr.onlyReads total source
  | .interpolate _ text => Interpolation.onlyReads total text
  | .hasInterpolation _ => true
  | _ => false

def EffectCommand.onlyReads : EffectCommand → Bool
  | .info _ => true
  | .isSame .. => true
  | .dependencies _ => true
  | .active => true
  | .track .. => true
  | .subscriberCount .. => true
  | .hasTarget _ => true
  | _ => false

/-- A node that is found may get a name. -/
def NodeCommand.onlyReads : NodeCommand → Bool
  | .create .. => false
  | .parse .. => false
  | .append .. => false
  | .detach _ => false
  | .clear _ => false
  | .setAttribute .. => false
  | .removeAttribute .. => false
  | .setText .. => false
  | .setValue .. => false
  | .dispatch .. => false
  | .input .. => false
  | .click _ => false
  | _ => true

def HostCommand.onlyReads : HostCommand → Bool
  | .bindings _ => true
  | .hookCount .. => true
  | .info _ => true
  | _ => false

mutual

def Command.onlyReads (total : Bool) : Command → Bool
  | .log _ => true
  | .value _ => true
  | .argumentAt _ => true
  | .arguments => true
  | .sum => true
  | .fail _ => true
  | .panic _ => !total
  | .branch _ _ yes no => Script.onlyReads total yes && Script.onlyReads total no
  | .cycle bodies => Script.allOnlyRead total bodies
  | .once _ body => Script.onlyReads total body
  | .untracked body => Script.onlyReads total body
  | .tell .. => true
  | .tellValue .. => true
  | .state command => command.onlyReads total
  | .effect command => command.onlyReads
  | .node command => command.onlyReads
  | .host command => command.onlyReads
  | .inspect .. => true
  | .method .. => false
  | .createEffect .. => false
  | .listen .. => false
  | .onHook .. => false
  | .createHost .. => false

def Script.onlyReads (total : Bool) : List Command → Bool
  | [] => true
  | command :: rest => Command.onlyReads total command && Script.onlyReads total rest

def Script.allOnlyRead (total : Bool) : List (List Command) → Bool
  | [] => true
  | body :: rest => Script.onlyReads total body && Script.allOnlyRead total rest

end

namespace Plain

open Live

variable {conduct : Conduct} {run : Runner} {total : Bool} {world : World}

/-- What need not be total may call methods. -/
theorem free_of_onlyReads {free : Bool} (reads : (!total || free) = true) :
    free = true ∨ total = false := by
  cases total with
  | true => exact Or.inl reads
  | false => exact Or.inr rfl

section

variable (plain : Plain conduct)
  (calls : total = false → ∀ state name arguments after,
    Follows conduct (Live.callMethod run state name arguments) after)
include plain calls

theorem readsState (command : StateCommand) (reads : command.onlyReads total = true) :
    Follows conduct (Live.performState run command) world := by
  cases command with
  | readForm state =>
      exact plain.onState state fun id _ _ => (valuesOf id).bind fun _ _ _ => Follows.pure _
  | isAlive name => exact Follows.asks (Follows.pure _)
  | isSame first second =>
      exact plain.onState first fun _ _ _ => plain.onState second fun _ _ _ => Follows.pure _
  | identity state => exact plain.onState state fun _ _ _ => Follows.pure _
  | get state key =>
      exact plain.onState state fun _ _ ready => (plain.readValue key ready).bind fun _ _ _ => Follows.pure _
  | peek state key =>
      exact plain.onState state fun id _ _ => (peekValue id key).bind fun _ _ _ => Follows.pure _
  | contains state key =>
      exact plain.onState state fun id _ _ => (valuesOf id).bind fun _ _ _ => Follows.pure _
  | snapshot state =>
      exact plain.onState state fun id _ _ => (valuesOf id).bind fun _ _ _ => Follows.pure _
  | trackAll state =>
      exact plain.onState state fun id after ready =>
        (plain.tracks id _ after ready).bind fun _ _ _ => Follows.pure _
  | hasMethod state name =>
      exact plain.onState state fun id _ _ => (methodsOf id).bind fun _ _ _ => Follows.pure _
  | evaluate state source =>
      have free := free_of_onlyReads reads
      exact plain.onState state fun id _ ready =>
        plain.evaluates id (fun may => calls may id) source ready free
  | evaluateText state source =>
      have free := free_of_onlyReads reads
      exact plain.onState state fun id _ ready =>
        (plain.evaluatesText id (fun may => calls may id) source ready free).bind fun _ _ _ =>
          Follows.pure _
  | evaluateStrictly state source =>
      have free := free_of_onlyReads reads
      exact plain.onState state fun id _ ready =>
        plain.evaluatesStrictly id (fun may => calls may id) source ready free
  | interpolate state text =>
      have free := free_of_onlyReads reads
      exact plain.onState state fun id _ ready =>
        (plain.interpolates id (fun may => calls may id) text ready free).bind fun _ _ _ => Follows.pure _
  | hasInterpolation text => exact Follows.pure _
  | _ => cases reads

omit calls in
theorem readsEffect (command : EffectCommand) (reads : command.onlyReads = true) :
    Follows conduct (Live.performEffect run command) world := by
  cases command with
  | info effect =>
      exact (plain.effectNamed effect).bind fun _ _ _ => Follows.asks (Follows.pure _)
  | isSame first second =>
      exact (plain.effectNamed first).bind fun _ _ _ =>
        (plain.effectNamed second).bind fun _ _ _ => Follows.pure _
  | dependencies effect =>
      exact (plain.effectNamed effect).bind fun _ _ _ => Follows.asks (Follows.pure _)
  | active => exact Follows.asks (Follows.pure _)
  | track target key =>
      exact (targetNamed target).bind fun id after _ =>
        (plain.tracksByHand id key after).bind fun _ _ _ => Follows.pure _
  | subscriberCount target key =>
      exact (targetNamed target).bind fun _ _ _ => Follows.asks (Follows.pure _)
  | hasTarget target =>
      exact (targetNamed target).bind fun _ _ _ => Follows.asks (Follows.pure _)
  | _ => cases reads

omit calls in
theorem readsNode (command : NodeCommand) (reads : command.onlyReads = true) :
    Follows conduct (Live.performNode run command) world := by
  cases command with
  | query name root selector => exact plain.names_askForest name root _
  | child name parent position => exact plain.names_askForest name parent _
  | firstChild name parent => exact plain.names_askForest name parent _
  | nextSibling name node => exact plain.names_askForest name node _
  | parent name node => exact plain.names_askForest name node _
  | next name node root =>
      exact (nodeNamed root).bind fun _ _ _ => plain.names_askForest name node _
  | skip name node root =>
      exact (nodeNamed root).bind fun _ _ _ => plain.names_askForest name node _
  | queryAll root selector => exact tells_askForest root _ _
  | descendants root => exact (nodeNamed root).bind fun _ _ _ => Follows.asks (Follows.pure _)
  | children parent => exact (nodeNamed parent).bind fun _ _ _ => Follows.asks (Follows.pure _)
  | isSame first second =>
      exact (nodeNamed first).bind fun _ _ _ => (nodeNamed second).bind fun _ _ _ => Follows.pure _
  | type node => exact (nodeNamed node).bind fun _ _ _ => Follows.asks (Follows.pure _)
  | attributeValue node name => exact tells_askForest node _ _
  | hasAttribute node name => exact tells_askForest node _ _
  | attributes node => exact tells_askForest node _ _
  | text node => exact tells_askForest node _ _
  | value node => exact tells_askForest node _ _
  | innerHtml node => exact tells_askForest node _ _
  | outerHtml node => exact tells_askForest node _ _
  | tree node => exact (nodeNamed node).bind fun _ _ _ => Follows.asks (Follows.pure _)
  | listenerCount node kind => exact tells_askForest node _ _
  | _ => cases reads

omit calls in
theorem readsHost (command : HostCommand) (reads : command.onlyReads = true) :
    Follows conduct (Live.performHost run command) world := by
  cases command with
  | bindings name => exact (bindingsNamed name).bind fun _ _ _ => Follows.asks (Follows.pure _)
  | hookCount emitter kind => exact (emitterNamed emitter).bind fun _ _ _ => Follows.pure _
  | info host => exact (plain.hostNamed host).bind fun _ _ _ => Follows.asks (Follows.pure _)
  | _ => cases reads

omit calls in
theorem inspects (kind : Inspected) (name : String) :
    Follows conduct (Live.performInspect kind name) world := by
  cases kind with
  | state => exact (plain.stateNamed name).bind fun _ _ _ => Follows.asks (Follows.pure _)
  | effect => exact (plain.effectNamed name).bind fun _ _ _ => Follows.asks (Follows.pure _)
  | node => exact (nodeNamed name).bind fun _ _ _ => Follows.asks (Follows.pure _)
  | emitter => exact (emitterNamed name).bind fun _ _ _ => Follows.pure _
  | host => exact (plain.hostNamed name).bind fun _ _ _ => Follows.asks (Follows.pure _)

end

mutual

/-- A command that only reads follows whatever its reads, its calls and its panics follow. -/
theorem reads (plain : Plain conduct)
    (calls : total = false → ∀ state name arguments after,
      Follows conduct (Live.callMethod run state name arguments) after)
    (panics : total = false → ∀ world, conduct.broken world world)
    (arguments : List Value) (world : World) :
    ∀ command : Command, command.onlyReads total = true →
      Follows conduct (Live.perform run arguments command) world
  | .log value, _ => Follows.pure _
  | .value value, _ => Follows.pure _
  | .argumentAt position, _ => Follows.pure _
  | .arguments, _ => Follows.pure _
  | .sum, _ => Follows.raises _
  | .fail error, _ => Follows.fails _
  | .panic payload, free => Follows.stops (panics (by simpa [Command.onlyReads] using free) world) _
  | .branch state key yes no, free => by
      obtain ⟨freeYes, freeNo⟩ := (Bool.and_eq_true _ _).mp free
      refine (plain.isTruthyAt state key).bind fun truth after _ => ?_
      split
      · exact readsAll plain calls panics arguments .null after yes freeYes
      · exact readsAll plain calls panics arguments .null after no freeNo
  | .cycle bodies, free => Follows.asks (readsOne plain calls panics arguments world _ bodies free)
  | .once tag body, free => Follows.asks (by
      split
      · exact Follows.pure _
      · exact (Follows.modifies (plain.meets tag world)).bind fun _ after _ =>
          readsAll plain calls panics arguments .null after body free)
  | .untracked body, free =>
      plain.untracks _ world (readsAll plain calls panics arguments .null _ body free)
  | .tell level text, _ => (plain.note _).bind fun _ _ _ => Follows.pure _
  | .tellValue level text state key, _ =>
      plain.onState state fun id _ _ => (peekValue id key).bind fun _ _ _ =>
        (plain.note _).bind fun _ _ _ => Follows.pure _
  | .state command, free => plain.readsState calls command free
  | .effect command, free => plain.readsEffect command free
  | .node command, free => plain.readsNode command free
  | .host command, free => plain.readsHost command free
  | .inspect kind name, _ => plain.inspects kind name

theorem readsAll (plain : Plain conduct)
    (calls : total = false → ∀ state name arguments after,
      Follows conduct (Live.callMethod run state name arguments) after)
    (panics : total = false → ∀ world, conduct.broken world world)
    (arguments : List Value) (last : Value) (world : World) :
    ∀ script : Script, Script.onlyReads total script = true →
      Follows conduct (Live.performAll run arguments last script) world
  | [], _ => Follows.pure _
  | command :: rest, free => by
      obtain ⟨freeHere, freeRest⟩ := (Bool.and_eq_true _ _).mp free
      exact (plain.recorded _ _ (reads plain calls panics arguments world command freeHere)).bind
        fun value after _ => readsAll plain calls panics arguments value after rest freeRest

theorem readsOne (plain : Plain conduct)
    (calls : total = false → ∀ state name arguments after,
      Follows conduct (Live.callMethod run state name arguments) after)
    (panics : total = false → ∀ world, conduct.broken world world)
    (arguments : List Value) (world : World) (place : Nat) :
    ∀ scripts : List Script, Script.allOnlyRead total scripts = true →
      Follows conduct (Live.performOne run arguments place scripts) world
  | [], _ => by
      cases place <;> exact Follows.pure _
  | body :: rest, free => by
      obtain ⟨freeHere, freeRest⟩ := (Bool.and_eq_true _ _).mp free
      cases place with
      | zero => exact readsAll plain calls panics arguments .null world body freeHere
      | succ place => exact readsOne plain calls panics arguments world place rest freeRest

end

end Plain

end LiveMarkup
