import LiveMarkup.Proofs.Caching
import LiveMarkup.Proofs.Counting
import LiveMarkup.Proofs.NumericInput
import LiveMarkup.Proofs.Spelling

/-
This file says what the buttons and the input of the counter do. Each of them is heard where it is used and nowhere
above, and writes the count once.
-/

namespace LiveMarkup.Demo

open Live

variable {world : World}

theorem parse_greet : Expr.parse "greet()" = .ok (.call "greet" []) := by
  have writable : Expr.Writable (fun _ => []) (.call "greet" []) := ⟨rfl, trivial⟩
  have written := Expr.renders_of_form (Expr.renders_write _ writable)
  exact (Expr.parse_eq_ok_iff_written _ _).mpr ⟨[], _, [], Expr.isBlank_nil, Expr.isBlank_nil, rfl, written⟩

theorem ofNumericInput_answer : Value.ofNumericInput "42" = .integer 42 := by
  have converts : (Value.string "42").toNumber? = some (Binary64.ofInt 42) := by decide +kernel
  have present : ¬ Value.Blank "42" := by decide +kernel
  obtain ⟨-, computed⟩ := Value.ofNumericInput_of_converts present converts
  have small : (Binary64.ofInt 42).isIntegral ∧ (Binary64.ofInt 42).isBelow (9 * powerOfTen 15) := by decide +kernel
  have whole : (Binary64.ofInt 42).truncate = 42 := by decide +kernel
  rw [Value.ofBinary, if_pos small, whole] at computed
  exact (Except.ok.inj computed).symm

namespace Counting

variable {id : HostId} {renderer : EffectId} {record : Host} {count : Int} {root : NodeId}

/-- The method of the counter greets, and does nothing else. -/
theorem evaluateListener_eq (depth : Nat) (counting : Counting id renderer record count root world) :
    ∃ after, evaluateListener (runTo (depth + 1)) record.state "greet()" world = .ok () after ∧
      world.Remarks after := by
  obtain ⟨holds, held⟩ := World.hold_eq (.state record.state) world
  let entered : World := { world with holds, graph := world.graph.push none }
  obtain ⟨place, parsed, -⟩ := entered.parses.parse_eq "greet()"
  let known : World := { entered with parses := (entered.parses.parse "greet()").2 }
  have homed : (known.record (.methodCalled "greet" [])).Homed := counting.homed.of_same rfl rfl rfl
  obtain ⟨told, tells, remarks⟩ := performAll_tell (runTo depth) [] .null [.value .null] .info "hi" homed
  let last := told.record (.finished "value" (.ok .null))
  have answers : perform (runTo depth) [] (.value .null) told = .ok .null told := rfl
  have runs : runTo (depth + 1) (.method "greet" [.tell .info "hi", .value .null] []) known = .ok .null last :=
    tells.trans (performAll_of_homed answers (remarks.homed homed) rfl)
  have methods : methodsOf record.state known = .ok (storeOf count).methods known := by
    unfold methodsOf
    rw [get_bind, show known.store? record.state = some (storeOf count) from counting.store]
    rfl
  have calls : callMethod (runTo (depth + 1)) record.state "greet" [] known = .ok .null last := by
    unfold callMethod
    rw [bind_of_ok methods]
    show tryCatchThe EvalError (runTo (depth + 1) (.method "greet" [.tell .info "hi", .value .null] [])) _ known = _
    rw [tryCatch_apply, runs]
  have evaluates : evaluate (runTo (depth + 1)) record.state "greet()" entered = .ok .null last := by
    have parses : parseCached "greet()" entered = .ok (.ok (place, .call "greet" [])) known := by
      rw [parse_greet] at parsed
      exact congrArg (EStateM.Result.ok · known) parsed
    have strictly : evaluateStrictly (runTo (depth + 1)) record.state "greet()" entered = .ok .null last := by
      unfold evaluateStrictly
      rw [bind_of_ok parses]
      exact calls
    unfold evaluate
    rw [tryCatch_apply, strictly]
  have kept : last.Homed := (remarks.homed homed).of_same rfl rfl rfl
  have listens : untracked (discard (evaluate (runTo (depth + 1)) record.state "greet()")) { world with holds } =
      .ok () { last with graph := last.graph.pop } := by
    refine inFrame_of_homed ?_ kept
    rw [discard_apply, evaluates]
  have left : ({ last with graph := last.graph.pop } : World).Homed := kept.of_same rfl rfl rfl
  refine ⟨{ last with graph := last.graph.pop, holds := world.holds }, ?_, ?_⟩
  · unfold evaluateListener whileAlive
    rw [get_bind, if_pos counting.isAlive]
    refine operation_of_homed ?_ left
    rw [bind_of_ok held]
    exact listens
  · obtain ⟨parses, happenings, notices, rfl⟩ := remarks
    exact ⟨_, _, _, rfl⟩

/-- A frame that stops tracking makes no difference to the counter. -/
theorem entered (counting : Counting id renderer record count root world) :
    Counting id renderer record count root (world.entered none) :=
  { counting with
    reachable := by
      obtain ⟨moves, path⟩ := counting.reachable
      exact ⟨_, path.step (.entered none) trivial⟩
    homed := counting.homed.of_same rfl rfl rfl
    idle := fun member => counting.idle ((List.mem_cons.mp member).resolve_left (Option.some_ne_none renderer)) }

theorem leave (counting : Counting id renderer record count root world) :
    Counting id renderer record count root { world with graph := world.graph.pop } :=
  { counting with
    reachable := by
      obtain ⟨moves, path⟩ := counting.reachable
      exact ⟨_, path.step .left trivial⟩
    homed := counting.homed.of_same rfl rfl rfl
    idle := fun member => counting.idle (List.mem_of_mem_tail member) }

theorem setValue (counting : Counting id renderer record count root world) (node : NodeId) (text : String) :
    Counting id renderer record count root { world with forest := world.forest.setValue node text } :=
  { counting with
    homed := counting.homed.of_same rfl rfl rfl
    stands := counting.stands.setValue node text }

end Counting

namespace Recounts

variable {id : HostId} {renderer : EffectId} {record : Host} {next : Int} {before begun after : World}

theorem homed (recounts : Recounts id renderer record next before after) : after.Homed := by
  obtain ⟨newer, counting, -⟩ := recounts.counting
  exact counting.homed

/-- What is kept aside before and after a write makes no difference. -/
theorem aside (recounts : Recounts id renderer record next begun after) (before : World)
    (forest : begun.forest = before.forest) (parses : ParseCache) (holds : List Hold) (happenings : List Happening)
    (notices : List Notice) :
    Recounts id renderer record next before { after with parses, holds, happenings, notices } where
  counting := by
    obtain ⟨newer, counting, same⟩ := recounts.counting
    exact ⟨newer, forest ▸ counting.aside parses holds happenings notices, same⟩
  handlers := forest ▸ recounts.handlers
  parents := forest ▸ recounts.parents

theorem leave (recounts : Recounts id renderer record next before after) :
    Recounts id renderer record next before { after with graph := after.graph.pop } where
  counting := by
    obtain ⟨newer, counting, same⟩ := recounts.counting
    exact ⟨newer, counting.leave, same⟩
  handlers := recounts.handlers
  parents := recounts.parents

/-- Old content that is taken away is as quiet as it was. -/
theorem quiet (recounts : Recounts id renderer record next before after) {kind : String} {node : Nat}
    (quiet : before.forest.Quiet kind node) (known : node < before.forest.size) : after.forest.Quiet kind node :=
  quiet.of_parents (fun _ => False) known (fun own => own) (fun _ _ _ own => own)
    (fun node below _ => recounts.handlers node below) recounts.parents

end Recounts

/-- The numbers that have 64 bits with sign. -/
def Fits (number : Int) : Prop := -(powerOfTwo 63 : Int) ≤ number ∧ number < powerOfTwo 63

theorem increased_of_fits {count step : Int} (old : Fits count) (new : Fits (count + step)) :
    increased step (some (.integer count)) = .integer (count + step) := by
  have signed : (Number.integer count).signed64? = some count := if_pos old
  have exact : wrapped (count + step) = count + step := by
    obtain ⟨least, most⟩ := new
    simp only [show (powerOfTwo 63 : Int) = 9223372036854775808 from rfl] at least most
    refine Int.bmod_eq_of_le_mul_two ?_ ?_ <;>
      simp only [show ((powerOfTwo 64 : Nat) : Int) = 18446744073709551616 from rfl] <;> omega
  show Value.integer (wrapped ((Number.integer count).signed64?.getD 0 + step)) = _
  rw [signed, Option.getD_some, exact]

namespace Counting

variable {id : HostId} {renderer : EffectId} {record : Host} {count : Int} {root : NodeId}

/-- A button changes the count by its step. -/
theorem performHandler_eq (depth : Nat) (counting : Counting id renderer record count root world) {step : Int}
    (old : Fits count) (new : Fits (count + step)) (event : Event) :
    ∃ after, performHandler (runTo (depth + 3)) event (stepHandler step) world = .ok .null after ∧
      Recounts id renderer record (count + step) world after := by
  let heard := world.record (.eventHeard event.kind (world.describe event.target) (world.describe event.current))
  have found : heard.stateFor? counterName = some record.state := by
    show (world.names.states.get? counterName).filter world.isAlive = _
    rw [counting.named, Option.filter_some, if_pos counting.isAlive]
  obtain ⟨holds, held⟩ := stateNamed_of_found found
  have ready : Counting id renderer record count root { heard with holds } :=
    counting.aside _ holds heard.happenings _
  obtain ⟨after, writes, recounts⟩ := ready.writeValue_eq depth (count + step)
  have performs : perform (runTo (depth + 3)) [] (.state (.increase counterName countKey step)) heard =
      .ok .null after := by
    have peeks : peekValue record.state countKey { heard with holds } =
        .ok (some (.integer count)) { heard with holds } := by
      unfold peekValue valuesOf
      rw [bind_apply, get_bind, show ({ heard with holds } : World).store? record.state = some (storeOf count) from
        counting.store]
      rfl
    have updates : updateValue (runTo (depth + 3)) record.state countKey (increased step) { heard with holds } =
        .ok () after := by
      unfold updateValue
      rw [bind_of_ok peeks, increased_of_fits old new]
      exact writes
    exact (bind_of_ok held).trans (bind_of_ok updates)
  let final := { after with holds := heard.holds, happenings := .finished "incr" (.ok .null) :: after.happenings }
  have since : Recounts id renderer record (count + step) world final :=
    recounts.aside world rfl after.parses heard.holds final.happenings after.notices
  refine ⟨final, ?_, since⟩
  have script : performAll (runTo (depth + 3)) [] .null [.state (.increase counterName countKey step)] heard =
      .ok .null final := performAll_of_homed performs recounts.homed rfl
  show swallowing (performAll (runTo (depth + 3)) [] .null [.state (.increase counterName countKey step)]) heard = _
  unfold swallowing
  rw [tryCatch_apply, script]

/-- The increment greets, and then counts up. -/
theorem click_increment (depth : Nat) (counting : Counting id renderer record count root world) (old : Fits count)
    (new : Fits (count + 1)) :
    ∃ after, click (runTo (depth + 4)) (incrementAt root) world = .ok () after ∧
      Recounts id renderer record (count + 1) world after := by
  let event : Event := ⟨"click", incrementAt root, incrementAt root⟩
  obtain ⟨greeted, greets, parses, happenings, notices, rfl⟩ := counting.evaluateListener_eq (depth + 2)
  obtain ⟨after, steps, recounts⟩ := (counting.aside parses world.holds happenings notices).performHandler_eq depth old
    new event
  have since : Recounts id renderer record (count + 1) world after :=
    recounts.aside world rfl after.parses after.holds after.happenings after.notices
  have calls : callHandlers (runTo (depth + 4)) event [.evaluate record.state "greet()", stepHandler 1] world =
      .ok () after :=
    callHandlers_cons (bind_of_ok greets) (callHandlers_cons steps rfl)
  have hears : world.forest.listenersFor (incrementAt root) "click" =
      [.evaluate record.state "greet()", stepHandler 1] := by
    rw [Forest.listenersFor_eq, counting.stands.handlersAt_increment]
    rfl
  have known : incrementAt root < world.forest.size := counting.stands.lt_size 11 (by decide)
  refine ⟨after, ?_, since⟩
  unfold click
  rw [discard_apply, dispatch_of_quiet known hears calls (since.quiet (counting.stands.quiet_increment _) known)]

/-- The decrement counts down. -/
theorem click_decrement (depth : Nat) (counting : Counting id renderer record count root world) (old : Fits count)
    (new : Fits (count + -1)) :
    ∃ after, click (runTo (depth + 4)) (decrementAt root) world = .ok () after ∧
      Recounts id renderer record (count + -1) world after := by
  let event : Event := ⟨"click", decrementAt root, decrementAt root⟩
  obtain ⟨after, steps, recounts⟩ := counting.performHandler_eq depth old new event
  have calls : callHandlers (runTo (depth + 4)) event [stepHandler (-1)] world = .ok () after :=
    callHandlers_cons steps rfl
  have hears : world.forest.listenersFor (decrementAt root) "click" = [stepHandler (-1)] := by
    rw [Forest.listenersFor_eq, counting.stands.handlersAt_decrement]
    rfl
  have known : decrementAt root < world.forest.size := counting.stands.lt_size 8 (by decide)
  refine ⟨after, ?_, recounts⟩
  unfold click
  rw [discard_apply, dispatch_of_quiet known hears calls (recounts.quiet (counting.stands.quiet_decrement _) known)]

/-- The input writes its number, and the write is tracked by nobody. -/
theorem storeInput_eq (depth : Nat) (counting : Counting id renderer record count root world) {node : NodeId}
    (value : world.forest.value node = "42") :
    ∃ after, storeInput (runTo (depth + 3)) record.state countKey true node world = .ok () after ∧
      Recounts id renderer record 42 world after := by
  obtain ⟨holds, held⟩ := World.hold_eq (.state record.state) world
  let begun : World := { world with holds }
  have ready : Counting id renderer record count root (begun.entered none) :=
    (counting.aside world.parses holds world.happenings world.notices).entered
  obtain ⟨written, writes, recounts⟩ := ready.writeValue_eq depth 42
  let left : World := { written with graph := written.graph.pop }
  have leaves := recounts.leave
  have since : Recounts id renderer record 42 world { left with holds := world.holds } :=
    leaves.aside world rfl written.parses world.holds written.happenings written.notices
  refine ⟨{ left with holds := world.holds }, ?_, since⟩
  have untracks : untracked (writeValue (runTo (depth + 3)) record.state countKey (.integer 42)) begun = .ok () left :=
    inFrame_of_homed writes recounts.homed
  rw [storeInput_numeric, value, ofNumericInput_answer]
  unfold whileAlive
  rw [get_bind, if_pos counting.isAlive]
  refine operation_of_homed ?_ leaves.homed
  rw [bind_of_ok held]
  exact untracks

/-- The number that is put in is stored, and nobody above the input hears of it. -/
theorem inputValue_eq (depth : Nat) (counting : Counting id renderer record count root world) :
    ∃ after, inputValue (runTo (depth + 4)) (inputAt root) "42" world = .ok () after ∧
      Recounts id renderer record 42 world after := by
  let event : Event := ⟨"input", inputAt root, inputAt root⟩
  let valued : World := { world with forest := world.forest.setValue (inputAt root) "42" }
  have ready : Counting id renderer record count root valued := counting.setValue (inputAt root) "42"
  have value : valued.forest.value (inputAt root) = "42" := by
    obtain ⟨element, found⟩ := Forest.element?_of_handlersAt
      (show world.forest.handlersAt (inputAt root) ≠ [] by rw [counting.stands.handlersAt_input]; nofun)
    show (world.forest.setValue (inputAt root) "42").value (inputAt root) = "42"
    rw [Forest.value_setValue found, if_pos rfl]
  obtain ⟨after, stores, recounts⟩ := ready.storeInput_eq depth value
  have calls : callHandlers (runTo (depth + 4)) event [.storeInput record.state countKey true] valued = .ok () after :=
    callHandlers_cons (bind_of_ok stores) rfl
  have hears : valued.forest.listenersFor (inputAt root) "input" = [.storeInput record.state countKey true] := by
    rw [Forest.listenersFor_eq, ready.stands.handlersAt_input]
    rfl
  have known : inputAt root < valued.forest.size := ready.stands.lt_size 18 (by decide)
  have size : valued.forest.size = world.forest.size := Forest.size_setValue _ _ _
  refine ⟨after, ?_, ?_⟩
  · show discard (dispatch (runTo (depth + 4)) "input" (inputAt root)) valued = _
    rw [discard_apply, dispatch_of_quiet known hears calls (recounts.quiet (ready.stands.quiet_input _) known)]
  · exact
      { counting := size ▸ recounts.counting
        handlers := fun node below =>
          (recounts.handlers node (size ▸ below)).trans (Forest.handlersAt_setValue "42")
        parents := fun node parent below found =>
          (Forest.parent?_modifyElement _).symm.trans (recounts.parents node parent (size ▸ below) found) }

/-- A counter that is destroyed leaves its container empty, and keeps its count and its renders. -/
theorem destroyHost_eq (depth : Nat) (counting : Counting id renderer record count root world) :
    ∃ after last, destroyHost (runTo (depth + 1)) id world = .ok () after ∧
      after.forest.children record.container = [] ∧ after.store? record.state = some (storeOf count) ∧
      after.host? id = some last ∧ last.renders = record.renders ∧ last.state = record.state ∧
      last.container = record.container := by
  obtain ⟨told, story, emits, driven, -⟩ := counting.emits depth counting.destroys
  obtain ⟨emptied, drops, found, targets⟩ : ∃ emptied, dropBindings id told = .ok () emptied ∧
      emptied.host? id = some { record with bindings := {}, story } ∧ emptied.targets = told.targets := by
    obtain ⟨-, -, found, targets⟩ := World.host?_emptied driven.homed driven.host
    exact ⟨_, World.dropBindings_eq driven.host, found, targets⟩
  have changed := World.host?_modifyHost emptied id id fun host =>
    { host with mounted := false, story := .destroyed host.renders :: host.story }
  rw [if_pos rfl, found] at changed
  refine ⟨(emptied.removed id { record with bindings := {}, story }).note (.hostDestroyed record.component.selector), _,
    ?_, Forest.children_clear _ _, ?_, changed, rfl, rfl, rfl⟩
  · unfold destroyHost
    rw [bind_of_ok emits, bind_of_ok drops, get_bind, found]
    rfl
  · have kept : emptied.store? record.state = told.store? record.state := by
      unfold World.store?
      rw [targets]
    exact kept.trans driven.store

end Counting

end LiveMarkup.Demo
