import LiveMarkup.Proofs.Attribution
import LiveMarkup.Proofs.Clicking
import LiveMarkup.Proofs.Opening

/-
This file follows the whole demonstration, from the empty world to the end of the counter, for any number of ticks.
-/

namespace LiveMarkup.Demo

open Live

/-- The demonstration leads through these worlds. Each action begins where the action before it ended. -/
structure Course (run : Runner) (ticks : Nat) where
  document : NodeId
  host : HostId
  input : NodeId
  parsed : World
  created : World
  registered : World
  mounted : World
  shown : Nat → World
  clicked : Nat → World
  decremented : World
  waiting : World
  entered : World
  settled : World
  concluded : World
  destroyed : World
  parses : parseTemplate documentTemplate World.empty = .ok (.ok document) parsed
  creates : createHost run counter document parsed = .ok (.ok host) created
  registers : discard (registerHook counterName .update [.tell .debug "counter re-rendered"])
    { created with names := { created.names with hosts := created.names.hosts.put counterName host } } =
    .ok () registered
  mounts : mountHost run host registered = .ok (.ok ()) mounted
  shows : tellMarkup host "mounted" mounted = .ok () (shown 0)
  clicks : ∀ tick < ticks, clickInside run host "#inc" (shown tick) = .ok () (clicked (tick + 1))
  tells : ∀ tick < ticks,
    tellMarkup host ("tick " ++ toString (tick + 1)) (clicked (tick + 1)) = .ok () (shown (tick + 1))
  decrements : clickInside run host "#dec" (shown ticks) = .ok () decremented
  waits : tellMarkup host "after decrement" decremented = .ok () waiting
  finds : findInside host "input" waiting = .ok (some input) waiting
  enters : inputValue run input "42" waiting = .ok () entered
  settles : tellMarkup host "after input" entered = .ok () settled
  concludes : tellFinal host settled = .ok () concluded
  destroys : destroyHost run host concluded = .ok () destroyed

namespace Course

variable {run : Runner} {ticks : Nat}

theorem tickFrom_eq (course : Course run ticks) (done left : Nat) (all : done + left = ticks) :
    tickFrom run course.host done left (course.shown done) = .ok () (course.shown ticks) := by
  induction left generalizing done with
  | zero =>
      subst all
      rfl
  | succ left inductionHypothesis =>
      have more : done < ticks := by omega
      unfold tickFrom
      rw [bind_of_ok (course.clicks done more), bind_of_ok (course.tells done more)]
      exact inductionHypothesis (done + 1) (by omega)

theorem useCounter_eq (course : Course run ticks) :
    useCounter run ticks course.host
      { course.created with
        names := { course.created.names with hosts := course.created.names.hosts.put counterName course.host } } =
      .ok (.ok ()) course.destroyed := by
  have types : typeInside run course.host "input" "42" course.waiting = .ok () course.settled := by
    unfold typeInside
    rw [bind_of_ok course.finds]
    dsimp only
    rw [bind_of_ok course.enters]
    exact course.settles
  unfold useCounter
  rw [bind_of_ok course.registers, bind_of_ok course.mounts]
  dsimp only
  rw [bind_of_ok course.shows, bind_of_ok (course.tickFrom_eq 0 ticks (Nat.zero_add ticks)),
    bind_of_ok course.decrements, bind_of_ok course.waits, bind_of_ok types, bind_of_ok course.concludes,
    bind_of_ok course.destroys]
  rfl

/-- Whoever follows a course runs the demonstration to its end. -/
theorem runCounter_eq (course : Course run ticks) :
    ∃ final, runCounter run ticks World.empty = .ok (.ok ()) final := by
  let named : World := { course.created with
    names := { course.created.names with hosts := course.created.names.hosts.put counterName course.host } }
  have names : modifyNames (fun names => { names with hosts := names.hosts.put counterName course.host })
      course.created = .ok () named := rfl
  unfold runCounter operation ending
  rw [bind_of_ok course.parses]
  dsimp only
  rw [bind_of_ok course.creates]
  dsimp only
  rw [bind_of_ok names, bind_of_ok course.useCounter_eq]
  exact ⟨_, rfl⟩

end Course

theorem exitCode_of_success {arguments : List String} {ticks : Nat} {final : World}
    (given : (read arguments).options.ticks = ticks)
    (succeeds : runCounter (runTo spareDepth) ticks World.empty = .ok (.ok ()) final) :
    (Demo.run arguments).exitCode = 0 := by
  subst given
  unfold Demo.run
  -- The result must be known before the outcome is taken apart, or else the whole demonstration is computed.
  extract_lets reading ignored
  split
  · rfl
  · rw [show runCounter (runTo spareDepth) reading.options.ticks World.empty = .ok (.ok ()) final from succeeds]
    rfl

/-- A counter shows its state in its container. It is at a count, and was rendered a number of times. -/
structure At (host : HostId) (state : TargetId) (container : NodeId) (count : Int) (renders : Nat) (world : World) :
    Prop where
  host : ∃ record, world.host? host = some record ∧ record.state = state ∧ record.container = container ∧
    record.renders = renders
  count : world.peek? state countKey = some (.integer count)

/-- The increment was made anew. It greets and counts up, and hears nothing else. -/
def Rewired (state : TargetId) (container : NodeId) (before after : World) : Prop :=
  ∃ button, before.forest.size ≤ button ∧ after.forest.query? container "#inc" = some button ∧
    after.forest.handlersAt button = [("click", .evaluate state "greet()"), ("click", stepHandler 1)]

/-- A step is added to the count, and the sum has 64 bits as the count had. -/
def StepsBy (step : Int) (state : TargetId) (before after : World) : Prop :=
  ∃ count, before.peek? state countKey = some (.integer count) ∧ Fits count ∧ Fits (count + step) ∧
    after.peek? state countKey = some (.integer (count + step))

/-- The counter of the demonstration is at a count after some renders. Its content follows a root. -/
def Ready (count : Int) (renders : Nat) (root : NodeId) (world : World) : Prop :=
  ∃ record, Counting 0 0 record count root world ∧ record.renders = renders ∧ record.state = 0 ∧ record.container = 2

theorem Recounts.ready {record : Host} {next : Int} {before after : World}
    (recounts : Recounts 0 0 record next before after) (state : record.state = 0) (container : record.container = 2) :
    Ready next (record.renders + 1) before.forest.size after := by
  obtain ⟨newer, counting, renders, sameState, sameContainer⟩ := recounts.counting
  exact ⟨newer, counting, renders, sameState.trans state, sameContainer.trans container⟩

namespace Ready

variable {count : Int} {renders : Nat} {root : NodeId} {world : World}

theorem peek?_eq (ready : Ready count renders root world) : world.peek? 0 countKey = some (.integer count) := by
  obtain ⟨record, counting, -, state, -⟩ := ready
  have stored := counting.store
  rw [state] at stored
  unfold World.peek?
  rw [stored]
  rfl

theorem at_count (ready : Ready count renders root world) : At 0 0 2 count renders world where
  host := by
    obtain ⟨record, counting, rendered, state, container⟩ := ready
    exact ⟨record, counting.host, state, container, rendered⟩
  count := ready.peek?_eq

theorem rewired {before : World} (ready : Ready count renders before.forest.size world) :
    Rewired 0 2 before world := by
  obtain ⟨record, counting, -, state, container⟩ := ready
  have stands := counting.stands
  rw [state, container] at stands
  exact ⟨_, Nat.le_add_right _ _, stands.query?_increment, stands.handlersAt_increment⟩

theorem stepsBy {step : Int} {after : World} {newer : NodeId} {more : Nat} (ready : Ready count renders root world)
    (next : Ready (count + step) more newer after) (old : Fits count) (new : Fits (count + step)) :
    StepsBy step 0 world after := ⟨count, ready.peek?_eq, old, new, next.peek?_eq⟩

/-- What is told of the counter makes no difference to it. -/
theorem note (ready : Ready count renders root world) (notice : Notice) :
    Ready count renders root (world.note notice) := by
  obtain ⟨record, counting, same⟩ := ready
  exact ⟨record, counting.aside world.parses world.holds world.happenings (notice :: world.notices), same⟩

theorem tellMarkup_eq (ready : Ready count renders root world) (text : String) :
    ∃ after, tellMarkup 0 text world = .ok () after ∧ Ready count renders root after :=
  ⟨_, rfl, ready.note _⟩

/-- The final count is told with the number of renders. -/
theorem tellFinal_eq (ready : Ready count renders root world) :
    tellFinal 0 world = .ok () (world.note (.told .info ("final count " ++
      Value.inspectOption (some (.integer count)) ++ " after " ++ toString renders ++ " render(s)"))) := by
  obtain ⟨record, counting, rendered, -, -⟩ := ready
  have peeks : peekValue record.state countKey world = .ok (some (.integer count)) world := by
    unfold peekValue valuesOf
    rw [bind_apply, get_bind, counting.store]
    rfl
  unfold tellFinal
  rw [get_bind, counting.host, ← rendered]
  exact bind_of_ok peeks

theorem findInside_eq (ready : Ready count renders root world) (selector : String) :
    findInside 0 selector world = .ok (world.forest.query? 2 selector) world := by
  obtain ⟨record, counting, -, -, container⟩ := ready
  unfold findInside
  rw [get_bind, counting.host, ← container]
  rfl

theorem clickInside_eq {run : Runner} {selector : String} {button : NodeId} {after : World}
    (ready : Ready count renders root world) (found : world.forest.query? 2 selector = some button)
    (clicks : click run button world = .ok () after) : clickInside run 0 selector world = .ok () after := by
  unfold clickInside
  rw [bind_of_ok (ready.findInside_eq selector), found]
  exact clicks

theorem click_increment (depth : Nat) (ready : Ready count renders root world) (old : Fits count)
    (new : Fits (count + 1)) :
    ∃ after, clickInside (runTo (depth + 4)) 0 "#inc" world = .ok () after ∧
      Ready (count + 1) (renders + 1) world.forest.size after := by
  have ⟨record, counting, rendered, state, container⟩ := ready
  obtain ⟨after, clicks, recounts⟩ := counting.click_increment depth old new
  have found := counting.stands.query?_increment
  rw [container] at found
  exact ⟨after, ready.clickInside_eq found clicks, rendered ▸ recounts.ready state container⟩

theorem click_decrement (depth : Nat) (ready : Ready count renders root world) (old : Fits count)
    (new : Fits (count + -1)) :
    ∃ after, clickInside (runTo (depth + 4)) 0 "#dec" world = .ok () after ∧
      Ready (count + -1) (renders + 1) world.forest.size after := by
  have ⟨record, counting, rendered, state, container⟩ := ready
  obtain ⟨after, clicks, recounts⟩ := counting.click_decrement depth old new
  have found := counting.stands.query?_decrement
  rw [container] at found
  exact ⟨after, ready.clickInside_eq found clicks, rendered ▸ recounts.ready state container⟩

/-- The input is found, and sets the count. -/
theorem inputValue_eq (depth : Nat) (ready : Ready count renders root world) :
    ∃ input after, findInside 0 "input" world = .ok (some input) world ∧
      inputValue (runTo (depth + 4)) input "42" world = .ok () after ∧
      Ready 42 (renders + 1) world.forest.size after := by
  have ⟨record, counting, rendered, state, container⟩ := ready
  obtain ⟨after, enters, recounts⟩ := counting.inputValue_eq depth
  refine ⟨_, after, ?_, enters, rendered ▸ recounts.ready state container⟩
  rw [ready.findInside_eq "input", ← container, counting.stands.query?_input]

theorem destroyHost_eq (depth : Nat) (ready : Ready count renders root world) :
    ∃ after, destroyHost (runTo (depth + 1)) 0 world = .ok () after ∧ after.forest.children 2 = [] ∧
      At 0 0 2 count renders after := by
  obtain ⟨record, counting, rendered, state, container⟩ := ready
  obtain ⟨after, last, destroys, empty, stored, found, same, sameState, sameContainer⟩ := counting.destroyHost_eq depth
  refine ⟨after, destroys, container ▸ empty, ⟨last, found, sameState.trans state, sameContainer.trans container,
    same.trans rendered⟩, ?_⟩
  rw [state] at stored
  unfold World.peek?
  rw [stored]
  rfl

end Ready

/-- The counter is mounted, and was rendered once. -/
theorem exists_mounted (depth : Nat) : ∃ parsed created registered mounted root,
    parseTemplate documentTemplate World.empty = .ok (.ok 0) parsed ∧
      createHost (runTo (depth + 2)) counter 0 parsed = .ok (.ok 0) created ∧
      discard (registerHook counterName .update [.tell .debug "counter re-rendered"])
        { created with names := { created.names with hosts := created.names.hosts.put counterName 0 } } =
        .ok () registered ∧
      mountHost (runTo (depth + 2)) 0 registered = .ok (.ok ()) mounted ∧ Ready 10 1 root mounted := by
  obtain ⟨notices, parses⟩ := parseTemplate_of_parse parse_documentTemplate World.empty
  obtain ⟨happenings, told, creates⟩ := createHost_eq (depth + 1) notices
  obtain ⟨children, known, silent, quiet⟩ := documentForest_bare
  have near : ∀ child ∈ documentForest.children 2, child < documentForest.size := by
    rw [children]
    nofun
  have driven : Driven 0 0 _ 10 (registered happenings told) := driven_registered
  obtain ⟨mounted, record, mounts, counting, renders, state, container⟩ :=
    driven.mountHost_eq depth rfl (List.mem_append_right _ List.mem_cons_self) known near silent quiet
  exact ⟨_, _, _, mounted, _, parses, creates, rfl, mounts, record, counting, renders, state, container⟩

/-- This is the world after some ticks. Each of them clicks the increment and is told of. -/
def ticked (run : Runner) (start : World) : Nat → World
  | 0 => start
  | tick + 1 => worldAfter (do
      clickInside run 0 "#inc"
      tellMarkup 0 ("tick " ++ toString (tick + 1))) (ticked run start tick)

/-- This is the world after the click of a tick. Ticks are numbered from one. -/
def clickedAt (run : Runner) (start : World) (tick : Nat) : World :=
  worldAfter (clickInside run 0 "#inc") (ticked run start (tick - 1))

/-- A tick finds the counter at its count. It clicks once, which is shown by one render, and is told of. -/
structure Tick (run : Runner) (start : World) (tick : Nat) : Prop where
  ready : ∃ root, Ready (10 + tick) (1 + tick) root (ticked run start tick)
  clicks : clickInside run 0 "#inc" (ticked run start tick) = .ok () (clickedAt run start (tick + 1))
  tells : tellMarkup 0 ("tick " ++ toString (tick + 1)) (clickedAt run start (tick + 1)) =
    .ok () (ticked run start (tick + 1))
  clicked : Ready (10 + tick + 1) (1 + tick + 1) (ticked run start tick).forest.size (clickedAt run start (tick + 1))
  shown : Ready (10 + tick + 1) (1 + tick + 1) (ticked run start tick).forest.size (ticked run start (tick + 1))

theorem Ready.tick (depth : Nat) {start : World} {tick : Nat} {root : NodeId}
    (ready : Ready (10 + tick) (1 + tick) root (ticked (runTo (depth + 4)) start tick))
    (old : Fits (10 + tick)) (new : Fits (10 + tick + 1)) : Tick (runTo (depth + 4)) start tick := by
  obtain ⟨clicked, clicks, next⟩ := ready.click_increment depth old new
  obtain ⟨told, tells, still⟩ := next.tellMarkup_eq ("tick " ++ toString (tick + 1))
  have same : clickedAt (runTo (depth + 4)) start (tick + 1) = clicked := worldAfter_of_ok clicks
  have shown : ticked (runTo (depth + 4)) start (tick + 1) = told := worldAfter_of_ok ((bind_of_ok clicks).trans tells)
  subst same shown
  exact ⟨⟨root, ready⟩, clicks, tells, next, still⟩

/-- The count never exceeds the one after the last tick, and never falls below nine. -/
theorem fits_of_le {ticks : Nat} (fits : Fits (10 + ticks)) {count : Int} (least : 9 ≤ count)
    (most : count ≤ 10 + ticks) : Fits count := by
  obtain ⟨-, above⟩ := fits
  exact ⟨by omega, by omega⟩

/-- Each tick finds the counter as the tick before has left it. -/
theorem ready_ticked (depth : Nat) {start : World} {root : NodeId} {ticks : Nat} (ready : Ready 10 1 root start)
    (fits : Fits (10 + ticks)) (tick : Nat) (most : tick ≤ ticks) :
    ∃ root, Ready (10 + tick) (1 + tick) root (ticked (runTo (depth + 4)) start tick) := by
  induction tick with
  | zero => exact ⟨root, ready⟩
  | succ tick inductionHypothesis =>
      obtain ⟨root, before⟩ := inductionHypothesis (Nat.le_of_succ_le most)
      have last := before.tick depth (fits_of_le fits (by omega) (by omega)) (fits_of_le fits (by omega) (by omega))
      have next : (10 + tick + 1 : Int) = 10 + (tick + 1 : Nat) := by omega
      exact ⟨_, next ▸ last.shown⟩

theorem tick_of_lt (depth : Nat) {start : World} {root : NodeId} {ticks : Nat} (ready : Ready 10 1 root start)
    (fits : Fits (10 + ticks)) {tick : Nat} (more : tick < ticks) : Tick (runTo (depth + 4)) start tick := by
  obtain ⟨root, before⟩ := ready_ticked depth ready fits tick (Nat.le_of_lt more)
  exact before.tick depth (fits_of_le fits (by omega) (by omega)) (fits_of_le fits (by omega) (by omega))

/-- In a course that counts exactly, each write of the count is shown by one render and no sum overflows. -/
structure Course.Exact {run : Runner} {ticks : Nat} (course : Course run ticks) (state : TargetId)
    (container : NodeId) : Prop where
  clicked : ∀ click, 1 ≤ click → click ≤ ticks →
    At course.host state container (10 + click) (1 + click) (course.clicked click)
  rewired : ∀ click, 1 ≤ click → click ≤ ticks →
    Rewired state container (course.shown (click - 1)) (course.clicked click)
  increments : ∀ click, 1 ≤ click → click ≤ ticks →
    StepsBy 1 state (course.shown (click - 1)) (course.clicked click)
  decremented : At course.host state container (9 + ticks) (ticks + 2) course.decremented
  decrements : StepsBy (-1) state (course.shown ticks) course.decremented
  entered : At course.host state container 42 (ticks + 3) course.entered
  concluded : course.concluded = course.settled.note (.told .info ("final count " ++
    Value.inspectOption (some (.integer 42)) ++ " after " ++ toString (ticks + 3) ++ " render(s)"))
  destroyed : At course.host state container 42 (ticks + 3) course.destroyed
  emptied : course.destroyed.forest.children container = []

/-- Four levels of nested code are enough for the demonstration. -/
theorem exists_course {depth ticks : Nat} (enough : 4 ≤ depth) (fits : Fits (10 + ticks)) :
    ∃ course : Course (runTo depth) ticks, course.Exact 0 2 := by
  obtain ⟨depth, rfl⟩ := Nat.exists_eq_add_of_le' enough
  obtain ⟨parsed, created, registered, mounted, root, parses, creates, registers, mounts, first⟩ :=
    exists_mounted (depth + 2)
  obtain ⟨start, shows, ready⟩ := first.tellMarkup_eq "mounted"
  have tick : ∀ tick < ticks, Tick (runTo (depth + 4)) start tick := fun _ more => tick_of_lt depth ready fits more
  obtain ⟨last, counted⟩ := ready_ticked depth ready fits ticks (Nat.le_refl ticks)
  have below : Fits (10 + ticks + -1) := fits_of_le fits (by omega) (by omega)
  obtain ⟨decremented, decrements, lower⟩ := counted.click_decrement depth fits below
  obtain ⟨waiting, waits, still⟩ := lower.tellMarkup_eq "after decrement"
  obtain ⟨input, entered, finds, enters, given⟩ := still.inputValue_eq depth
  obtain ⟨settled, settles, final⟩ := given.tellMarkup_eq "after input"
  obtain ⟨destroyed, destroys, emptied, ends⟩ := (final.note _).destroyHost_eq (depth + 3)
  let course : Course (runTo (depth + 4)) ticks :=
    { document := 0, host := 0, input, parsed, created, registered, mounted, decremented, waiting, entered, settled
      shown := ticked (runTo (depth + 4)) start, clicked := clickedAt (runTo (depth + 4)) start
      concluded := _, destroyed, parses, creates, registers, mounts, shows
      clicks := fun number more => (tick number more).clicks, tells := fun number more => (tick number more).tells
      decrements, waits, finds, enters, settles, concludes := final.tellFinal_eq, destroys }
  have renders : 1 + ticks + 1 = ticks + 2 := by omega
  have all : 1 + ticks + 1 + 1 = ticks + 3 := by omega
  have numbered : ∀ click, 1 ≤ click → click ≤ ticks → ∃ number < ticks, click = number + 1 := fun click least most =>
    ⟨click - 1, by omega, by omega⟩
  refine ⟨course, ?_⟩
  constructor
  case clicked =>
    intro click least most
    obtain ⟨number, more, rfl⟩ := numbered click least most
    have next : (10 + number + 1 : Int) = 10 + (number + 1 : Nat) := by omega
    exact next ▸ (tick number more).clicked.at_count
  case rewired =>
    intro click least most
    obtain ⟨number, more, rfl⟩ := numbered click least most
    exact (tick number more).clicked.rewired
  case increments =>
    intro click least most
    obtain ⟨number, more, rfl⟩ := numbered click least most
    obtain ⟨root, before⟩ := (tick number more).ready
    exact before.stepsBy (tick number more).clicked (fits_of_le fits (by omega) (by omega))
      (fits_of_le fits (by omega) (by omega))
  case decremented =>
    have lowered : (10 + ticks + -1 : Int) = 9 + ticks := by omega
    exact renders ▸ lowered ▸ lower.at_count
  case decrements => exact counted.stepsBy lower fits below
  case entered => exact all ▸ given.at_count
  case concluded => exact all ▸ rfl
  case destroyed => exact all ▸ ends
  case emptied => exact emptied

/-- For every number of ticks that has 32 bits the demonstration counts exactly and ends with success. -/
theorem counts_exactly (ticks : UInt32) :
    ∃ (course : Course (runTo spareDepth) ticks.toNat) (state : TargetId) (container : NodeId),
      course.Exact state container ∧
      (∃ final, runCounter (runTo spareDepth) ticks.toNat World.empty = .ok (.ok ()) final) ∧
      ∀ arguments, (read arguments).options.ticks = ticks.toNat → (Demo.run arguments).exitCode = 0 := by
  have small : ticks.toNat < 4294967296 := ticks.toNat_lt
  have fits : Fits (10 + ticks.toNat) := by
    constructor <;> simp only [show (powerOfTwo 63 : Int) = 9223372036854775808 from rfl] <;> omega
  have enough : 4 ≤ spareDepth := by decide
  obtain ⟨course, exact⟩ := exists_course enough fits
  obtain ⟨final, succeeds⟩ := course.runCounter_eq
  exact ⟨course, 0, 2, exact, ⟨final, succeeds⟩, fun arguments given => exitCode_of_success given succeeds⟩

end LiveMarkup.Demo
