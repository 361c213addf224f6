import LiveMarkup.Proofs.Brackets
import LiveMarkup.Proofs.Steadfast
import LiveMarkup.Proofs.Survey

/-
This file shows that the listeners of directives read in frames of their own, so that they subscribe no effect
that was running before.
-/

namespace LiveMarkup

/-- Binding installs such handlers. -/
def Handler.isDirective : Handler → Bool
  | .script _ => false
  | .storeInput _ _ _ => true
  | .evaluate _ _ => true

/-- All listeners that a binding finds belong to directives. -/
theorem isDirective_of_mem_findings {state : TargetId} {id node : NodeId} {element : Element Handler}
    {entry : String × String} {kind : String} {handler : Handler}
    (found : .listener node kind handler ∈ element.findings state id entry) : handler.isDirective = true := by
  unfold Element.findings at found
  split at found
  · cases List.mem_singleton.mp found
  · split at found
    · rcases List.mem_cons.mp found with impossible | listens
      · cases impossible
      · cases List.mem_singleton.mp listens
        rfl
    · cases found
  · split at found
    · cases found
    · cases List.mem_singleton.mp found
      rfl
  · cases found

namespace World

/-- From one world to the other all frames are taken off that are put on, and no others. -/
def Brackets (before after : World) : Prop :=
  ∃ moves, Graph.Path before.graph moves after.graph ∧ Graph.Bracketed moves ∧ Graph.framesOf moves = []

/-- And reads happen only in frames that are put on in between. -/
def Shelters (before after : World) : Prop :=
  ∃ moves, Graph.Path before.graph moves after.graph ∧ Graph.Bracketed moves ∧ Graph.framesOf moves = [] ∧
    Graph.Sheltered moves

theorem Shelters.brackets {before after : World} (shelters : before.Shelters after) : before.Brackets after := by
  obtain ⟨moves, path, bracketed, frames, -⟩ := shelters
  exact ⟨moves, path, bracketed, frames⟩

theorem shelters_of_graph {before after : World} (same : after.graph = before.graph) : before.Shelters after :=
  ⟨[], same ▸ .here, trivial, rfl, trivial⟩

theorem enduring_shelters : Enduring Shelters where
  trans := by
    rintro first second third ⟨early, path, bracketed, frames, sheltered⟩
      ⟨late, pathLast, bracketedLast, framesLast, shelteredLast⟩
    refine ⟨late ++ early, path.append pathLast, bracketedLast.append bracketed, ?_,
      .append bracketedLast sheltered (.inl shelteredLast)⟩
    rw [Graph.framesOf_append bracketedLast, frames, framesLast, List.append_nil]
  still graph _ := shelters_of_graph graph
  disposes world id := ⟨_, .single world.graph (.disposed id) trivial, trivial, rfl, trivial⟩
  releases world target := ⟨_, .single world.graph (.released target) trivial, trivial, rfl, trivial⟩
  changes _ _ _ _ := shelters_of_graph rfl

/-- What happens in a frame is sheltered by it. -/
theorem Brackets.leave {world after : World} {frame : Option EffectId}
    (allowed : world.graph.Allows (.entered frame)) (inside : (world.entered frame).Brackets after) :
    world.Shelters { after with graph := after.graph.pop } := by
  obtain ⟨moves, path, bracketed, frames⟩ := inside
  have entered : Graph.framesOf (moves ++ [.entered frame]) = [frame] := by
    rw [Graph.framesOf_append bracketed, frames]
    rfl
  refine ⟨.left :: (moves ++ [.entered frame]),
    .step .left ((Graph.Path.single world.graph (.entered frame) allowed).append path) trivial, ?_, ?_, ?_⟩
  · exact ⟨entered ▸ List.cons_ne_nil _ _, bracketed.append trivial⟩
  · show (Graph.framesOf _).tail = []
    rw [entered]
    rfl
  · have opened : Graph.Sheltered [(.entered frame : Graph.Move Task)] := trivial
    exact Graph.Sheltered.append bracketed opened (.inr (List.cons_ne_nil _ _))

theorem steadfast_brackets : Steadfast Brackets where
  trans := by
    rintro first second third ⟨early, path, bracketed, frames⟩ ⟨late, pathLast, bracketedLast, framesLast⟩
    refine ⟨late ++ early, path.append pathLast, bracketedLast.append bracketed, ?_⟩
    rw [Graph.framesOf_append bracketedLast, frames, framesLast, List.append_nil]
  still graph hosts := (enduring_shelters.still graph hosts).brackets
  disposes world id := (enduring_shelters.disposes world id).brackets
  releases world target := (enduring_shelters.releases world target).brackets
  changes world id change keeps := (enduring_shelters.changes world id change keeps).brackets
  tracks world dependency := ⟨_, .single world.graph (.tracked dependency) trivial, trivial, rfl⟩
  creates world label task captures :=
    ⟨_, .single world.graph (.created label task captures) trivial, trivial, rfl⟩
  frames allowed inside := (inside.leave allowed).brackets
  enters _ _ _ _ := (shelters_of_graph rfl).brackets

end World

namespace Live

variable {run : Runner} {world : World}

/-- Whatever an untracked block does is sheltered. -/
theorem shelters_untracked {A : Type} {action : Live A}
    (follows : Follows World.steadfast_brackets.conduct action { world with graph := world.graph.push none }) :
    Follows World.enduring_shelters.conduct (untracked action) world := by
  have allowed : world.graph.Allows (.entered none) := trivial
  have left : ∀ after, (world.entered none).Brackets after →
      world.Shelters { after with graph := after.graph.pop }.collect := fun _ inside =>
    World.enduring_shelters.trans (inside.leave allowed) (World.enduring_shelters.collect _)
  have inside : World.steadfast_brackets.conduct.Ends (world.entered none) (action (world.entered none)) := follows
  exact ends_ending inside left left

theorem shelters_whileAlive (state : TargetId) {action : Live Unit}
    (follows : ∀ after, Follows World.enduring_shelters.conduct action after) :
    Follows World.enduring_shelters.conduct (whileAlive state action) world := by
  unfold whileAlive
  refine Follows.asks ?_
  split
  · exact World.enduring_shelters.operation
      ((World.enduring_shelters.hold _).bind fun _ after _ => follows after)
  · exact Follows.pure _

/-- The listener of a directive is sheltered if the code that it reaches takes its frames off. -/
theorem shelters_performHandler (lawful : Lawful World.steadfast_brackets.conduct run) {handler : Handler}
    (directive : handler.isDirective = true) (event : Event) :
    Follows World.enduring_shelters.conduct (performHandler run event handler) world := by
  cases handler with
  | script body => cases directive
  | storeInput state key numeric =>
      have stores : Follows World.enduring_shelters.conduct
          (storeInput run state key numeric event.current) world :=
        shelters_whileAlive state fun after => Follows.asks (shelters_untracked (lawful.writes state key _ _))
      exact stores.bind fun _ _ _ => Follows.pure _
  | evaluate state source =>
      have evaluates : Follows World.enduring_shelters.conduct (evaluateListener run state source) world :=
        shelters_whileAlive state fun after => shelters_untracked (lawful.evaluate trivial source).discard
      exact evaluates.bind fun _ _ _ => Follows.pure _

/-- However a listener of a directive ends, it has been sheltered. -/
theorem shelters_handler (depth : Nat) {handler : Handler} (directive : handler.isDirective = true)
    (event : Event) (world : World) :
    world.Shelters (worldAfter (runTo depth (.handler handler event)) world) := by
  cases depth with
  | zero => exact World.shelters_of_graph rfl
  | succ depth =>
      exact Follows.always_iff.mp
        (shelters_performHandler (World.steadfast_brackets.lawful depth) directive event)

/-! Events. -/

variable {kind : String} {target : NodeId}

/-- An event calls listeners of nodes one after the other, however they end, and nothing else happens. -/
inductive Hears (run : Runner) (kind : String) (target : NodeId) : World → List (NodeId × Handler) → World → Prop where
  | silence (world : World) : Hears run kind target world [] world
  | call {node : NodeId} {handler : Handler} {rest : List (NodeId × Handler)} {world final : World}
      (others : Hears run kind target
        (worldAfter (run (.handler handler { kind, target, current := node })) world) rest final) :
      Hears run kind target world ((node, handler) :: rest) final

namespace Hears

variable {first second third : World} {early late : List (NodeId × Handler)}

theorem append (before : Hears run kind target first early second) (after : Hears run kind target second late third) :
    Hears run kind target first (early ++ late) third := by
  induction before with
  | silence world => exact after
  | call _ inductionHypothesis => exact .call (inductionHypothesis after)

/-- Each listener is called after some of the others. -/
theorem split {node : NodeId} {handler : Handler}
    (hears : Hears run kind target first (early ++ (node, handler) :: late) third) :
    ∃ before, Hears run kind target first early before ∧ Hears run kind target
      (worldAfter (run (.handler handler { kind, target, current := node })) before) late third := by
  induction early generalizing first with
  | nil =>
      cases hears with
      | call others => exact ⟨first, .silence first, others⟩
  | cons other rest inductionHypothesis =>
      cases hears with
      | call others =>
          obtain ⟨before, chain, remaining⟩ := inductionHypothesis others
          exact ⟨before, .call chain, remaining⟩

/-- Where all listeners belong to directives, they are sheltered one after the other. -/
theorem shelters {depth : Nat} (hears : Hears (runTo depth) kind target first early second)
    (directive : ∀ call ∈ early, call.2.isDirective = true) : first.Shelters second := by
  induction hears with
  | silence world => exact World.enduring_shelters.refl world
  | @call node handler rest world final _ inductionHypothesis =>
      have here := shelters_handler depth (directive (node, handler) List.mem_cons_self)
        { kind, target, current := node } world
      exact World.enduring_shelters.trans here
        (inductionHypothesis fun other member => directive other (List.mem_cons_of_mem _ member))

end Hears

/-- These listeners were found at their nodes, at the latest when the ones before them had been called. -/
def Found (run : Runner) (kind : String) (target : NodeId) (world : World) (calls : List (NodeId × Handler)) : Prop :=
  ∀ node handler, (node, handler) ∈ calls → ∃ early reached, early <+: calls ∧
    Hears run kind target world early reached ∧ handler ∈ reached.forest.listenersFor node kind

/-- Code does nothing but call listeners, whether it returns or breaks off. -/
def OnlyCalls {A : Type} (run : Runner) (kind : String) (target : NodeId) (action : Live A) (world : World) : Prop :=
  ∃ calls, Hears run kind target world calls (worldAfter action world) ∧ Found run kind target world calls

namespace OnlyCalls

variable {A B : Type}

theorem of_same {action : Live A} (same : worldAfter action world = world) :
    OnlyCalls run kind target action world :=
  ⟨[], same.symm ▸ .silence world, fun _ _ impossible => by cases impossible⟩

theorem asks {next : World → Live B} (calls : OnlyCalls run kind target (next world) world) :
    OnlyCalls run kind target (get >>= next) world := calls

theorem bind {action : Live A} {next : A → Live B} (first : OnlyCalls run kind target action world)
    (second : ∀ value after, action world = .ok value after → OnlyCalls run kind target (next value) after) :
    OnlyCalls run kind target (action >>= next) world := by
  obtain ⟨early, before, foundEarly⟩ := first
  refine worldAfter_bind (motive := fun final => ∃ calls, Hears run kind target world calls final ∧
    Found run kind target world calls) (fun stop after outcome => ?_) fun value after outcome => ?_
  · exact ⟨early, worldAfter_of_error outcome ▸ before, foundEarly⟩
  · obtain ⟨late, rest, foundLate⟩ := second value after outcome
    rw [worldAfter_of_ok outcome] at before
    refine ⟨early ++ late, before.append rest, fun node handler member => ?_⟩
    rcases List.mem_append.mp member with here | later
    · obtain ⟨some, reached, start, hears, listens⟩ := foundEarly node handler here
      exact ⟨some, reached, start.trans (List.prefix_append _ _), hears, listens⟩
    · obtain ⟨some, reached, start, hears, listens⟩ := foundLate node handler later
      exact ⟨early ++ some, reached, (List.prefix_append_right_inj early).mpr start, before.append hears, listens⟩

/-- An event that finds no listeners but those of directives is sheltered. -/
theorem shelters {depth : Nat} {action : Live A} (calls : OnlyCalls (runTo depth) kind target action world)
    (directive : ∀ early reached, Hears (runTo depth) kind target world early reached →
      ∀ node, ∀ handler ∈ reached.forest.listenersFor node kind, handler.isDirective = true) :
    world.Shelters (worldAfter action world) := by
  obtain ⟨all, hears, found⟩ := calls
  refine hears.shelters fun call member => ?_
  obtain ⟨early, reached, -, chain, listens⟩ := found call.1 call.2 member
  exact directive early reached chain call.1 call.2 listens

end OnlyCalls

theorem worldAfter_of_eq {A : Type} {action other : Live A} {start : World} (same : action world = other start) :
    worldAfter action world = worldAfter other start := by
  unfold worldAfter
  rw [same]

/-- The listeners of a node are called in order, until one of them breaks off. -/
theorem hears_callHandlers (run : Runner) (kind : String) (target node : NodeId) (handlers : List Handler)
    (world : World) : ∃ called, called <+: handlers ∧ Hears run kind target world (called.map (node, ·))
      (worldAfter (callHandlers run { kind, target, current := node } handlers) world) := by
  induction handlers generalizing world with
  | nil => exact ⟨[], List.prefix_refl _, .silence world⟩
  | cons handler rest inductionHypothesis =>
      unfold callHandlers
      refine worldAfter_bind (motive := fun final => ∃ called, called <+: handler :: rest ∧
        Hears run kind target world (called.map (node, ·)) final)
        (fun stop after outcome => ?_) fun _ after outcome => ?_
      · have left := worldAfter_of_error outcome
        rw [worldAfter_discard] at left
        exact ⟨[handler], (List.prefix_cons_inj handler).mpr List.nil_prefix, .call (left ▸ .silence _)⟩
      · have left := worldAfter_of_ok outcome
        rw [worldAfter_discard] at left
        obtain ⟨called, start, hears⟩ := inductionHypothesis after
        exact ⟨handler :: called, (List.prefix_cons_inj handler).mpr start, .call (left ▸ hears)⟩

theorem onlyCalls_callHandlers (run : Runner) (kind : String) (target node : NodeId) (world : World) :
    OnlyCalls run kind target
      (callHandlers run { kind, target, current := node } (world.forest.listenersFor node kind)) world := by
  obtain ⟨called, start, hears⟩ :=
    hears_callHandlers run kind target node (world.forest.listenersFor node kind) world
  refine ⟨_, hears, fun other handler member => ?_⟩
  obtain ⟨_, listed, same⟩ := List.mem_map.mp member
  cases same
  exact ⟨[], world, List.nil_prefix, .silence world, start.subset listed⟩

theorem onlyCalls_bubble (run : Runner) (kind : String) (target : NodeId) (limit : Nat) (place : Option NodeId)
    (called : Nat) (world : World) : OnlyCalls run kind target (bubble run kind target limit place called) world := by
  induction limit generalizing place called world with
  | zero => cases place <;> exact .of_same rfl
  | succ limit inductionHypothesis =>
      cases place with
      | none => exact .of_same rfl
      | some node =>
          have here := onlyCalls_callHandlers run kind target node world
          unfold bubble
          exact .asks (here.bind fun _ after _ => .asks (inductionHypothesis _ _ after))

theorem onlyCalls_dispatch (run : Runner) (kind : String) (target : NodeId) (world : World) :
    OnlyCalls run kind target (dispatch run kind target) world := by
  unfold dispatch
  exact .asks (onlyCalls_bubble run kind target _ _ _ world)

/-- An input sets a value, and then it is an event. -/
theorem worldAfter_inputValue (run : Runner) (target : NodeId) (value : String) (world : World) :
    worldAfter (inputValue run target value) world =
      worldAfter (dispatch run "input" target) { world with forest := world.forest.setValue target value } := by
  have sets : modifyForest (·.setValue target value) world =
      .ok () { world with forest := world.forest.setValue target value } := rfl
  have same : inputValue run target value world = discard (dispatch run "input" target)
      { world with forest := world.forest.setValue target value } := by
    unfold inputValue
    exact bind_of_ok sets
  rw [worldAfter_of_eq same, worldAfter_discard]

end Live

open Live in
/-- The listeners of directives may do whatever code can do, and may end in any way. An event calls listeners
that it finds at nodes, one after the other, and those of directives are sheltered, so an event that finds no
others is sheltered as well. Then the stack is the same before and after it, no effect on the stack subscribes
to anything, and what is read belongs to a frame that was put on in between, be it a frame of no effect or one
of an effect that was not running. No effect subscribes but those that were put on the stack in between. -/
theorem directive_listeners_shelter (depth : Nat) :
    (∀ state id element entry node kind handler,
      .listener node kind handler ∈ Element.findings state id element entry → handler.isDirective = true) ∧
    (∀ (handler : Handler) event (world : World), handler.isDirective = true →
      world.Shelters (worldAfter (runTo depth (.handler handler event)) world)) ∧
    (∀ kind target world, ∃ calls,
      Hears (runTo depth) kind target world calls (worldAfter (dispatch (runTo depth) kind target) world) ∧
      Found (runTo depth) kind target world calls ∧
      ∀ early node handler late, calls = early ++ (node, handler) :: late → handler.isDirective = true →
        ∃ reached left, Hears (runTo depth) kind target world early reached ∧ reached.Shelters left ∧
          Hears (runTo depth) kind target left late (worldAfter (dispatch (runTo depth) kind target) world)) ∧
    (∀ kind target world,
      (∀ early reached, Hears (runTo depth) kind target world early reached →
        ∀ node, ∀ handler ∈ reached.forest.listenersFor node kind, handler.isDirective = true) →
      world.Shelters (worldAfter (dispatch (runTo depth) kind target) world)) ∧
    (∀ target world,
      worldAfter (click (runTo depth) target) world = worldAfter (dispatch (runTo depth) "click" target) world) ∧
    (∀ target value world, worldAfter (inputValue (runTo depth) target value) world =
      worldAfter (dispatch (runTo depth) "input" target)
        { world with forest := world.forest.setValue target value }) ∧
    ∀ before after : World, before.Shelters after → after.graph.stack = before.graph.stack ∧
      (∀ id, some id ∈ before.graph.stack → Graph.SubscribesNothing id before.graph after.graph) ∧
      ∃ moves, Graph.Path before.graph moves after.graph ∧
        (∀ id, .entered (some id) ∉ moves → Graph.SubscribesNothing id before.graph after.graph) ∧
        ∀ late dependency early, moves = late ++ .tracked dependency :: early → ∃ frame,
          (Graph.framesOf early).head? = some frame ∧ .entered frame ∈ early ∧
            ∀ id, frame = some id → some id ∉ before.graph.stack := by
  refine ⟨fun _ _ _ _ _ _ _ => isDirective_of_mem_findings, fun _ event world directive =>
    shelters_handler depth directive event world, ?_, fun kind target world =>
      (onlyCalls_dispatch _ kind target world).shelters, fun _ _ => worldAfter_discard _ _,
    worldAfter_inputValue _, ?_⟩
  · intro kind target world
    obtain ⟨calls, hears, found⟩ := onlyCalls_dispatch (runTo depth) kind target world
    refine ⟨calls, hears, found, ?_⟩
    rintro early node handler late rfl directive
    obtain ⟨reached, chain, others⟩ := hears.split
    exact ⟨reached, _, chain, shelters_handler depth directive _ reached, others⟩
  · rintro before after ⟨moves, path, bracketed, frames, sheltered⟩
    have stack := path.stack_of_bracketed bracketed
    rw [frames, List.nil_append] at stack
    have outside : ∀ id, .entered (some id) ∉ moves → Graph.SubscribesNothing id before.graph after.graph :=
      fun _ absent => path.subscribesNothing bracketed sheltered absent
    refine ⟨stack, fun id running => outside id (path.not_entered bracketed running), moves, path, outside, ?_⟩
    rintro late dependency early rfl
    obtain ⟨frame, innermost, entered⟩ := sheltered.frame
    refine ⟨frame, innermost, entered, ?_⟩
    rintro id rfl running
    exact path.not_entered bracketed running (List.mem_append_right _ (List.mem_cons_of_mem _ entered))

/-- An effect runs, and there is a state that it can read. -/
def readingWorld : World where
  graph := Graph.replay [.entered (some 0), .created "outer" (.script "outer" []) []]
  targets := #[some { values := [("n", .null)] }]

open Live in
/-- The effect subscribes to what it reads, but not to what a listener reads. -/
theorem outer_effect_unsubscribed :
    some 0 ∈ readingWorld.graph.stack ∧
    (∃ effect, (worldAfter (readValue 0 "n") readingWorld).graph.effect? 0 = some effect ∧
      effect.dependencies = [⟨0, .named "n"⟩]) ∧
    ∀ event, Graph.SubscribesNothing 0 readingWorld.graph
      (worldAfter (runTo 2 (.handler (.evaluate 0 "n") event)) readingWorld).graph := by
  have running : some 0 ∈ readingWorld.graph.stack := by decide
  obtain ⟨-, listens, -, -, -, -, surrounds⟩ := directive_listeners_shelter 2
  refine ⟨running, ⟨_, rfl, rfl⟩, fun event => ?_⟩
  exact (surrounds _ _ (listens (.evaluate 0 "n") event readingWorld rfl)).2.1 0 running

end LiveMarkup
