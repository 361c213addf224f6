import LiveMarkup.Proofs.Survey
import LiveMarkup.Proofs.Wiring
import LiveMarkup.Proofs.Orderly

/-
This file follows a binding as far as the first run of an effect that it registers. All that it needs of an
expression is that each evaluation comes to an end and leaves the nodes alone.
-/

namespace LiveMarkup

namespace Forest

variable {forest : Forest Handler} {id other : NodeId} {parent : Option NodeId} {children : List NodeId}

theorem node?_setContent (forest : Forest Handler) (id other : NodeId) (content : Content Handler) :
    (forest.setContent id content).node? other =
      if id = other then (forest.node? other).map fun node => { node with content }
      else forest.node? other := node?_modify forest id other _

theorem element?_of_node? {node : Node Handler} (found : forest.node? id = some node) :
    forest.element? id = node.content.element? := by
  unfold element? content?
  rw [found]
  rfl

/-- A change of an element leaves its links alone. -/
theorem node?_modifyElement {element : Element Handler}
    (found : forest.node? id = some { content := .element element, parent, children })
    (change : Element Handler → Element Handler) :
    (forest.modifyElement id change).node? id =
        some { content := .element (change element), parent, children } ∧
      ∀ other, other ≠ id → (forest.modifyElement id change).node? other = forest.node? other := by
  have here : forest.element? id = some element := element?_of_node? found
  unfold modifyElement
  rw [here]
  dsimp only
  refine ⟨?_, fun other different => ?_⟩
  · rw [node?_setContent, if_pos rfl, found]
    rfl
  · rw [node?_setContent, if_neg (Ne.symm different)]

theorem node?_orphaned (children : List NodeId) (forest : Forest Handler) (other : NodeId)
    (apart : other ∉ children) :
    (children.foldl (fun current child => current.setParent child none) forest).node? other =
      forest.node? other := by
  induction children generalizing forest with
  | nil => rfl
  | cons child rest inductionHypothesis =>
      obtain ⟨different, others⟩ := not_or.mp (mt List.mem_cons.mpr apart)
      rw [List.foldl_cons, inductionHypothesis _ others, setParent, node?_modify,
        if_neg (Ne.symm different)]

/-- A text that is replaced stays where it is. -/
theorem node?_setTextContent_text {old : String}
    (found : forest.node? id = some { content := .text old, parent, children }) (text : String) :
    (forest.setTextContent id text).node? id = some { content := .text text, parent, children } ∧
      ∀ other, other ≠ id → (forest.setTextContent id text).node? other = forest.node? other := by
  have here : forest.content? id = some (.text old) := by
    unfold content?
    rw [found]
    rfl
  unfold setTextContent
  rw [here]
  dsimp only
  refine ⟨?_, fun other different => ?_⟩
  · rw [node?_setContent, if_pos rfl, found]
    rfl
  · rw [node?_setContent, if_neg (Ne.symm different)]

/-- A new node is linked to by its parent alone. -/
theorem node?_attach_created (known : id < forest.size) (content : Content Handler)
    (below : other < forest.size) :
    ((forest.create content).2.attach id (forest.create content).1).node? other =
      if id = other then
        (forest.node? other).map fun node => { node with children := forest.children id ++ [forest.size] }
      else forest.node? other := by
  have free : (forest.create content).2.detach (forest.create content).1 = (forest.create content).2 := by
    unfold detach
    rw [parent?_create]
  have newer : (forest.create content).1 ≠ other := Nat.ne_of_gt below
  have old : ∀ node : Nat, node < forest.size →
      (forest.create content).2.node? node = forest.node? node := by
    intro node small
    have inside : node < forest.nodes.size := small
    simp only [create, node?, Array.getElem?_push_lt inside, Array.getElem?_eq_getElem inside]
  have listed : (forest.create content).2.children id = forest.children id := by
    unfold Forest.children
    rw [old id known]
  unfold attach
  dsimp only
  rw [free, children_setParent, listed, setChildren, node?_modify, setParent, node?_modify,
    if_neg newer, old other below]
  rfl

/-- An element that gets a text lets its children go, and nothing else happens to nodes that were there. -/
theorem node?_setTextContent_element {element : Element Handler}
    (found : forest.node? id = some { content := .element element, parent, children })
    (apart : id ∉ children) (text : String) :
    (∃ inner, (forest.setTextContent id text).node? id =
        some { content := .element element, parent, children := inner } ∧
      ∀ child ∈ inner, forest.size ≤ child) ∧
      (∀ other : Nat, other < forest.size → other ≠ id → other ∉ children →
        (forest.setTextContent id text).node? other = forest.node? other) := by
  have here : forest.content? id = some (.element element) := by
    unfold content?
    rw [found]
    rfl
  have listed : forest.children id = children := by
    unfold Forest.children
    rw [found]
  have cleared : ∀ other, other ∉ children → (forest.clear id).node? other =
      (forest.setChildren id []).node? other := by
    intro other outside
    unfold clear
    rw [listed]
    exact node?_orphaned children _ other outside
  have emptied : (forest.clear id).node? id = some { content := .element element, parent, children := [] } := by
    rw [cleared id apart, setChildren, node?_modify, if_pos rfl, found]
    rfl
  have others : ∀ other, other ≠ id → other ∉ children →
      (forest.clear id).node? other = forest.node? other := by
    intro other different outside
    rw [cleared other outside, setChildren, node?_modify, if_neg (Ne.symm different)]
  unfold setTextContent
  rw [here]
  dsimp only
  split
  · exact ⟨⟨[], emptied, fun _ impossible => by cases impossible⟩,
      fun other _ different outside => others other different outside⟩
  · rw [append_text]
    have known : id < (forest.clear id).size := by
      rw [size_clear]
      exact (Array.getElem?_eq_some_iff.mp found).1
    have empty : (forest.clear id).children id = [] := by
      unfold Forest.children
      rw [emptied]
    refine ⟨⟨[(forest.clear id).size], ?_, ?_⟩, fun other below different outside => ?_⟩
    · rw [node?_attach_created known _ known, if_pos rfl, emptied, empty]
      rfl
    · intro child member
      exact Nat.le_of_eq ((size_clear ..).symm.trans (List.mem_singleton.mp member).symm)
    · rw [node?_attach_created known _ (by rwa [size_clear]), if_neg (Ne.symm different),
        others other different outside]

/-- A text that an element gets changes no content that was there. -/
theorem content?_setTextContent_element {element : Element Handler}
    (found : forest.node? id = some { content := .element element, parent, children })
    (known : other < forest.size) (text : String) :
    (forest.setTextContent id text).content? other = forest.content? other := by
  have here : forest.content? id = some (.element element) := by
    unfold content?
    rw [found]
    rfl
  unfold setTextContent
  rw [here]
  dsimp only
  split
  · exact content?_clear forest id
  · rw [append_text, content?_attach, content?_create (by rwa [size_clear]), content?_clear]

end Forest

namespace Live

/-- Code returns, and it leads to where it should. -/
def Returns {A : Type} (post : A → World → Prop) (action : Live A) (world : World) : Prop :=
  ∃ value after, action world = .ok value after ∧ post value after

namespace Returns

variable {A B : Type} {post weaker : A → World → Prop} {world : World}

theorem pure {value : A} (holds : post value world) : Returns post (Pure.pure value) world :=
  ⟨value, world, rfl, holds⟩

theorem bind {next : A → Live B} {final : B → World → Prop} {action : Live A}
    (first : Returns post action world)
    (second : ∀ value after, post value after → Returns final (next value) after) :
    Returns final (action >>= next) world := by
  obtain ⟨value, after, outcome, holds⟩ := first
  obtain ⟨result, last, returned, reached⟩ := second value after holds
  exact ⟨result, last, (bind_of_ok outcome).trans returned, reached⟩

theorem asks {next : World → Live A} (continued : Returns post (next world) world) :
    Returns post (get >>= next) world := continued

theorem modifies {change : World → World} {post : Unit → World → Prop} (holds : post () (change world)) :
    Returns post (modify change) world := ⟨(), _, rfl, holds⟩

theorem mono {action : Live A} (returns : Returns post action world)
    (weaken : ∀ value after, post value after → weaker value after) : Returns weaker action world := by
  obtain ⟨value, after, outcome, holds⟩ := returns
  exact ⟨value, after, outcome, weaken value after holds⟩

/-- What is done at the end of code is done where the code has led. -/
theorem ending {action : Live A} {change : World → World}
    (returns : Returns (fun value after => post value (change after)) action world) :
    Returns post (Live.ending action change) world := by
  obtain ⟨value, after, outcome, holds⟩ := returns
  refine ⟨value, change after, ?_, holds⟩
  unfold Live.ending
  rw [outcome]

end Returns

end Live

open Live

namespace World

/-- An evaluation comes to an end, with a value or with a failure. -/
def Evaluates (run : Runner) (state : TargetId) (source : String) (before after : World) : Prop :=
  (∃ value, evaluateStrictly run state source before = .ok value after) ∨
    ∃ error, evaluateStrictly run state source before = .error (.failed error) after

/-- A binding that registers its findings comes to these worlds. By itself it makes effects, enters and
leaves them, and changes nodes. The rest is done by the expressions that it evaluates for a state that it
holds. -/
inductive Comes (run : Runner) (state : TargetId) (findings : List Finding) (origin : World) : World → Prop
  | start : Comes run state findings origin origin
  | turned {world : World} (forest : Forest Handler) (holds : List Hold) (notices : List Notice)
      (deeds : List Deed) (comes : Comes run state findings origin world) :
      Comes run state findings origin { world with forest, holds, notices, deeds }
  | registered {world : World} {label : String} {task : Task} (listed : .effect label task ∈ findings)
      (comes : Comes run state findings origin world) :
      Comes run state findings origin (world.withEffect label task [])
  | entered {world : World} {id : EffectId} (allowed : world.graph.Allows (.entered (some id)))
      (comes : Comes run state findings origin world) :
      Comes run state findings origin (world.entered (some id))
  | left {world : World} (comes : Comes run state findings origin world) :
      Comes run state findings origin { world with graph := world.graph.pop }
  | collected {world : World} (comes : Comes run state findings origin world) :
      Comes run state findings origin world.collect
  | evaluated {world after : World} {source : String} (listed : source ∈ findings.flatMap Finding.sources)
      (guarded : world.Guarded state (.state state)) (evaluates : world.Evaluates run state source after)
      (comes : Comes run state findings origin world) : Comes run state findings origin after

/-- Wherever a binding comes to, its expressions can be evaluated, and no node changes with that. -/
def Harmless (run : Runner) (state : TargetId) (findings : List Finding) (origin : World) : Prop :=
  ∀ world, Comes run state findings origin world → world.Guarded state (.state state) →
    ∀ source ∈ findings.flatMap Finding.sources,
      ∃ after, world.Evaluates run state source after ∧ after.forest = world.forest

variable {depth : Nat} {state : TargetId} {findings : List Finding} {origin world : World}

namespace Harmless

variable (harmless : origin.Harmless (runTo depth) state findings)
  (comes : origin.Comes (runTo depth) state findings world)
include harmless comes

/-- A binding has come on, and still shows the same nodes and holds its state. -/
theorem evaluateText (guarded : world.Guarded state (.state state)) {source : String}
    (listed : source ∈ findings.flatMap Finding.sources) :
    Returns (fun _ after => origin.Comes (runTo depth) state findings after ∧
      after.forest = world.forest ∧ after.Guarded state (.state state))
      (Live.evaluateText (runTo depth) state source) world := by
  obtain ⟨after, evaluates, forest⟩ := harmless world comes guarded source listed
  have reached := comes.evaluated listed guarded evaluates
  have tends := (lawful_tending depth).evaluateStrictly guarded source
  unfold Follows at tends
  have evaluated : Returns (fun _ after => origin.Comes (runTo depth) state findings after ∧
      after.forest = world.forest ∧ after.Guarded state (.state state))
      (evaluate (runTo depth) state source) world := by
    unfold Returns evaluate
    rw [tryCatch_apply]
    rcases evaluates with ⟨value, outcome⟩ | ⟨error, outcome⟩
    · rw [outcome] at tends ⊢
      exact ⟨value, after, rfl, reached, forest, tends.guarded state guarded⟩
    · rw [outcome] at tends ⊢
      have kept := tends.guarded state guarded
      exact ⟨_, after.note (.evaluationFailed source error), rfl, reached.turned _ _ _ _, forest,
        kept.alive, kept.held, kept.keeps⟩
  exact evaluated.bind fun _ _ holds => .pure holds

omit comes in
theorem interpolate {text : String}
    (listed : ∀ source, .expression source ∈ Interpolation.segments text.toList →
      String.ofList source ∈ findings.flatMap Finding.sources)
    (comes : origin.Comes (runTo depth) state findings world)
    (guarded : world.Guarded state (.state state)) :
    Returns (fun _ after => origin.Comes (runTo depth) state findings after ∧
      after.forest = world.forest ∧ after.Guarded state (.state state))
      (Live.interpolate (runTo depth) state text) world := by
  unfold Live.interpolate
  generalize Interpolation.segments text.toList = segments at listed
  have all : Returns (fun _ after => origin.Comes (runTo depth) state findings after ∧
      after.forest = world.forest ∧ after.Guarded state (.state state))
      (Live.interpolateSegments (runTo depth) state segments) world := by
    induction segments generalizing world with
    | nil => exact .pure ⟨comes, rfl, guarded⟩
    | cons segment rest inductionHypothesis =>
        have others := fun source member => listed source (List.mem_cons_of_mem _ member)
        cases segment with
        | literal c =>
            exact (inductionHypothesis comes guarded others).bind fun _ _ holds => .pure holds
        | expression source =>
            refine (harmless.evaluateText comes guarded (listed source List.mem_cons_self)).bind ?_
            rintro shown after ⟨reached, forest, kept⟩
            refine (inductionHypothesis reached kept others).bind ?_
            rintro ending final ⟨last, same, held⟩
            exact .pure ⟨last, same.trans forest, held⟩
  exact all.bind fun _ _ holds => .pure holds

end Harmless

/-- An effect that shows something does so if its state is still there. -/
theorem shows_whileAlive {action : Live Unit} {shows : Forest Handler → Prop}
    (comes : origin.Comes (runTo depth) state findings world) (idle : shows world.forest)
    (acts : ∀ held : World, origin.Comes (runTo depth) state findings held →
      held.Guarded state (.state state) → held.forest = world.forest →
        Returns (fun _ after => origin.Comes (runTo depth) state findings after ∧ shows after.forest)
          action held) :
    Returns (fun _ after => origin.Comes (runTo depth) state findings after ∧ shows after.forest)
      (Live.whileAlive state action) world := by
  refine Returns.asks ?_
  split
  · rename_i alive
    have holding : Returns (fun _ held => origin.Comes (runTo depth) state findings held ∧
        held.Guarded state (.state state) ∧ held.forest = world.forest) (hold (.state state)) world := by
      refine Returns.modifies ?_
      split
      · rename_i known
        exact ⟨comes, ⟨alive, List.contains_iff_mem.mp known, Or.inl rfl⟩, rfl⟩
      · exact ⟨comes.turned _ _ _ _, ⟨alive, List.mem_cons_self, Or.inl rfl⟩, rfl⟩
    refine Returns.ending (holding.bind ?_)
    rintro _ held ⟨reached, guarded, forest⟩
    refine (acts held reached guarded forest).mono ?_
    rintro _ after ⟨final, shown⟩
    refine ⟨(final.turned after.forest world.holds after.notices after.deeds).collected, ?_⟩
    rw [(sweeps_collect { after with holds := world.holds }).forest]
    exact shown
  · exact .pure ⟨comes, idle⟩

/-- An effect that is entered and left shows what its task shows. -/
theorem shows_runEffect {effect : Effect Task} {id : EffectId} (shows : Forest Handler → Prop)
    (comes : origin.Comes (runTo depth) state findings world) (known : world.graph.effect? id = some effect)
    (lasting : effect.disposed = false) (idle : world.graph.isRunning id = false)
    (runs : ∀ entered : World, origin.Comes (runTo depth) state findings entered →
      entered.forest = world.forest →
        Returns (fun _ after => origin.Comes (runTo depth) state findings after ∧ shows after.forest)
          (performTask (runTo depth) effect.task) entered) :
    Returns (fun _ after => origin.Comes (runTo depth) state findings after ∧ shows after.forest)
      (runEffect (runTo (depth + 1)) id) world := by
  obtain ⟨value, after, outcome, final, shown⟩ := runs _ (comes.entered ⟨effect, known, lasting, idle⟩) rfl
  have ran : Returns (fun _ after => origin.Comes (runTo depth) state findings after ∧ shows after.forest)
      (runBody (runTo (depth + 1)) id effect) world := by
    refine Returns.ending ⟨(), after, ?_, final.left.collected, ?_⟩
    · show discard (runTo (depth + 1) (.task effect.task)) (world.entered (some id)) = _
      have performed : runTo (depth + 1) (.task effect.task) (world.entered (some id)) = .ok value after := outcome
      rw [discard_apply, performed]
    · rw [(sweeps_collect { after with graph := after.graph.pop }).forest]
      exact shown
  unfold Returns
  rw [runEffect_apply _ known, lasting, idle]
  exact ran

/-- An effect that is registered runs at once, and it is the latest one. -/
theorem shows_registerEffect {label : String} {task : Task} (shows : Forest Handler → Prop)
    (comes : origin.Comes (runTo depth) state findings world) (reachable : world.Reachable)
    (listed : .effect label task ∈ findings)
    (runs : ∀ entered : World, origin.Comes (runTo depth) state findings entered →
      entered.forest = world.forest →
        Returns (fun _ after => origin.Comes (runTo depth) state findings after ∧ shows after.forest)
          (performTask (runTo depth) task) entered) :
    ∃ after, Live.registerEffect (runTo (depth + 1)) label task [] world =
        .ok world.graph.effects.size after ∧
      origin.Comes (runTo depth) state findings after ∧ shows after.forest ∧
      (world.withEffect label task []).Later after := by
  let id := world.graph.effects.size
  let begun : Live Unit := do
    hold (.effect id)
    Live.note (.effectRegistered (number id) label)
    runEffect (runTo (depth + 1)) id
  have rest : Returns (fun _ after => origin.Comes (runTo depth) state findings after ∧ shows after.forest)
      begun (world.withEffect label task []) := by
    have holding : Returns (fun _ held => origin.Comes (runTo depth) state findings held ∧
        held.graph = (world.withEffect label task []).graph ∧ held.forest = world.forest)
        (hold (.effect id)) (world.withEffect label task []) := by
      have made := comes.registered listed
      refine Returns.modifies ?_
      split
      · exact ⟨made, rfl, rfl⟩
      · exact ⟨made.turned _ _ _ _, rfl, rfl⟩
    refine holding.bind ?_
    rintro _ held ⟨reached, graph, forest⟩
    have noted : Returns (fun _ after => origin.Comes (runTo depth) state findings after ∧
        after.graph = (world.withEffect label task []).graph ∧ after.forest = world.forest)
        (Live.note (.effectRegistered (number id) label)) held :=
      .modifies ⟨reached.turned _ _ _ _, graph, forest⟩
    refine noted.bind ?_
    rintro _ ready ⟨there, sameGraph, sameForest⟩
    have known : ready.graph.effect? id = some { label, task } := by
      rw [sameGraph]
      exact effect?_withEffect world label task
    have idle : ready.graph.isRunning id = false := by
      have free : some id ∉ world.graph.stack := fun member =>
        absurd (reachable.lt_of_mem_stack member) (Nat.lt_irrefl _)
      rw [sameGraph]
      simpa [Graph.isRunning, withEffect, Graph.create] using free
    exact shows_runEffect shows there known rfl idle fun entered inside same =>
      runs entered inside (same.trans sameForest)
  obtain ⟨_, after, outcome, final, shown⟩ := rest
  have keeps := Runner.keeps_runTo World.Later.refl (fun depth _ => lawful_lasting depth) (depth + 1)
  have follows : Follows Conduct.lasting begun (world.withEffect label task []) :=
    (Lasting.hold _).bind fun _ _ _ => (Lasting.note _).bind fun _ _ _ => Lasting.runEffect keeps _ _
  refine ⟨after, ?_, final, shown, follows.calm outcome⟩
  have created : createEffect label task [] world = .ok id (world.withEffect label task []) := rfl
  obtain ⟨_, held, holds, continued⟩ := bind_eq_ok.mp outcome
  obtain ⟨_, noted, notes, ran⟩ := bind_eq_ok.mp continued
  unfold Live.registerEffect
  rw [bind_of_ok created, bind_of_ok holds, bind_of_ok notes, bind_of_ok ran]
  rfl

/-- A binding evaluates something while its state is there, and then does something about its node. -/
theorem shows_registerBinding {label : String} {task : Task} {evaluates : Live String} {puts : String → Live Unit}
    (shows : Forest Handler → Prop) (comes : origin.Comes (runTo depth) state findings world)
    (reachable : world.Reachable) (listed : .effect label task ∈ findings)
    (performs : performTask (runTo depth) task = do
      whileAlive state (evaluates >>= puts)
      pure .null)
    (ends : ∀ held : World, origin.Comes (runTo depth) state findings held → held.Guarded state (.state state) →
      Returns (fun _ after => origin.Comes (runTo depth) state findings after ∧
        after.forest = held.forest ∧ after.Guarded state (.state state)) evaluates held)
    (idle : shows world.forest)
    (acts : ∀ value (after : World), origin.Comes (runTo depth) state findings after →
      after.forest = world.forest →
        Returns (fun _ last => origin.Comes (runTo depth) state findings last ∧ shows last.forest)
          (puts value) after) :
    ∃ after, Live.registerEffect (runTo (depth + 1)) label task [] world =
        .ok world.graph.effects.size after ∧
      origin.Comes (runTo depth) state findings after ∧ shows after.forest ∧
      (world.withEffect label task []).Later after := by
  refine shows_registerEffect shows comes reachable listed fun entered inside same => ?_
  have keeps : Returns (fun _ after => origin.Comes (runTo depth) state findings after ∧ shows after.forest)
      (whileAlive state (evaluates >>= puts)) entered := by
    refine shows_whileAlive inside (by rwa [same]) fun held holding guarded forest => ?_
    refine (ends held holding guarded).bind ?_
    rintro value after ⟨evaluated, still, -⟩
    exact acts value after evaluated ((still.trans forest).trans same)
  rw [performs]
  exact keeps.bind fun _ _ holds => .pure holds

end World

/-- Code that changes no node comes to an end. -/
def Conduct.still : Conduct where
  calm before after := after.forest = before.forest
  broken _ _ := False
  refl _ := rfl
  trans early late := late.trans early
  carry _ impossible := impossible
  settle impossible _ := impossible

namespace Still

theorem closes (holds : List Hold) (world : World) :
    Conduct.still.calm world { world with holds }.collect :=
  (World.sweeps_collect { world with holds }).forest

theorem plain : Plain Conduct.still where
  finishes _ _ _ := rfl
  notes _ _ := rfl
  meets _ _ := rfl
  parses _ _ := rfl
  holds _ world := by
    refine Follows.modifies ?_
    split <;> rfl
  operates _ world follows := follows.ending fun after => closes world.holds after
  letsGo _ world := Follows.modifies (closes _ world)
  untracks _ world follows := Follows.inFrame follows
    (fun after same => (World.sweeps_collect { after with graph := after.graph.pop }).forest.trans same)
    fun _ impossible => impossible
  tracks _ _ _ _ := Follows.modifies rfl
  tracksByHand _ _ := .trackByHand (fun _ => Follows.modifies rfl) fun _ => Follows.modifies rfl
  nodes _ _ := rfl

end Still

/-- Expressions without calls do no harm. -/
theorem World.harmless_of_isCallFree {run : Runner} {state : TargetId} {findings : List Finding}
    (free : ∀ source ∈ findings.flatMap Finding.sources, Expr.isCallFreeSource source = true)
    (origin : World) : origin.Harmless run state findings := by
  intro world _ _ source listed
  have follows : Follows Conduct.still (evaluateStrictly run state source) world :=
    Still.plain.evaluatesStrictly state (fun impossible : False => impossible.elim) source trivial
      (Or.inl (free source listed))
  unfold Follows at follows
  cases outcome : evaluateStrictly run state source world with
  | ok value after =>
      rw [outcome] at follows
      exact ⟨after, Or.inl ⟨value, outcome⟩, follows⟩
  | error stop after =>
      rw [outcome] at follows
      cases stop with
      | failed error => exact ⟨after, Or.inr ⟨error, outcome⟩, follows⟩
      | panicked payload => exact follows.elim
      | exhausted => exact follows.elim

end LiveMarkup
