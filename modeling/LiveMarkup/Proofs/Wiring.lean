import LiveMarkup.Proofs.Listening
import LiveMarkup.Proofs.Registering
import LiveMarkup.World.Binder

/-
This file follows the handlers and values of elements through a binding. Each directive wires its
element: an input hears what is put in and has an effect that keeps its value, and an event is heard.
-/

namespace LiveMarkup

namespace Forest

variable {forest : Forest Handler} {id other : NodeId}

theorem handlersAt_refreshValue (text : String) :
    (forest.refreshValue id text).handlersAt other = forest.handlersAt other := by
  unfold refreshValue
  split
  · exact handlersAt_modifyElement fun _ => rfl
  · rfl

theorem value_setTextContent (known : other < forest.size) (text : String) :
    (forest.setTextContent id text).value other = forest.value other := by
  unfold value
  rw [element?_setTextContent known]

theorem value_modifyElement {change : Element Handler → Element Handler}
    (values : ∀ element, (change element).value = element.value)
    (initial : ∀ element, (change element).attributes.get? "value" = element.attributes.get? "value") :
    (forest.modifyElement id change).value other = forest.value other := by
  unfold value
  rw [element?_modifyElement]
  by_cases same : id = other
  · rw [if_pos same]
    cases forest.element? other with
    | none => rfl
    | some element => simp only [Option.map_some, values, initial]
  · rw [if_neg same]

theorem value_setValue {element : Element Handler} (found : forest.element? id = some element)
    (text : String) :
    (forest.setValue id text).value other = if id = other then text else forest.value other := by
  unfold setValue value
  rw [element?_modifyElement]
  by_cases same : id = other
  · rw [if_pos same, if_pos same, ← same, found]
    rfl
  · rw [if_neg same, if_neg same]

theorem value_refreshValue {element : Element Handler} (found : forest.element? id = some element)
    (text : String) :
    (forest.refreshValue id text).value other = if id = other then text else forest.value other := by
  unfold refreshValue
  split
  · exact value_setValue found text
  · rename_i shown
    split
    · rename_i same
      rw [← same]
      exact Decidable.not_not.mp shown
    · rfl

/-! What single changes do to the parent of a node. -/

theorem parent?_modifyElement (change : Element Handler → Element Handler) :
    (forest.modifyElement id change).parent? other = forest.parent? other := by
  unfold modifyElement
  split
  · exact parent?_setContent forest id _
  · rfl

theorem parent?_refreshValue (text : String) :
    (forest.refreshValue id text).parent? other = forest.parent? other := by
  unfold refreshValue
  split
  · exact parent?_modifyElement _
  · rfl

/-- A new text gives no parent to a node that was there. -/
theorem parent?_of_setTextContent (known : other < forest.size) {text : String}
    {parent : NodeId}
    (found : (forest.setTextContent id text).parent? other = some parent) :
    forest.parent? other = some parent := by
  unfold setTextContent at found
  split at found
  · exact found
  · rwa [parent?_setContent] at found
  · exact found
  · dsimp only at found
    split at found
    · exact parent?_of_clear found
    · have below : other < (forest.clear id).size := by rwa [size_clear]
      have newer : ((forest.clear id).create (.text text)).1 ≠ other := Nat.ne_of_gt below
      rw [append_text, parent?_attach_of_ne newer, parent?_eq_shape?, shape?_create below,
        ← parent?_eq_shape?] at found
      exact parent?_of_clear found

end Forest

/-- A directive makes its element hear events of one kind. An input is heard to be stored. -/
inductive Hearing where
  | input (key : String) (numeric : Bool)
  | event (kind source : String)
deriving DecidableEq, Repr

namespace Hearing

def kind : Hearing → String
  | .input _ _ => "input"
  | .event kind _ => kind

def handler (state : TargetId) : Hearing → Handler
  | .input key numeric => .storeInput state key numeric
  | .event _ source => .evaluate state source

/-- An element hears this because of an attribute, if it is a directive that is complete. -/
def ofAttribute? (tag : String) (attributes : List (String × String)) (entry : String × String) :
    Option Hearing :=
  match Directive.ofName? entry.1 with
  | some .model =>
      if valueTags.contains tag then
        some (.input (Text.trimString entry.2)
          (Live.isNumericType (Assoc.get? attributes "type")))
      else none
  | some (.event kind) => if kind = "" then none else some (.event kind entry.2)
  | _ => none

end Hearing

/-- A wire leads from what an element hears to a state. -/
structure Wire where
  node : Nat
  hearing : Hearing
deriving DecidableEq, Repr

namespace Wire

def entry (state : TargetId) (wire : Wire) : String × Handler :=
  (wire.hearing.kind, wire.hearing.handler state)

/-- The wire of an input gives it the value that the store shows. -/
def refresh (store : Store) (id : Nat) (value : String) (wire : Wire) : String :=
  match wire.hearing with
  | .input key _ => if wire.node = id then (store.evaluateText key).2 else value
  | .event _ _ => value

end Wire

namespace World

/-- An effect keeps the value of an input. -/
structure Minds (world : World) (state : TargetId) (store : Store) (node : Nat) (key : String)
    (effect : EffectId) : Prop where
  task : world.HasTask effect (.valueBinding state node key)
  endures : world.Endures effect
  depends : ∀ name ∈ (store.evaluateText key).1, world.Depends effect ⟨state, .named name⟩

theorem Minds.later {before after : World} {state : TargetId} {store : Store} {node : Nat} {key : String}
    {effect : EffectId} (minds : before.Minds state store node key effect)
    (gentle : before.Gentle state after) (alive : after.isAlive state = true) :
    after.Minds state store node key effect where
  task := gentle.later.hasTask minds.task
  endures := minds.endures.later gentle
  depends name listed := gentle.depends (minds.depends name listed) alive

/-- Elements were wired. Their handlers are appended in order, and no node got a parent. Inputs show their
keys and are minded by new effects, and no other new effect minds an input. Older effects depend on nothing new. Where all
that lives is kept, nothing ends. -/
structure Wired (state : TargetId) (store : Store) (wires : List Wire) (before after : World) : Prop where
  handlers : ∀ id : Nat, id < before.forest.size → after.forest.handlersAt id =
    before.forest.handlersAt id ++ (wires.filter fun wire => wire.node = id).map (Wire.entry state)
  values : ∀ id : Nat, id < before.forest.size →
    after.forest.value id = wires.foldl (Wire.refresh store id) (before.forest.value id)
  parents : ∀ id parent : Nat, id < before.forest.size → after.forest.parent? id = some parent →
    before.forest.parent? id = some parent
  minded : ∀ wire ∈ wires, ∀ key numeric, wire.hearing = .input key numeric →
    ∃ effect, before.graph.effects.size ≤ effect ∧ after.Minds state store wire.node key effect
  tasks : ∀ id owner node key, before.graph.effects.size ≤ id →
    after.HasTask id (.valueBinding owner node key) → ∃ numeric, ⟨node, .input key numeric⟩ ∈ wires
  older : ∀ id < before.graph.effects.size, Graph.GainsNothing id before.graph after.graph
  sustains : before.Settled → before.Sustains after

variable {state : TargetId} {store : Store} {wires more : List Wire} {first second third : World}

theorem HasTask.lt_size {world : World} {id : EffectId} {task : Task} (has : world.HasTask id task) :
    id < world.graph.effects.size := by
  obtain ⟨effect, found, -⟩ := has
  exact (Array.getElem?_eq_some_iff.mp found).1

/-- An effect that existed has the task that it had. -/
theorem Later.hasTask_iff (later : first.Later second) {id : EffectId}
    (known : id < first.graph.effects.size) (task : Task) :
    second.HasTask id task ↔ first.HasTask id task := by
  refine ⟨fun has => ?_, later.hasTask⟩
  have found : first.graph.effect? id = some first.graph.effects[id] := Array.getElem?_eq_getElem known
  obtain ⟨newer, looked, same⟩ := later.hasTask ⟨_, found, rfl⟩
  obtain ⟨effect, here, equal⟩ := has
  cases looked.symm.trans here
  exact ⟨_, found, same.symm.trans equal⟩

namespace Wired

theorem refl (world : World) : world.Wired state store [] world where
  handlers _ _ := (List.append_nil _).symm
  values _ _ := rfl
  parents _ _ _ found := found
  minded _ impossible := by cases impossible
  tasks _ _ _ _ least has := absurd has.lt_size (Nat.not_lt_of_le least)
  older id _ := .refl id _
  sustains settled := ⟨settled, rfl, fun _ => rfl, fun _ _ => rfl⟩

theorem trans (early : first.Wired state store wires second) (late : second.Wired state store more third)
    (gentle : first.Gentle state second) (goesOn : second.Gentle state third)
    (alive : third.isAlive state = true) : first.Wired state store (wires ++ more) third where
  handlers id known := by
    rw [late.handlers id (Nat.lt_of_lt_of_le known gentle.later.nodes), early.handlers id known,
      List.filter_append, List.map_append, List.append_assoc]
  values id known := by
    rw [late.values id (Nat.lt_of_lt_of_le known gentle.later.nodes), early.values id known,
      List.foldl_append]
  parents id parent known found := early.parents id parent known
    (late.parents id parent (Nat.lt_of_lt_of_le known gentle.later.nodes) found)
  minded wire member key numeric hears := by
    rcases List.mem_append.mp member with old | new
    · obtain ⟨effect, least, minds⟩ := early.minded wire old key numeric hears
      exact ⟨effect, least, minds.later goesOn alive⟩
    · obtain ⟨effect, least, minds⟩ := late.minded wire new key numeric hears
      exact ⟨effect, Nat.le_trans gentle.later.effects least, minds⟩
  tasks id owner node key least has := by
    by_cases old : id < second.graph.effects.size
    · obtain ⟨numeric, member⟩ := early.tasks id owner node key least
        ((goesOn.later.hasTask_iff old _).mp has)
      exact ⟨numeric, List.mem_append_left _ member⟩
    · obtain ⟨numeric, member⟩ := late.tasks id owner node key (Nat.le_of_not_lt old) has
      exact ⟨numeric, List.mem_append_right _ member⟩
  older id known := (early.older id known).trans
    (late.older id (Nat.lt_of_lt_of_le known gentle.later.effects))
  sustains settled := by
    have middle := early.sustains settled
    have final := late.sustains middle.settled
    exact ⟨final.settled, final.hosts.trans middle.hosts, fun id => (final.states id).trans (middle.states id),
      fun id below => (final.lasting id (Nat.lt_of_lt_of_le below gentle.later.effects)).trans
        (middle.lasting id below)⟩

/-- A change without effects may wire elements to events. -/
theorem quietly (graph : second.graph = first.graph) (hosts : second.hosts = first.hosts)
    (targets : second.targets = first.targets) (names : second.names = first.names)
    (handlers : ∀ id : Nat, id < first.forest.size → second.forest.handlersAt id =
      first.forest.handlersAt id ++ (wires.filter fun wire => wire.node = id).map (Wire.entry state))
    (values : ∀ id : Nat, id < first.forest.size → second.forest.value id = first.forest.value id)
    (parents : ∀ id : Nat, second.forest.parent? id = first.forest.parent? id)
    (events : ∀ wire ∈ wires, ∃ kind source, wire.hearing = .event kind source) :
    first.Wired state store wires second where
  handlers := handlers
  values id known := by
    rw [values id known]
    clear handlers
    induction wires with
    | nil => rfl
    | cons wire rest inductionHypothesis =>
        obtain ⟨kind, source, event⟩ := events wire List.mem_cons_self
        have same : Wire.refresh store id (first.forest.value id) wire = first.forest.value id := by
          simp only [Wire.refresh, event]
        rw [List.foldl_cons, same]
        exact inductionHypothesis fun other member => events other (List.mem_cons_of_mem _ member)
  parents id _ _ found := (parents id).symm.trans found
  minded wire member key numeric hears := by
    obtain ⟨kind, source, event⟩ := events wire member
    cases event.symm.trans hears
  tasks id owner node key least has := by
    have known := has.lt_size
    rw [graph] at known
    exact absurd known (Nat.not_lt_of_le least)
  older id _ := by
    rw [graph]
    exact .refl id _
  sustains before := by
    have undisturbed : first.Undisturbed second := .of_same graph hosts targets names
    exact ⟨undisturbed.settled before, hosts, undisturbed.isAlive, fun id _ => by rw [graph]⟩

/-- What one wire does is seen at its node alone. -/
theorem handlers_single (wire : Wire) (id : Nat) :
    ([wire].filter fun other => other.node = id).map (Wire.entry state) =
      if wire.node = id then [wire.entry state] else [] := by
  by_cases same : wire.node = id <;> simp [same]

/-- The effect of a site minds no input. -/
theorem of_site {site : Site} {label : String} {names : List String}
    (registered : first.Registered state label (site.task state) names
      (·.setTextContent site.node (site.seen store).2) second) :
    first.Wired state store [] second where
  handlers id known := by
    rw [registered.forest, Forest.handlersAt_setTextContent known]
    exact (List.append_nil _).symm
  values id known := by
    rw [registered.forest]
    exact Forest.value_setTextContent known _
  parents id parent known found := by
    rw [registered.forest] at found
    exact Forest.parent?_of_setTextContent known found
  minded _ impossible := by cases impossible
  tasks id owner node key least has := by
    have bound := has.lt_size
    rw [registered.effects] at bound
    have same : id = first.graph.effects.size := Nat.le_antisymm (Nat.le_of_lt_succ bound) least
    obtain ⟨effect, found, task⟩ := has
    obtain ⟨other, looked, another⟩ := registered.task
    rw [same] at found
    cases found.symm.trans looked
    rw [task] at another
    unfold Site.task at another
    split at another <;> cases another
  older := registered.older
  sustains := registered.sustains

/-- A new effect gives an input its value. -/
theorem of_input {node : Nat} {label key : String} (numeric : Bool) {element : Element Handler}
    (found : first.forest.element? node = some element)
    (registered : first.Registered state label (.valueBinding state node key)
      (store.evaluateText key).1 (·.refreshValue node (store.evaluateText key).2) second)
    (alive : second.isAlive state = true) :
    first.Wired state store [⟨node, .input key numeric⟩]
      { second with forest := second.forest.listen node "input" (.storeInput state key numeric) } where
  handlers id known := by
    obtain ⟨value, here⟩ : ∃ value, second.forest.element? node = some { element with value } := by
      rw [registered.forest]
      unfold Forest.refreshValue
      split
      · refine ⟨some (store.evaluateText key).2, ?_⟩
        rw [Forest.setValue, Forest.element?_modifyElement, if_pos rfl, found]
        rfl
      · exact ⟨element.value, found⟩
    rw [Forest.handlersAt_listen here, registered.forest, Forest.handlersAt_refreshValue, handlers_single]
    rfl
  values id known := by
    have listens : (second.forest.listen node "input" (.storeInput state key numeric)).value id =
        second.forest.value id := Forest.value_modifyElement (fun _ => rfl) fun _ => rfl
    show (second.forest.listen node "input" _).value id = _
    rw [listens, registered.forest, Forest.value_refreshValue found]
    rfl
  parents id parent _ known := by
    have listens : (second.forest.listen node "input" (.storeInput state key numeric)).parent? id =
        second.forest.parent? id := Forest.parent?_modifyElement _
    rw [registered.forest, Forest.parent?_refreshValue] at listens
    exact (registered.forest ▸ listens).symm.trans known
  minded wire member other _ hears := by
    cases List.mem_singleton.mp member
    cases hears
    have minds : second.Minds state store node key first.graph.effects.size :=
      ⟨registered.task, registered.endures, registered.depends alive⟩
    exact ⟨_, Nat.le_refl _, minds.later (.forest second (Nat.le_of_eq (Forest.size_listen _ _ _ _).symm))
      alive⟩
  tasks id owner other source least has := by
    have bound := has.lt_size
    replace bound : id < second.graph.effects.size := bound
    rw [registered.effects] at bound
    have same : id = first.graph.effects.size := Nat.le_antisymm (Nat.le_of_lt_succ bound) least
    obtain ⟨effect, looked, task⟩ := has
    obtain ⟨another, there, given⟩ := registered.task
    rw [same] at looked
    cases looked.symm.trans there
    cases given.symm.trans task
    exact ⟨numeric, List.mem_singleton_self _⟩
  older := registered.older
  sustains settled := by
    have sustained := registered.sustains settled
    exact ⟨⟨sustained.settled.hosts, sustained.settled.states⟩, sustained.hosts, sustained.states,
      sustained.lasting⟩

end Wired

end World

end LiveMarkup
