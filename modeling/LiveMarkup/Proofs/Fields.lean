import LiveMarkup.Proofs.Incremental
import LiveMarkup.Proofs.Spelling
import LiveMarkup.Proofs.Updating

/-
This file follows inputs that are tied to a key of a state. Whatever a user puts in, and whatever is
written, all of them show the value of the key afterwards.
-/

namespace LiveMarkup

open Live

/-- A field is an input whose value is tied to a key. -/
structure Field where
  node : Nat
  numeric : Bool
deriving DecidableEq, Repr

namespace Field

/-- This is what a field stores when a text is put in. -/
def stores (field : Field) (raw : String) : Value :=
  if field.numeric then .ofNumericInput raw else .string raw

def handler (state : TargetId) (key : String) (field : Field) : Handler :=
  .storeInput state key field.numeric

end Field

namespace Forest

variable {forest before after : Forest Handler} {kind : String} {id : Nat}

/-- Above this node nobody listens to events of a kind. -/
inductive Quiet (forest : Forest Handler) (kind : String) : Nat → Prop where
  | top {id : Nat} (orphan : forest.parent? id = none) : Quiet forest kind id
  | under {id parent : Nat} (found : forest.parent? id = some parent) (older : parent < id)
      (silent : forest.listenersFor parent kind = []) (above : Quiet forest kind parent) :
      Quiet forest kind id

theorem listenersFor_congr (same : after.handlersAt id = before.handlersAt id) (kind : String) :
    after.listenersFor id kind = before.listenersFor id kind := by
  rw [listenersFor_eq, listenersFor_eq, same]

theorem lt_size_of_listenersFor {handler : Handler} {rest : List Handler}
    (hears : forest.listenersFor id kind = handler :: rest) : id < forest.size := by
  cases found : forest.element? id with
  | none => simp [listenersFor, found] at hears
  | some element => exact lt_size_of_element? found

/-- Where no node gets a parent, no event gets a longer way. What is told to nodes that belong together
matters to those below them only. -/
theorem Quiet.of_parents (own : Nat → Prop) (quiet : before.Quiet kind id) (known : id < before.size)
    (away : ¬ own id) (closed : ∀ child parent, before.parent? child = some parent → own parent → own child)
    (handlers : ∀ id : Nat, id < before.size → ¬ own id → after.handlersAt id = before.handlersAt id)
    (parents : ∀ id parent : Nat, id < before.size → after.parent? id = some parent →
      before.parent? id = some parent) : after.Quiet kind id := by
  induction quiet with
  | top orphan =>
      cases found : after.parent? _ with
      | none => exact .top found
      | some parent => cases orphan.symm.trans (parents _ parent known found)
  | under found older silent _ inductionHypothesis =>
      have below := Nat.lt_trans older known
      have beside := fun owned => away (closed _ _ found owned)
      cases looked : after.parent? _ with
      | none => exact .top looked
      | some parent =>
          cases found.symm.trans (parents _ parent known looked)
          exact .under looked older ((listenersFor_congr (handlers _ below beside) kind).trans silent)
            (inductionHypothesis below beside)

end Forest

/-- An effect that gains no dependency was concerned before, if it is concerned now. -/
theorem Graph.GainsNothing.mem_concerned {before after : Graph Task} {id : EffectId}
    (gains : GainsNothing id before after) {early late : List (Graph.Move Task)}
    (path : Graph.Path {} early before) (continued : Graph.Path {} late after) {target : TargetId}
    {name : String} (member : id ∈ after.concerned target name) : id ∈ before.concerned target name := by
  have listed : ∀ dependency, id ∈ after.subscribersOf dependency → id ∈ before.subscribersOf dependency := by
    intro dependency subscribed
    obtain ⟨effect, found, depends⟩ := (continued.recorded.agrees.listed id dependency).mp subscribed
    obtain ⟨older, known, least⟩ := gains effect found
    exact (path.recorded.agrees.listed id dependency).mpr ⟨older, known, least dependency depends⟩
  rw [Graph.mem_concerned] at member ⊢
  exact member.imp (listed _) (listed _)

/-- A name is an expression. -/
theorem Expr.parse_name {key : String} (named : isName key = true) : parse key = .ok (.ident key) := by
  have blank : IsBlank [] := fun _ impossible => by cases impossible
  rw [parse_eq_ok_iff_written]
  exact ⟨[], key.toList, [], blank, blank, (List.append_nil _).symm, (Renders.ident named).lift .conditional⟩

/-- A name shows its value, or nothing if it has none. -/
theorem Store.evaluateText_name {store : Store} {key : String} (named : Expr.isName key = true)
    (free : store.methods.contains key = false) :
    store.evaluateText key = ([key], (Assoc.get? store.values key).elim "" Value.display) := by
  have looked : Expr.eval store.view (.ident key) =
      ⟨[key], (Assoc.get? store.values key).elim (.error (.unknownIdentifier key)) .ok⟩ := by
    show store.view.lookup key = _
    unfold view
    refine (if_neg (ne_true_of_eq_false free)).trans ?_
    cases Assoc.get? store.values key <;> rfl
  unfold evaluateText evaluate
  rw [Expr.parse_name named]
  dsimp only
  rw [looked]
  cases Assoc.get? store.values key <;> rfl

namespace World

/-- This is what a peek gives. -/
def peek? (world : World) (state : TargetId) (key : String) : Option Value :=
  (world.store? state).bind fun store => Assoc.get? store.values key

/-- Fields are tied to a key. They store what is put in, nobody above them hears of it, and effects
give them their values. All that depends on the key are bindings without calls. -/
structure Ties (world : World) (state : TargetId) (key : String) (fields : List Field) : Prop where
  hears : ∀ field ∈ fields,
    world.forest.listenersFor field.node "input" = [field.handler state key]
  quiet : ∀ field ∈ fields, world.forest.Quiet "input" field.node
  minded : ∀ field ∈ fields, ∃ effect, world.HasTask effect (.valueBinding state field.node key) ∧
    world.graph.isDisposed effect = false ∧ world.Depends effect ⟨state, .named key⟩
  bindings : ∀ id ∈ world.graph.concerned state key,
    ∃ task, world.HasTask id task ∧ task.Reflects state key (· ∈ fields.map Field.node)

variable {state : TargetId} {store : Store} {key : String} {fields : List Field} {world : World}

theorem Mild.forget (state : TargetId) (world : World) : world.Mild state world.forget where
  undisturbed := .of_same rfl rfl rfl rfl
  later := later_forget world
  store := rfl
  deeds := ⟨[], rfl, fun _ impossible => by cases impossible⟩
  names := rfl

theorem Poised.entered (poised : world.Poised state store) : (world.entered none).Poised state store where
  settled := poised.settled.entered none
  reachable := by
    obtain ⟨moves, path⟩ := poised.reachable
    exact ⟨_, path.step (.entered none) trivial⟩
  idle id member := poised.idle id ((List.mem_cons.mp member).resolve_left (Option.some_ne_none id))
  found := poised.found
  alive := poised.alive

namespace Ties

variable {before after : World}

/-- What concerns neither nodes nor effects keeps the ties. -/
theorem of_same (ties : before.Ties state key fields) (forest : after.forest = before.forest)
    (effects : after.graph.effects = before.graph.effects)
    (table : after.graph.table = before.graph.table) : after.Ties state key fields := by
  have looks : ∀ id, after.graph.effect? id = before.graph.effect? id := by
    intro id
    unfold Graph.effect?
    rw [effects]
  have tasks : ∀ {id task}, before.HasTask id task → after.HasTask id task := by
    rintro id task ⟨effect, found, same⟩
    exact ⟨effect, (looks id).trans found, same⟩
  refine ⟨forest ▸ ties.hears, forest ▸ ties.quiet, fun field member => ?_, fun id member => ?_⟩
  · obtain ⟨effect, has, lasting, found, known, depends⟩ := ties.minded field member
    refine ⟨effect, tasks has, ?_, found, (looks effect).trans known, depends⟩
    unfold Graph.isDisposed at lasting ⊢
    rwa [looks]
  · have same : after.graph.concerned state key = before.graph.concerned state key := by
      unfold Graph.concerned Graph.subscribers
      rw [table]
    obtain ⟨task, has, reflects⟩ := ties.bindings id (same ▸ member)
    exact ⟨task, tasks has, reflects⟩

theorem lt_size (ties : world.Ties state key fields) {field : Field} (member : field ∈ fields) :
    field.node < world.forest.size := Forest.lt_size_of_listenersFor (ties.hears field member)

theorem handlersAt_ne_nil (ties : world.Ties state key fields) {field : Field} (member : field ∈ fields) :
    world.forest.handlersAt field.node ≠ [] := by
  intro none
  have hears := ties.hears field member
  rw [Forest.listenersFor_eq, none] at hears
  cases hears

/-- An effect that minds a field is concerned by its key. -/
theorem concerns (ties : world.Ties state key fields) (reachable : world.Reachable) {field : Field}
    (member : field ∈ fields) : ∃ effect ∈ world.graph.concerned state key,
      world.HasTask effect (.valueBinding state field.node key) ∧
        world.graph.isDisposed effect = false := by
  obtain ⟨effect, has, lasting, found, known, depends⟩ := ties.minded field member
  obtain ⟨moves, path⟩ := reachable
  refine ⟨effect, ?_, has, lasting⟩
  have undisposed : found.disposed = false := by
    unfold Graph.isDisposed at lasting
    rwa [known, Option.any_some] at lasting
  rw [Graph.mem_concerned]
  exact Or.inl ((path.recorded.agrees.listed effect _).mpr ⟨found, known, depends undisposed⟩)

/-- The effects of a key have had their turns, so fields show its value. -/
theorem updated {text : String} (ties : before.Ties state key fields)
    (poised : before.Poised state store)
    (updated : before.Updated state key (· ∈ fields.map Field.node) text
      (before.graph.concerned state key) after) :
    after.Ties state key fields ∧ ∀ field ∈ fields, after.forest.value field.node = text := by
  have redrawn := updated.redrawn
  constructor
  · refine ⟨fun field member => ?_, fun field member => ?_, fun field member => ?_, fun id member => ?_⟩
    · exact (Forest.listenersFor_congr (redrawn.handlers _ (ties.lt_size member)) _).trans
        (ties.hears field member)
    · exact (ties.quiet field member).of_parents (fun _ => False) (ties.lt_size member) id
        (fun _ _ _ own => own) (fun id known _ => redrawn.handlers id known) redrawn.parents
    · obtain ⟨effect, has, lasting, depends⟩ := ties.minded field member
      exact ⟨effect, updated.mild.later.hasTask has,
        (updated.mild.undisturbed.isDisposed effect).trans lasting, updated.mild.depends poised.isAlive depends⟩
    · have old : id ∈ before.graph.concerned state key := by
        by_contra absent
        obtain ⟨moves, path⟩ := poised.reachable
        obtain ⟨others, continued⟩ := (poised.later updated.mild).reachable
        exact absent ((updated.others id absent).mem_concerned path continued member)
      obtain ⟨task, has, reflects⟩ := ties.bindings id old
      exact ⟨task, updated.mild.later.hasTask has, reflects⟩
  · intro field member
    obtain ⟨effect, concerned, has, lasting⟩ := ties.concerns poised.reachable member
    exact updated.shown effect concerned field.node (List.mem_map_of_mem member)
      (ties.handlersAt_ne_nil member) has lasting

end Ties

/-- A value was stored under a key. It is what fields show, and they stay tied to the key. -/
structure Stored (state : TargetId) (key : String) (fields : List Field) (value : Value)
    (before after : World) : Prop where
  poised : ∃ store, after.Poised state store ∧ store.methods.contains key = false ∧
    Assoc.get? store.values key = some value
  ties : after.Ties state key fields
  shows : ∀ field ∈ fields, after.forest.value field.node = value.display
  handlers : ∀ id : Nat, id < before.forest.size → after.forest.handlersAt id = before.forest.handlersAt id
  parents : ∀ id parent : Nat, id < before.forest.size → after.forest.parent? id = some parent →
    before.forest.parent? id = some parent
  undisturbed : before.Undisturbed after
  names : after.names = before.names

variable (depth : Nat)

/-- A write of the key comes to an end, and fields show what was written. -/
theorem stored_writeValue (named : Expr.isName key = true) (settable : key ≠ reservedKey)
    (poised : world.Poised state store) (free : store.methods.contains key = false)
    (ties : world.Ties state key fields) (value : Value) :
    ∃ after, writeValue (runTo (depth + 1)) state key value world = .ok () after ∧
      world.Stored state key fields value after := by
  let change : Store → Store := fun store =>
    { store with values := Dictionary.putSorted store.values key value }
  let written := world.modifyStore state change
  have put : world.Undisturbed written := by
    refine ⟨.refl world.graph, rfl, fun id => ?_, rfl, rfl, rfl, rfl⟩
    rw [store?_modifyStore]
    split
    · rw [Option.map_map]
      rfl
    · rfl
  have ready : written.Poised state (change store) := by
    refine ⟨put.settled poised.settled, poised.reachable, poised.idle, ?_, poised.alive⟩
    rw [store?_modifyStore, if_pos rfl, poised.found]
    rfl
  have tied : written.Ties state key fields := ties.of_same rfl rfl rfl
  obtain ⟨after, triggers, updated⟩ := updated_trigger depth ready tied.bindings
  obtain ⟨still, shows⟩ := tied.updated ready updated
  have shown : ((change store).evaluateText key).2 = value.display := by
    have seen : (change store).evaluateText key =
        ([key], (Assoc.get? (Dictionary.putSorted store.values key value) key).elim "" Value.display) :=
      Store.evaluateText_name named free
    rw [seen, Dictionary.get?_putSorted]
    rfl
  refine ⟨after, ?_, ?_⟩
  · unfold writeValue
    rw [if_neg settable]
    exact triggers
  · exact
      { poised := ⟨change store, ready.later updated.mild, free, Dictionary.get?_putSorted _ _ _⟩
        ties := still
        shows := fun field member => (shows field member).trans shown
        handlers := updated.redrawn.handlers
        parents := updated.redrawn.parents
        undisturbed := put.trans updated.mild.undisturbed
        names := updated.mild.names }

theorem hold_eq (held : Hold) (world : World) : ∃ holds, hold held world = .ok () { world with holds } := by
  by_cases known : world.holds.contains held = true
  · refine ⟨world.holds, ?_⟩
    show EStateM.Result.ok () (if world.holds.contains held then world else _) = _
    rw [if_pos known]
  · refine ⟨held :: world.holds, ?_⟩
    show EStateM.Result.ok () (if world.holds.contains held then world else _) = _
    rw [if_neg known]

theorem Poised.holds (poised : world.Poised state store) (holds : List Hold) :
    ({ world with holds } : World).Poised state store :=
  ⟨poised.settled.holds holds, poised.reachable, poised.idle, poised.found, poised.alive⟩

namespace Stored

variable {value : Value} {after : World}

/-- Holds and records before the write and holds after it make no difference. -/
theorem around {begun : World} (stored : begun.Stored state key fields value after)
    (begins : world.Undisturbed begun) (forest : begun.forest = world.forest)
    (names : begun.names = world.names) (holds : List Hold) :
    world.Stored state key fields value { after with holds } where
  poised := by
    obtain ⟨store, poised, known⟩ := stored.poised
    exact ⟨store, poised.holds holds, known⟩
  ties := stored.ties.of_same rfl rfl rfl
  shows := stored.shows
  handlers := forest ▸ stored.handlers
  parents := forest ▸ stored.parents
  undisturbed := (begins.trans stored.undisturbed).trans (.of_same rfl rfl rfl rfl)
  names := stored.names.trans names

/-- A frame is taken off after a write, and nothing ends. -/
theorem leave (settled : world.Settled) (stored : (world.entered none).Stored state key fields value after) :
    { after with graph := after.graph.pop }.collect = { after with graph := after.graph.pop } ∧
      world.Stored state key fields value { after with graph := after.graph.pop } := by
  obtain ⟨same, undisturbed⟩ := Undisturbed.leave settled stored.undisturbed
  refine ⟨same, ?_, stored.ties.of_same rfl rfl rfl, stored.shows, stored.handlers, stored.parents,
    undisturbed, stored.names⟩
  obtain ⟨store, poised, known⟩ := stored.poised
  refine ⟨store, ⟨undisturbed.settled settled, ?_, ?_, poised.found, poised.alive⟩, known⟩
  · obtain ⟨moves, path⟩ := poised.reachable
    exact ⟨_, path.step .left trivial⟩
  · exact fun id member => poised.idle id (List.mem_of_mem_tail member)

/-- Nothing is left to collect after a write. -/
theorem collect_eq (stored : world.Stored state key fields value after) : after.collect = after := by
  obtain ⟨store, poised, -⟩ := stored.poised
  exact collect_eq_self poised.settled

end Stored

/-- An input that is heard is stored, and no effect that is running hears of it. -/
theorem stored_storeInput (named : Expr.isName key = true) (settable : key ≠ reservedKey)
    (poised : world.Poised state store) (free : store.methods.contains key = false)
    (ties : world.Ties state key fields) (field : Field) :
    ∃ after, storeInput (runTo (depth + 1)) state key field.numeric field.node world = .ok () after ∧
      world.Stored state key fields (field.stores (world.forest.value field.node)) after := by
  obtain ⟨holds, held⟩ := hold_eq (.state state) world
  have inside := poised.holds holds
  obtain ⟨written, writes, stored⟩ := stored_writeValue depth named settable inside.entered free
    (ties.of_same rfl rfl rfl) (field.stores (world.forest.value field.node))
  obtain ⟨same, left⟩ := stored.leave inside.settled
  have begins : world.Undisturbed { world with holds } := .of_same rfl rfl rfl rfl
  have final := left.around begins rfl rfl world.holds
  refine ⟨_, ?_, final⟩
  have action : (do
      hold (.state state)
      let raw := (← get).forest.value field.node
      let value := if field.numeric then Value.ofNumericInput raw else .string raw
      untracked (writeValue (runTo (depth + 1)) state key value) : Live Unit) world =
      .ok () { written with graph := written.graph.pop } := by
    rw [bind_of_ok held]
    show ending (writeValue (runTo (depth + 1)) state key (field.stores (world.forest.value field.node)))
      (fun after => { after with graph := after.graph.pop }.collect)
      (({ world with holds } : World).entered none) = _
    unfold ending
    rw [writes]
    exact congrArg (EStateM.Result.ok ()) same
  unfold storeInput whileAlive
  rw [get_bind, if_pos poised.isAlive]
  unfold operation ending
  rw [action]
  exact congrArg (EStateM.Result.ok ()) final.collect_eq

/-- Where nobody listens, an event goes up without a call. -/
theorem bubble_quiet (run : Runner) {kind : String} (target : NodeId) {id : Nat}
    (quiet : world.forest.Quiet kind id) {limit : Nat} (enough : id ≤ limit) (called : Nat) :
    bubble run kind target limit (world.forest.parent? id) called world = .ok called world := by
  induction quiet generalizing limit with
  | top orphan =>
      rw [orphan]
      cases limit <;> rfl
  | under found older silent _ inductionHypothesis =>
      obtain ⟨less, rfl⟩ : ∃ less, limit = less + 1 := ⟨limit - 1, by omega⟩
      rw [found]
      unfold bubble
      rw [get_bind, silent]
      show bubble run kind target less _ called world = _
      exact inductionHypothesis (by omega)

/-- An event at a field stores its value, and is heard nowhere else. -/
theorem stored_dispatch (named : Expr.isName key = true) (settable : key ≠ reservedKey)
    (poised : world.Poised state store) (free : store.methods.contains key = false)
    (ties : world.Ties state key fields) {field : Field} (member : field ∈ fields) :
    ∃ called after, dispatch (runTo (depth + 2)) "input" field.node world = .ok called after ∧
      world.Stored state key fields (field.stores (world.forest.value field.node)) after := by
  obtain ⟨after, stores, stored⟩ := stored_storeInput depth named settable poised free ties field
  have known := ties.lt_size member
  obtain ⟨limit, same, enough⟩ : ∃ limit, world.forest.size + 1 + patience = limit + 1 ∧
      world.forest.size ≤ limit := ⟨world.forest.size + patience, by omega, by omega⟩
  have calls : callHandlers (runTo (depth + 2)) ⟨"input", field.node, field.node⟩
      [field.handler state key] world = .ok () after := by
    have runs : runTo (depth + 2) (.handler (field.handler state key)
        ⟨"input", field.node, field.node⟩) world = .ok .null after := bind_of_ok stores
    unfold callHandlers
    have discards : discard (runTo (depth + 2) (.handler (field.handler state key)
        ⟨"input", field.node, field.node⟩)) world = .ok () after := by
      rw [discard_apply, runs]
    rw [bind_of_ok discards]
    rfl
  refine ⟨0 + 1, after, ?_, stored⟩
  unfold dispatch
  rw [get_bind, same]
  unfold bubble
  rw [get_bind, ties.hears field member, bind_of_ok calls, get_bind]
  exact bubble_quiet _ _ (stored.ties.quiet field member) (by omega) _

/-- What a user puts in is stored, and all fields show it. -/
theorem stored_inputValue (named : Expr.isName key = true) (settable : key ≠ reservedKey)
    (poised : world.Poised state store) (free : store.methods.contains key = false)
    (ties : world.Ties state key fields) {field : Field} (member : field ∈ fields) (raw : String) :
    ∃ after, inputValue (runTo (depth + 2)) field.node raw world = .ok () after ∧
      world.Stored state key fields (field.stores raw) after := by
  let valued : World := { world with forest := world.forest.setValue field.node raw }
  have handlers : ∀ id : Nat, valued.forest.handlersAt id = world.forest.handlersAt id := fun id =>
    Forest.handlersAt_setValue raw
  have parents : ∀ id : Nat, valued.forest.parent? id = world.forest.parent? id := fun id =>
    Forest.parent?_modifyElement _
  have tied : valued.Ties state key fields := by
    refine ⟨fun other listed => ?_, fun other listed => ?_, ties.minded, ties.bindings⟩
    · exact (Forest.listenersFor_congr (handlers other.node) "input").trans (ties.hears other listed)
    · exact (ties.quiet other listed).of_parents (fun _ => False) (ties.lt_size listed) id
        (fun _ _ _ own => own) (fun id _ _ => handlers id)
        fun id parent _ found => (parents id).symm.trans found
  have ready : valued.Poised state store :=
    ⟨⟨poised.settled.hosts, poised.settled.states⟩, poised.reachable, poised.idle, poised.found,
      poised.alive⟩
  obtain ⟨called, after, dispatches, stored⟩ := stored_dispatch depth named settable ready free tied member
  have shown : valued.forest.value field.node = raw := by
    obtain ⟨element, found⟩ := Forest.element?_of_handlersAt (ties.handlersAt_ne_nil member)
    show (world.forest.setValue field.node raw).value field.node = raw
    rw [Forest.value_setValue found, if_pos rfl]
  rw [shown] at stored
  have size : valued.forest.size = world.forest.size := Forest.size_setValue world.forest field.node raw
  have unsaid : world.Undisturbed valued := .of_same rfl rfl rfl rfl
  refine ⟨after, ?_, ?_⟩
  · show discard (dispatch (runTo (depth + 2)) "input" field.node) valued = _
    rw [discard_apply, dispatches]
  · exact
      { poised := stored.poised
        ties := stored.ties
        shows := stored.shows
        handlers := fun id below => (stored.handlers id (size ▸ below)).trans (handlers id)
        parents := fun id parent below found =>
          (parents id).symm.trans (stored.parents id parent (size ▸ below) found)
        undisturbed := unsaid.trans stored.undisturbed
        names := stored.names }

/-! Single steps. -/

/-- Fields reflect a key: they are tied to it, and all of them show its value. -/
structure Reflects (world : World) (state : TargetId) (key : String) (fields : List Field) : Prop where
  poised : ∃ store, world.Poised state store ∧ store.methods.contains key = false
  ties : world.Ties state key fields
  shows : ∀ field ∈ fields,
    world.forest.value field.node = (world.peek? state key).elim "" Value.display

theorem Stored.peek? {value : Value} {after : World} (stored : world.Stored state key fields value after) :
    after.peek? state key = some value := by
  obtain ⟨store, poised, -, known⟩ := stored.poised
  unfold World.peek?
  rw [poised.found]
  exact known

theorem Stored.reflects {value : Value} {after : World}
    (stored : world.Stored state key fields value after) : after.Reflects state key fields where
  poised := by
    obtain ⟨store, poised, free, -⟩ := stored.poised
    exact ⟨store, poised, free⟩
  ties := stored.ties
  shows field member := by
    rw [stored.peek?]
    exact stored.shows field member

end World

/-- A user puts a text into a node, or somebody writes the key. -/
inductive Change where
  | input (name raw : String)
  | write (value : Value)

namespace Change

def command (given key : String) : Change → Command
  | .input name raw => .node (.input name raw)
  | .write value => .state (.set given key value)

/-- A change stores a value. The nodes that take inputs are fields. -/
inductive Stores (nodes : Dictionary NodeId) (fields : List Field) : Change → Value → Prop where
  | input {name raw : String} {field : Field} (member : field ∈ fields)
      (named : nodes.get? name = some field.node) : Stores nodes fields (.input name raw) (field.stores raw)
  | write (value : Value) : Stores nodes fields (.write value) value

end Change

namespace World

variable {state : TargetId} {key given : String} {fields : List Field} {world : World}

/-- A step that stores a value returns, and fields reflect the key afterwards. -/
theorem stored_step (named : Expr.isName key = true) (settable : key ≠ reservedKey)
    (reflects : world.Reflects state key fields) (known : world.stateFor? given = some state)
    {change : Change} {value : Value} (stores : change.Stores world.names.nodes fields value) :
    ∃ result, (world.step (change.command given key)).1.outcome = .ok result ∧
      world.Stored state key fields value (world.step (change.command given key)).2 := by
  obtain ⟨store, poised, free⟩ := reflects.poised
  have forgotten := poised.later (.forget state world)
  have ties : world.forget.Ties state key fields := reflects.ties.of_same rfl rfl rfl
  obtain ⟨depth, deep⟩ : ∃ depth, world.graph.effects.size + (spareDepth - 1) + 1 = depth + 2 :=
    ⟨world.graph.effects.size + (spareDepth - 2), by unfold spareDepth; omega⟩
  obtain ⟨result, after, performs, stored⟩ : ∃ result after,
      perform (runTo (depth + 2)) [] (change.command given key) world.forget = .ok result after ∧
        world.Stored state key fields value after := by
    have forgets : world.Undisturbed world.forget := .of_same rfl rfl rfl rfl
    cases stores with
    | @input name raw field member finds =>
        obtain ⟨after, inputs, stored⟩ := stored_inputValue depth named settable forgotten free ties
          member raw
        have looked : nodeNamed name world.forget = .ok field.node world.forget := nodeNamed_of_found finds
        exact ⟨.null, after, (bind_of_ok looked).trans (bind_of_ok inputs),
          stored.around forgets rfl rfl after.holds⟩
    | write =>
        obtain ⟨holds, finds⟩ :=
          stateNamed_of_found (show world.forget.stateFor? given = some state from known)
        have begins : world.Undisturbed { world.forget with holds } := .of_same rfl rfl rfl rfl
        obtain ⟨after, writes, stored⟩ := stored_writeValue (depth + 1) named settable
          (forgotten.holds holds) free (ties.of_same rfl rfl rfl) value
        exact ⟨.null, after, (bind_of_ok finds).trans (bind_of_ok writes),
          stored.around begins rfl rfl after.holds⟩
  have final := stored.around (.refl world) rfl rfl world.holds
  have started : start (change.command given key) world.forget =
      .ok result { after with holds := world.holds } := by
    rw [← deep] at performs
    exact (start_of_performs performs).trans (congrArg (EStateM.Result.ok result) final.collect_eq)
  rw [step_eq, started]
  exact ⟨result, rfl, final⟩

end World

end LiveMarkup
