import LiveMarkup.Dictionary

/-
This file defines effects, the table of their subscriptions and the stack of running effects.
-/

namespace LiveMarkup

/-- A target is a reactive state, or an identity that is used without one. -/
abbrev TargetId := Nat

abbrev EffectId := Nat

/-- A subscription is to one key of a target or to any of its keys. -/
inductive Key where
  | named (name : String)
  | any
deriving DecidableEq, Repr

structure Dependency where
  target : TargetId
  key : Key
deriving DecidableEq, Repr

/-- An effect keeps its dependencies in the order in which it first read them. -/
structure Effect (Task : Type) where
  label : String
  task : Task
  captures : List TargetId := []
  runs : Nat := 0
  disposed : Bool := false
  dependencies : List Dependency := []

/-- These are the effects that depend on one target, in the order of their subscription. -/
structure Subscribers where
  named : Dictionary (List EffectId) := []
  any : List EffectId := []
deriving Repr

/-- Effects are numbered in the order of their creation. A frame without effect stops tracking. -/
structure Graph (Task : Type) where
  effects : Array (Effect Task) := #[]
  table : Assoc TargetId Subscribers := []
  stack : List (Option EffectId) := []

namespace Subscribers

/-- This function gives the effects that depend on exactly this key. -/
def under (subscribers : Subscribers) : Key → List EffectId
  | .named name => (subscribers.named.get? name).getD []
  | .any => subscribers.any

def add (subscribers : Subscribers) (key : Key) (effect : EffectId) : Subscribers :=
  match key with
  | .named name =>
      { subscribers with named := subscribers.named.put name (subscribers.under key ++ [effect]) }
  | .any => { subscribers with any := subscribers.any ++ [effect] }

/-- A name without effects is removed. -/
def remove (subscribers : Subscribers) (key : Key) (effect : EffectId) : Subscribers :=
  let rest := (subscribers.under key).filter (· ≠ effect)
  match key with
  | .named name =>
      if rest.isEmpty then { subscribers with named := subscribers.named.erase name }
      else { subscribers with named := subscribers.named.put name rest }
  | .any => { subscribers with any := rest }

/-- These are all effects that depend on the target in some way. -/
def all (subscribers : Subscribers) : List EffectId :=
  subscribers.named.flatMap Prod.snd ++ subscribers.any

end Subscribers

/-- This function puts an effect into an ascending list unless it is there. -/
def insertAscending (effect : EffectId) : List EffectId → List EffectId
  | [] => [effect]
  | first :: rest =>
      if effect = first then first :: rest
      else if effect < first then effect :: first :: rest
      else first :: insertAscending effect rest

def ascending (effects : List EffectId) : List EffectId := effects.foldr insertAscending []

theorem mem_insertAscending (effect other : EffectId) (effects : List EffectId) :
    other ∈ insertAscending effect effects ↔ other = effect ∨ other ∈ effects := by
  induction effects with
  | nil => simp [insertAscending]
  | cons first rest inductionHypothesis =>
      by_cases same : effect = first
      · simp [insertAscending, same]
      · by_cases before : effect < first
        · simp [insertAscending, same, before]
        · simp only [insertAscending, same, before, if_false, List.mem_cons, inductionHypothesis]
          exact or_left_comm

theorem mem_ascending (effect : EffectId) (effects : List EffectId) :
    effect ∈ ascending effects ↔ effect ∈ effects := by
  induction effects with
  | nil => simp [ascending]
  | cons first rest inductionHypothesis =>
      have step : ascending (first :: rest) = insertAscending first (ascending rest) := rfl
      rw [step, mem_insertAscending, inductionHypothesis, List.mem_cons]

theorem pairwise_insertAscending {effect : EffectId} {effects : List EffectId}
    (sorted : effects.Pairwise (· < ·)) : (insertAscending effect effects).Pairwise (· < ·) := by
  induction effects with
  | nil => simp [insertAscending]
  | cons first rest inductionHypothesis =>
      obtain ⟨least, ordered⟩ := List.pairwise_cons.mp sorted
      by_cases same : effect = first
      · simpa [insertAscending, same] using sorted
      · by_cases before : effect < first
        · simp only [insertAscending, same, before, if_true, if_false]
          refine List.pairwise_cons.mpr ⟨?_, sorted⟩
          intro other member
          rcases List.mem_cons.mp member with equal | later
          · exact equal ▸ before
          · exact Nat.lt_trans before (least other later)
        · simp only [insertAscending, same, before, if_false]
          refine List.pairwise_cons.mpr ⟨?_, inductionHypothesis ordered⟩
          intro other member
          rcases (mem_insertAscending effect other rest).mp member with equal | later
          · exact equal ▸ Nat.lt_of_le_of_ne (Nat.le_of_not_lt before) (Ne.symm same)
          · exact least other later

theorem pairwise_ascending (effects : List EffectId) :
    (ascending effects).Pairwise (· < ·) := by
  induction effects with
  | nil => exact List.Pairwise.nil
  | cons first rest inductionHypothesis => exact pairwise_insertAscending inductionHypothesis

namespace Graph

variable {Task : Type}

def effect? (graph : Graph Task) (id : EffectId) : Option (Effect Task) := graph.effects[id]?

def modifyEffect (graph : Graph Task) (id : EffectId) (change : Effect Task → Effect Task) :
    Graph Task :=
  { graph with effects := graph.effects.modify id change }

def create (graph : Graph Task) (label : String) (task : Task) (captures : List TargetId) :
    EffectId × Graph Task :=
  (graph.effects.size, { graph with effects := graph.effects.push { label, task, captures } })

/-- The active effect is that of the innermost frame. -/
def active? (graph : Graph Task) : Option EffectId :=
  match graph.stack with
  | frame :: _ => frame
  | [] => none

def isDisposed (graph : Graph Task) (id : EffectId) : Bool :=
  (graph.effect? id).any Effect.disposed

/-- An effect is running while any frame of the stack holds it. -/
def isRunning (graph : Graph Task) (id : EffectId) : Bool := graph.stack.contains (some id)

def push (graph : Graph Task) (frame : Option EffectId) : Graph Task :=
  { graph with stack := frame :: graph.stack }

def pop (graph : Graph Task) : Graph Task := { graph with stack := graph.stack.tail }

@[simp] theorem pop_push (graph : Graph Task) (frame : Option EffectId) :
    (graph.push frame).pop = graph := rfl

@[simp] theorem active?_push (graph : Graph Task) (frame : Option EffectId) :
    (graph.push frame).active? = frame := rfl

theorem isRunning_push (graph : Graph Task) (id : EffectId) :
    (graph.push (some id)).isRunning id = true := by
  simp [push, isRunning]

def countRun (graph : Graph Task) (id : EffectId) : Graph Task :=
  graph.modifyEffect id fun effect => { effect with runs := effect.runs + 1 }

def subscribers (graph : Graph Task) (target : TargetId) : Subscribers :=
  (graph.table.get? target).getD {}

/-- This function records that an effect depends on a key, at the first time only. -/
def subscribe (graph : Graph Task) (id : EffectId) (dependency : Dependency) : Graph Task :=
  let subscribers := graph.subscribers dependency.target
  if (subscribers.under dependency.key).contains id then graph
  else
    { graph with table := graph.table.put dependency.target (subscribers.add dependency.key id) }
      |>.modifyEffect id fun effect =>
        { effect with dependencies := effect.dependencies ++ [dependency] }

/-- A read is recorded for the active effect unless that was disposed. -/
def track (graph : Graph Task) (dependency : Dependency) : Graph Task :=
  match graph.active? with
  | none => graph
  | some id => if graph.isDisposed id then graph else graph.subscribe id dependency

/-- A write to a name concerns its own effects and those of any name, each once, by number. -/
def concerned (graph : Graph Task) (target : TargetId) (name : String) : List EffectId :=
  let subscribers := graph.subscribers target
  ascending (subscribers.under (.named name) ++ subscribers.any)

theorem pairwise_concerned (graph : Graph Task) (target : TargetId) (name : String) :
    (graph.concerned target name).Pairwise (· < ·) := pairwise_ascending _

theorem mem_concerned_iff (graph : Graph Task) (target : TargetId) (name : String) (id : EffectId) :
    id ∈ graph.concerned target name ↔
      id ∈ (graph.subscribers target).under (.named name) ∨
        id ∈ (graph.subscribers target).under .any := by
  rw [concerned, mem_ascending, List.mem_append]
  rfl

/-- This function takes an effect out of the set of one dependency. -/
def unsubscribe (graph : Graph Task) (id : EffectId) (dependency : Dependency) : Graph Task :=
  match graph.table.get? dependency.target with
  | none => graph
  | some subscribers =>
      { graph with
        table := graph.table.put dependency.target (subscribers.remove dependency.key id) }

/-- A disposed effect depends on nothing and never runs again. -/
def dispose (graph : Graph Task) (id : EffectId) : Graph Task :=
  match graph.effect? id with
  | none => graph
  | some effect =>
      if effect.disposed then graph
      else effect.dependencies.foldl (fun current dependency => current.unsubscribe id dependency)
        (graph.modifyEffect id fun effect => { effect with disposed := true, dependencies := [] })

/-- A released target leaves the table and the records of all its effects. -/
def release (graph : Graph Task) (target : TargetId) : Graph Task :=
  match graph.table.get? target with
  | none => graph
  | some subscribers =>
      subscribers.all.foldl (fun current id => current.modifyEffect id fun effect =>
          { effect with
            dependencies := effect.dependencies.filter fun dependency =>
              dependency.target ≠ target })
        { graph with table := graph.table.erase target }

def subscriberCount (graph : Graph Task) (target : TargetId) (key : Key) : Nat :=
  ((graph.subscribers target).under key).length

def hasTarget (graph : Graph Task) (target : TargetId) : Bool := graph.table.contains target

end Graph

end LiveMarkup
