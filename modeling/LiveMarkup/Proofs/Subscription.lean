import LiveMarkup.Reactive.Graph

/-
This file shows that the table of subscriptions and the dependencies of the effects tell the same.
-/

namespace LiveMarkup

namespace Subscribers

/-- An effect is added at the end of one list, and all other lists stay. -/
theorem under_add (subscribers : Subscribers) (key other : Key) (effect : EffectId) :
    (subscribers.add key effect).under other =
      if other = key then subscribers.under key ++ [effect] else subscribers.under other := by
  by_cases same : other = key
  · rw [if_pos same, same]
    cases key with
    | named name => simp [add, under]
    | any => rfl
  · rw [if_neg same]
    cases key with
    | any => cases other with
      | named name => rfl
      | any => exact absurd rfl same
    | named name => cases other with
      | any => rfl
      | named otherName =>
          have different : otherName ≠ name := fun equal => same (equal ▸ rfl)
          simp [add, under, Assoc.get?_put_of_ne _ _ different]

/-- An effect leaves one list, and all other lists stay. -/
theorem under_remove (subscribers : Subscribers) (key other : Key) (effect : EffectId) :
    (subscribers.remove key effect).under other =
      if other = key then (subscribers.under key).filter (· ≠ effect)
      else subscribers.under other := by
  by_cases same : other = key
  · rw [if_pos same, same]
    cases key with
    | any => rfl
    | named name =>
        unfold remove
        dsimp only
        split
        · rename_i empty
          rw [List.isEmpty_iff.mp empty]
          simp [under]
        · simp [under]
  · rw [if_neg same]
    cases key with
    | any => cases other with
      | named name => rfl
      | any => exact absurd rfl same
    | named name =>
        unfold remove
        dsimp only
        cases other with
        | any => split <;> rfl
        | named otherName =>
            have different : otherName ≠ name := fun equal => same (equal ▸ rfl)
            split
            · simp [under, Assoc.get?_erase_of_ne _ different]
            · simp [under, Assoc.get?_put_of_ne _ _ different]

theorem under_empty (key : Key) : ({} : Subscribers).under key = [] := by
  cases key <;> rfl

/-- Every effect under some key is among all effects. -/
theorem mem_all_of_mem_under {subscribers : Subscribers} {key : Key} {effect : EffectId}
    (member : effect ∈ subscribers.under key) : effect ∈ subscribers.all := by
  cases key with
  | any => exact List.mem_append_right _ member
  | named name =>
      refine List.mem_append_left _ (List.mem_flatMap.mpr ?_)
      have looked : ∀ entries : Dictionary (List EffectId),
          effect ∈ (entries.get? name).getD [] → ∃ entry ∈ entries, effect ∈ entry.2 := by
        intro entries
        induction entries with
        | nil => exact fun absent => by cases absent
        | cons entry rest inductionHypothesis =>
            intro found
            by_cases same : entry.1 = name
            · rw [Assoc.get?, if_pos same] at found
              exact ⟨entry, List.mem_cons_self, found⟩
            · rw [Assoc.get?, if_neg same] at found
              obtain ⟨chosen, listed, holds⟩ := inductionHypothesis found
              exact ⟨chosen, List.mem_cons_of_mem _ listed, holds⟩
      exact looked _ member

end Subscribers

namespace Graph

variable {Task : Type}

/-- These are the effects in the table under one dependency. -/
def subscribersOf (graph : Graph Task) (dependency : Dependency) : List EffectId :=
  (graph.subscribers dependency.target).under dependency.key

theorem mem_concerned (graph : Graph Task) (target : TargetId) (name : String) (id : EffectId) :
    id ∈ graph.concerned target name ↔
      id ∈ graph.subscribersOf ⟨target, .named name⟩ ∨ id ∈ graph.subscribersOf ⟨target, .any⟩ :=
  mem_concerned_iff graph target name id

theorem effect?_modifyEffect (graph : Graph Task) (id other : EffectId)
    (change : Effect Task → Effect Task) :
    (graph.modifyEffect id change).effect? other =
      if id = other then (graph.effect? other).map change else graph.effect? other := by
  simp [modifyEffect, effect?, Array.getElem?_modify]

theorem subscribersOf_modifyEffect (graph : Graph Task) (id : EffectId)
    (change : Effect Task → Effect Task) (dependency : Dependency) :
    (graph.modifyEffect id change).subscribersOf dependency = graph.subscribersOf dependency := rfl

/-- A new entry of the table concerns the dependencies on its target only. -/
theorem subscribersOf_put (graph : Graph Task) (target : TargetId) (subscribers : Subscribers)
    (dependency : Dependency) :
    ({ graph with table := graph.table.put target subscribers } : Graph Task).subscribersOf
        dependency =
      if dependency.target = target then subscribers.under dependency.key
      else graph.subscribersOf dependency := by
  unfold subscribersOf Graph.subscribers
  by_cases same : dependency.target = target
  · simp [same]
  · simp [same, Assoc.get?_put_of_ne _ _ same]

theorem subscribersOf_erase (graph : Graph Task) (target : TargetId) (dependency : Dependency) :
    ({ graph with table := graph.table.erase target } : Graph Task).subscribersOf dependency =
      if dependency.target = target then [] else graph.subscribersOf dependency := by
  unfold subscribersOf Graph.subscribers
  by_cases same : dependency.target = target
  · simp [same, Subscribers.under_empty]
  · simp [same, Assoc.get?_erase_of_ne _ same]

theorem subscribe_of_mem {graph : Graph Task} {id : EffectId} {dependency : Dependency}
    (known : id ∈ graph.subscribersOf dependency) : graph.subscribe id dependency = graph := by
  have contained := List.contains_iff_mem.mpr known
  unfold subscribersOf at contained
  unfold subscribe
  rw [if_pos contained]

theorem subscribe_of_not_mem {graph : Graph Task} {id : EffectId} {dependency : Dependency}
    (unknown : id ∉ graph.subscribersOf dependency) :
    graph.subscribe id dependency =
      ({ graph with
          table := graph.table.put dependency.target
            ((graph.subscribers dependency.target).add dependency.key id) } : Graph Task).modifyEffect
        id fun effect => { effect with dependencies := effect.dependencies ++ [dependency] } := by
  have absent := fun contained => unknown (List.contains_iff_mem.mp contained)
  unfold subscribersOf at absent
  unfold subscribe
  rw [if_neg absent]

/-- A subscription adds the effect to one set unless it is there. -/
theorem subscribersOf_subscribe (graph : Graph Task) (id : EffectId)
    (dependency other : Dependency) :
    (graph.subscribe id dependency).subscribersOf other =
      if other = dependency ∧ id ∉ graph.subscribersOf dependency then
        graph.subscribersOf dependency ++ [id]
      else graph.subscribersOf other := by
  by_cases known : id ∈ graph.subscribersOf dependency
  · rw [subscribe_of_mem known, if_neg fun both => both.2 known]
  · rw [subscribe_of_not_mem known, subscribersOf_modifyEffect, subscribersOf_put,
      Subscribers.under_add]
    by_cases same : other = dependency
    · subst same
      rw [if_pos rfl, if_pos rfl, if_pos ⟨rfl, known⟩]
      rfl
    · by_cases target : other.target = dependency.target
      · have key : other.key ≠ dependency.key := by
          intro equal
          cases other
          cases dependency
          simp_all
        simp [same, target, key, subscribersOf]
      · simp [same, target]

/-- A subscription appends to the dependencies of its effect unless it is known. -/
theorem effect?_subscribe (graph : Graph Task) (id other : EffectId) (dependency : Dependency) :
    (graph.subscribe id dependency).effect? other =
      if id = other ∧ id ∉ graph.subscribersOf dependency then
        (graph.effect? other).map fun effect =>
          { effect with dependencies := effect.dependencies ++ [dependency] }
      else graph.effect? other := by
  by_cases known : id ∈ graph.subscribersOf dependency
  · rw [subscribe_of_mem known, if_neg fun both => both.2 known]
  · rw [subscribe_of_not_mem known, effect?_modifyEffect]
    by_cases same : id = other
    · rw [if_pos same, if_pos ⟨same, known⟩]
      rfl
    · rw [if_neg same, if_neg fun both => same both.1]
      rfl

theorem stack_subscribe (graph : Graph Task) (id : EffectId) (dependency : Dependency) :
    (graph.subscribe id dependency).stack = graph.stack := by
  by_cases known : id ∈ graph.subscribersOf dependency
  · rw [subscribe_of_mem known]
  · rw [subscribe_of_not_mem known]
    rfl

/-- An effect leaves the set of one dependency. -/
theorem subscribersOf_unsubscribe (graph : Graph Task) (id : EffectId)
    (dependency other : Dependency) :
    (graph.unsubscribe id dependency).subscribersOf other =
      if other = dependency then (graph.subscribersOf dependency).filter (· ≠ id)
      else graph.subscribersOf other := by
  unfold unsubscribe
  cases found : graph.table.get? dependency.target with
  | none =>
      have empty : graph.subscribersOf dependency = [] := by
        unfold subscribersOf Graph.subscribers
        rw [found]
        exact Subscribers.under_empty _
      by_cases same : other = dependency
      · simp [same, empty]
      · simp [same]
  | some subscribers =>
      have known : graph.subscribers dependency.target = subscribers := by
        unfold Graph.subscribers
        rw [found]
        rfl
      simp only [subscribersOf_put, Subscribers.under_remove]
      by_cases same : other = dependency
      · simp [same, subscribersOf, known]
      · by_cases target : other.target = dependency.target
        · have key : other.key ≠ dependency.key := fun equal => same (by
            cases other; cases dependency; simp_all)
          simp [same, target, key, subscribersOf, known]
        · simp [same, target]

theorem effects_unsubscribe (graph : Graph Task) (id : EffectId) (dependency : Dependency) :
    (graph.unsubscribe id dependency).effects = graph.effects := by
  unfold unsubscribe
  split <;> rfl

theorem stack_unsubscribe (graph : Graph Task) (id : EffectId) (dependency : Dependency) :
    (graph.unsubscribe id dependency).stack = graph.stack := by
  unfold unsubscribe
  split <;> rfl

/-- An effect leaves the sets of all given dependencies. -/
theorem subscribersOf_unsubscribes (graph : Graph Task) (id : EffectId)
    (dependencies : List Dependency) (other : Dependency) :
    (dependencies.foldl (fun current dependency => current.unsubscribe id dependency)
        graph).subscribersOf other =
      if other ∈ dependencies then (graph.subscribersOf other).filter (· ≠ id)
      else graph.subscribersOf other := by
  induction dependencies generalizing graph with
  | nil => simp
  | cons first rest inductionHypothesis =>
      rw [List.foldl_cons, inductionHypothesis, subscribersOf_unsubscribe]
      by_cases same : other = first
      · subst same
        simp
      · simp [same]

theorem effects_unsubscribes (graph : Graph Task) (id : EffectId)
    (dependencies : List Dependency) :
    (dependencies.foldl (fun current dependency => current.unsubscribe id dependency)
        graph).effects = graph.effects := by
  induction dependencies generalizing graph with
  | nil => rfl
  | cons first rest inductionHypothesis =>
      rw [List.foldl_cons, inductionHypothesis, effects_unsubscribe]

theorem stack_unsubscribes (graph : Graph Task) (id : EffectId)
    (dependencies : List Dependency) :
    (dependencies.foldl (fun current dependency => current.unsubscribe id dependency)
        graph).stack = graph.stack := by
  induction dependencies generalizing graph with
  | nil => rfl
  | cons first rest inductionHypothesis =>
      rw [List.foldl_cons, inductionHypothesis, stack_unsubscribe]

/-- This function lets an effect forget its dependencies on a target. -/
def forgetting (target : TargetId) (effect : Effect Task) : Effect Task :=
  { effect with
    dependencies := effect.dependencies.filter fun dependency => dependency.target ≠ target }

theorem forgetting_forgetting (target : TargetId) (effect : Effect Task) :
    forgetting target (forgetting target effect) = forgetting target effect := by
  simp [forgetting]

/-- The listed effects forget a target, and all others stay. -/
theorem effect?_forget (graph : Graph Task) (target : TargetId) (ids : List EffectId)
    (other : EffectId) :
    (ids.foldl (fun current id => current.modifyEffect id (forgetting target)) graph).effect? other =
      if other ∈ ids then (graph.effect? other).map (forgetting target) else graph.effect? other := by
  induction ids generalizing graph with
  | nil => simp
  | cons first rest inductionHypothesis =>
      rw [List.foldl_cons, inductionHypothesis, effect?_modifyEffect]
      by_cases same : first = other
      · subst same
        have twice : (forgetting target ∘ forgetting target : Effect Task → Effect Task) =
            forgetting target := funext (forgetting_forgetting target)
        simp [twice]
      · have different : ¬ other = first := fun equal => same equal.symm
        simp [same, different]

theorem subscribersOf_forget (graph : Graph Task) (target : TargetId) (ids : List EffectId)
    (dependency : Dependency) :
    (ids.foldl (fun current id => current.modifyEffect id (forgetting target))
        graph).subscribersOf dependency = graph.subscribersOf dependency := by
  induction ids generalizing graph with
  | nil => rfl
  | cons first rest inductionHypothesis =>
      rw [List.foldl_cons, inductionHypothesis, subscribersOf_modifyEffect]

theorem stack_forget (graph : Graph Task) (target : TargetId) (ids : List EffectId) :
    (ids.foldl (fun current id => current.modifyEffect id (forgetting target)) graph).stack =
      graph.stack := by
  induction ids generalizing graph with
  | nil => rfl
  | cons first rest inductionHypothesis =>
      rw [List.foldl_cons, inductionHypothesis]
      rfl

theorem size_forget (graph : Graph Task) (target : TargetId) (ids : List EffectId) :
    (ids.foldl (fun current id => current.modifyEffect id (forgetting target)) graph).effects.size =
      graph.effects.size := by
  induction ids generalizing graph with
  | nil => rfl
  | cons first rest inductionHypothesis =>
      rw [List.foldl_cons, inductionHypothesis]
      simp [modifyEffect]

/-- A release empties the entry of its target. -/
theorem subscribersOf_release (graph : Graph Task) (target : TargetId) (dependency : Dependency) :
    (graph.release target).subscribersOf dependency =
      if dependency.target = target then [] else graph.subscribersOf dependency := by
  unfold release
  cases found : graph.table.get? target with
  | none =>
      by_cases same : dependency.target = target
      · rw [if_pos same]
        unfold subscribersOf Graph.subscribers
        rw [same, found]
        exact Subscribers.under_empty _
      · rw [if_neg same]
  | some subscribers =>
      have forgotten := subscribersOf_forget { graph with table := graph.table.erase target } target
        subscribers.all dependency
      exact forgotten.trans (subscribersOf_erase graph target dependency)

theorem stack_release (graph : Graph Task) (target : TargetId) :
    (graph.release target).stack = graph.stack := by
  unfold release
  cases graph.table.get? target with
  | none => rfl
  | some subscribers => exact stack_forget _ target _

theorem size_release (graph : Graph Task) (target : TargetId) :
    (graph.release target).effects.size = graph.effects.size := by
  unfold release
  cases graph.table.get? target with
  | none => rfl
  | some subscribers =>
      exact size_forget { graph with table := graph.table.erase target } target subscribers.all

/-- This function ends an effect. -/
def ended (effect : Effect Task) : Effect Task :=
  { effect with disposed := true, dependencies := [] }

/-- Only the disposed effect changes. -/
theorem effect?_dispose (graph : Graph Task) (id other : EffectId) :
    (graph.dispose id).effect? other =
      if id = other ∧ graph.isDisposed id = false then (graph.effect? other).map ended
      else graph.effect? other := by
  unfold dispose isDisposed
  cases found : graph.effect? id with
  | none =>
      by_cases same : id = other
      · simp [← same, found]
      · simp [same]
  | some effect =>
      cases disposed : effect.disposed with
      | true => simp [disposed]
      | false =>
          have kept : ∀ dependencies : List Dependency, ∀ current : Graph Task,
              (dependencies.foldl (fun current dependency => current.unsubscribe id dependency)
                current).effect? other = current.effect? other := by
            intro dependencies current
            unfold effect?
            rw [effects_unsubscribes]
          simp only [disposed, Bool.false_eq_true, if_false, Option.any_some, and_true]
          rw [kept, effect?_modifyEffect]
          rfl

theorem stack_dispose (graph : Graph Task) (id : EffectId) :
    (graph.dispose id).stack = graph.stack := by
  unfold dispose
  cases graph.effect? id with
  | none => rfl
  | some effect =>
      dsimp only
      split
      · rfl
      · exact stack_unsubscribes _ id _

theorem size_dispose (graph : Graph Task) (id : EffectId) :
    (graph.dispose id).effects.size = graph.effects.size := by
  unfold dispose
  cases graph.effect? id with
  | none => rfl
  | some effect =>
      dsimp only
      split
      · rfl
      · rw [effects_unsubscribes]
        simp [modifyEffect]

/-- The table and the dependencies agree, and disposed effects depend on nothing. -/
structure Agrees (graph : Graph Task) : Prop where
  listed : ∀ id dependency, id ∈ graph.subscribersOf dependency ↔
    ∃ effect, graph.effect? id = some effect ∧ dependency ∈ effect.dependencies
  disposed : ∀ id effect, graph.effect? id = some effect → effect.disposed = true →
    effect.dependencies = []

namespace Agrees

variable {graph : Graph Task}

theorem empty : ({} : Graph Task).Agrees where
  listed id dependency := by
    constructor
    · intro member
      rw [show ({} : Graph Task).subscribersOf dependency = [] from Subscribers.under_empty _] at member
      cases member
    · rintro ⟨effect, found, -⟩
      simp [effect?] at found
  disposed id effect found := by
    simp [effect?] at found

/-- The dependencies of a subscribed effect tell its subscription. -/
theorem mem_dependencies (agrees : graph.Agrees) {id : EffectId} {effect : Effect Task}
    (found : graph.effect? id = some effect) (dependency : Dependency) :
    id ∈ graph.subscribersOf dependency ↔ dependency ∈ effect.dependencies := by
  rw [agrees.listed]
  constructor
  · rintro ⟨other, same, member⟩
    rw [found] at same
    cases same
    exact member
  · exact fun member => ⟨effect, found, member⟩

/-- A release leaves each effect with its dependencies on other targets. -/
theorem effect?_release (agrees : graph.Agrees) (target : TargetId) (id : EffectId) :
    (graph.release target).effect? id = (graph.effect? id).map (forgetting target) := by
  have unconcerned : (∀ key, id ∉ graph.subscribersOf ⟨target, key⟩) →
      graph.effect? id = (graph.effect? id).map (forgetting target) := by
    intro absent
    cases found : graph.effect? id with
    | none => rfl
    | some effect =>
        have kept : effect.dependencies.filter (fun dependency => dependency.target ≠ target) =
            effect.dependencies := by
          refine List.filter_eq_self.mpr fun dependency member => ?_
          have other : dependency.target ≠ target := by
            intro same
            subst same
            exact absent dependency.key ((agrees.mem_dependencies found dependency).mpr member)
          simpa using other
        show some effect = some (forgetting target effect)
        unfold forgetting
        rw [kept]
  unfold release
  cases known : graph.table.get? target with
  | none =>
      refine unconcerned fun key member => ?_
      unfold subscribersOf Graph.subscribers at member
      rw [known] at member
      rw [show (Option.getD none {} : Subscribers) = {} from rfl, Subscribers.under_empty] at member
      cases member
  | some subscribers =>
      have forgotten := effect?_forget { graph with table := graph.table.erase target } target
        subscribers.all id
      refine forgotten.trans ?_
      by_cases member : id ∈ subscribers.all
      · rw [if_pos member]
        rfl
      · rw [if_neg member]
        refine unconcerned fun key listed => member ?_
        unfold subscribersOf Graph.subscribers at listed
        rw [known] at listed
        exact Subscribers.mem_all_of_mem_under listed

end Agrees

end Graph

end LiveMarkup
