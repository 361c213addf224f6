import LiveMarkup.Proofs.Wiring

/-
This file says what a write does if only bindings without calls depend on what is written: it comes to an
end, nothing ends with it, and certain inputs show what the store says.
-/

namespace LiveMarkup

open Live

namespace Forest

variable {forest first second third : Forest Handler} {id : NodeId}

/-- Bindings drew some nodes anew. Listeners stayed, no node got a parent, and certain nodes have the
value that they had, or else this one. -/
structure Redrawn (nodes : NodeId → Prop) (text : String) (before after : Forest Handler) : Prop where
  size : before.size ≤ after.size
  handlers : ∀ id : Nat, id < before.size → after.handlersAt id = before.handlersAt id
  parents : ∀ id parent : Nat, id < before.size → after.parent? id = some parent →
    before.parent? id = some parent
  values : ∀ id : Nat, nodes id → id < before.size →
    after.value id = before.value id ∨ after.value id = text

namespace Redrawn

variable {nodes : NodeId → Prop} {text : String}

theorem refl (forest : Forest Handler) : forest.Redrawn nodes text forest :=
  ⟨Nat.le_refl _, fun _ _ => rfl, fun _ _ _ found => found, fun _ _ _ => Or.inl rfl⟩

theorem trans (early : first.Redrawn nodes text second) (late : second.Redrawn nodes text third) :
    first.Redrawn nodes text third where
  size := Nat.le_trans early.size late.size
  handlers id known :=
    (late.handlers id (Nat.lt_of_lt_of_le known early.size)).trans (early.handlers id known)
  parents id parent known found := early.parents id parent known
    (late.parents id parent (Nat.lt_of_lt_of_le known early.size) found)
  values id member known := by
    rcases late.values id member (Nat.lt_of_lt_of_le known early.size) with kept | new
    · rw [kept]
      exact early.values id member known
    · exact Or.inr new

theorem setTextContent (forest : Forest Handler) (id : NodeId) (shown : String) :
    forest.Redrawn nodes text (forest.setTextContent id shown) where
  size := size_setTextContent forest id shown
  handlers _ known := handlersAt_setTextContent known shown
  parents _ _ known found := parent?_of_setTextContent known found
  values _ _ known := Or.inl (value_setTextContent known shown)

theorem refreshValue (forest : Forest Handler) {node : NodeId} {shown : String}
    (agrees : nodes node → shown = text) :
    forest.Redrawn nodes text (forest.refreshValue node shown) where
  size := by
    unfold Forest.refreshValue
    split
    · exact Nat.le_of_eq (size_setValue forest node shown).symm
    · exact Nat.le_refl _
  handlers _ _ := handlersAt_refreshValue shown
  parents _ _ _ found := (parent?_refreshValue shown).symm.trans found
  values id member _ := by
    cases found : forest.element? node with
    | none =>
        have same : forest.refreshValue node shown = forest := by
          unfold Forest.refreshValue setValue modifyElement
          rw [found]
          exact ite_self forest
        exact Or.inl (congrArg (Forest.value · id) same)
    | some element =>
        rw [value_refreshValue found]
        split
        · rename_i same
          exact Or.inr (agrees (same ▸ member))
        · exact Or.inl rfl

end Redrawn

/-- What hears something is an element. -/
theorem element?_of_handlersAt (hears : forest.handlersAt id ≠ []) :
    ∃ element, forest.element? id = some element := by
  unfold handlersAt at hears
  cases found : forest.element? id with
  | none =>
      rw [found] at hears
      exact absurd rfl hears
  | some element => exact ⟨element, rfl⟩

end Forest

/-- A binding of a state shows an expression without calls. At certain nodes it shows one key only. -/
inductive Task.Reflects (state : TargetId) (key : String) (nodes : NodeId → Prop) : Task → Prop where
  | site (site : Site) (free : site.isCallFree = true) : Reflects state key nodes (site.task state)
  | input (node : NodeId) (source : String) (free : Expr.isCallFreeSource source = true)
      (agrees : nodes node → source = key) : Reflects state key nodes (.valueBinding state node source)

namespace World

/-- Bindings ran from one world to the other, and nothing ended. Holds may have gone. -/
structure Mild (state : TargetId) (before after : World) : Prop where
  undisturbed : before.Undisturbed after
  later : before.Later after
  store : after.store? state = before.store? state
  deeds : ∃ newer, after.deeds = newer ++ before.deeds ∧ ∀ deed ∈ newer, deed.isShow = true
  names : after.names = before.names

namespace Mild

variable {state : TargetId} {first second third : World}

theorem refl (state : TargetId) (world : World) : world.Mild state world :=
  ⟨.refl world, .refl world, rfl, ⟨[], rfl, fun _ impossible => by cases impossible⟩, rfl⟩

theorem trans (early : first.Mild state second) (late : second.Mild state third) :
    first.Mild state third where
  undisturbed := early.undisturbed.trans late.undisturbed
  later := early.later.trans late.later
  store := late.store.trans early.store
  deeds := by
    obtain ⟨newer, appended, shows⟩ := early.deeds
    obtain ⟨newest, continued, showsLast⟩ := late.deeds
    refine ⟨newest ++ newer, by rw [continued, appended, List.append_assoc], fun deed member => ?_⟩
    rcases List.mem_append.mp member with last | before
    · exact showsLast deed last
    · exact shows deed before
  names := late.names.trans early.names

theorem of_gentle (gentle : first.Gentle state second) (undisturbed : first.Undisturbed second)
    (alive : first.isAlive state = true) : first.Mild state second where
  undisturbed := undisturbed
  later := gentle.later
  store := gentle.store ((undisturbed.isAlive state).trans alive)
  deeds := gentle.deeds
  names := gentle.names

theorem holds (world : World) (holds : List Hold) : world.Mild state { world with holds } where
  undisturbed := .of_same rfl rfl rfl rfl
  later := later_holds world holds
  store := rfl
  deeds := ⟨[], rfl, fun _ impossible => by cases impossible⟩
  names := rfl

theorem alive (mild : first.Mild state second) (alive : first.isAlive state = true) :
    second.isAlive state = true := (mild.undisturbed.isAlive state).trans alive

theorem depends (mild : first.Mild state second) (alive : first.isAlive state = true) {id : EffectId}
    {name : String} (depends : first.Depends id ⟨state, .named name⟩) :
    second.Depends id ⟨state, .named name⟩ :=
  mild.later.depends_of_shows mild.deeds (mild.alive alive) depends

end Mild

/-- Bindings of a state may run: all that lives is kept, and no effect is running. -/
structure Poised (state : TargetId) (store : Store) (world : World) : Prop where
  settled : world.Settled
  reachable : world.Reachable
  idle : ∀ id, some id ∉ world.graph.stack
  found : world.store? state = some store
  alive : store.alive = true

namespace Poised

variable {state : TargetId} {store : Store} {before after : World}

theorem isAlive (poised : before.Poised state store) : before.isAlive state = true := by
  unfold World.isAlive
  rw [poised.found]
  exact poised.alive

theorem later (poised : before.Poised state store) (mild : before.Mild state after) :
    after.Poised state store where
  settled := mild.undisturbed.settled poised.settled
  reachable := mild.later.reachable poised.reachable
  idle id := by
    rw [mild.undisturbed.graph.stack]
    exact poised.idle id
  found := mild.store.trans poised.found
  alive := poised.alive

end Poised

/-- Some effects had their turns, and no other effect subscribed. An effect that shows a key at certain
nodes has given them this value. -/
structure Updated (state : TargetId) (key : String) (nodes : NodeId → Prop) (text : String)
    (ids : List EffectId) (before after : World) : Prop where
  mild : before.Mild state after
  others : ∀ id ∉ ids, Graph.GainsNothing id before.graph after.graph
  redrawn : before.forest.Redrawn nodes text after.forest
  shown : ∀ id ∈ ids, ∀ node : Nat, nodes node → before.forest.handlersAt node ≠ [] →
    before.HasTask id (.valueBinding state node key) → before.graph.isDisposed id = false →
    after.forest.value node = text

namespace Updated

variable {state : TargetId} {key : String} {nodes : NodeId → Prop} {text : String}
  {ids more : List EffectId} {first second third : World}

theorem of_same {before after : World} (mild : before.Mild state after) (graph : after.graph = before.graph)
    (forest : after.forest = before.forest) : before.Updated state key nodes text [] after where
  mild := mild
  others id _ := by
    rw [graph]
    exact .refl id _
  redrawn := by
    rw [forest]
    exact .refl _
  shown _ impossible := by cases impossible

theorem trans (early : first.Updated state key nodes text ids second)
    (late : second.Updated state key nodes text more third) :
    first.Updated state key nodes text (ids ++ more) third where
  mild := early.mild.trans late.mild
  others id absent := by
    rw [List.mem_append, not_or] at absent
    exact (early.others id absent.1).trans (late.others id absent.2)
  redrawn := early.redrawn.trans late.redrawn
  shown id member node tied hears has lasting := by
    obtain ⟨element, found⟩ := Forest.element?_of_handlersAt hears
    have known := Forest.lt_size_of_element? found
    rcases List.mem_append.mp member with old | new
    · have before := early.shown id old node tied hears has lasting
      rcases late.redrawn.values node tied (Nat.lt_of_lt_of_le known early.redrawn.size) with kept | new
      · exact kept.trans before
      · exact new
    · refine late.shown id new node tied ?_ (early.mild.later.hasTask has)
        ((early.mild.undisturbed.isDisposed id).trans lasting)
      rw [early.redrawn.handlers node known]
      exact hears

theorem holds (updated : first.Updated state key nodes text ids second) (holds : List Hold) :
    first.Updated state key nodes text ids { second with holds } where
  mild := updated.mild.trans (.holds second holds)
  others := updated.others
  redrawn := updated.redrawn
  shown := updated.shown

end Updated

variable (depth : Nat) {state : TargetId} {store : Store} {key : String} {nodes : NodeId → Prop}
  {world : World}

/-- A binding that has its turn shows what the store says, unless it is disposed. -/
theorem updated_runEffect {id : EffectId} {task : Task} (poised : world.Poised state store)
    (has : world.HasTask id task) (reflects : task.Reflects state key nodes) :
    ∃ after, runEffect (runTo (depth + 1)) id world = .ok () after ∧
      world.Updated state key nodes (store.evaluateText key).2 [id] after := by
  obtain ⟨effect, known, same⟩ := has
  have idle : world.graph.isRunning id = false := by
    simpa [Graph.isRunning] using poised.idle id
  have updated : ∀ {names : List String} {change : Forest Handler → Forest Handler} {after : World},
      world.Refreshed state id names change after →
      world.forest.Redrawn nodes (store.evaluateText key).2 (change world.forest) →
      (∀ node : Nat, nodes node → world.forest.handlersAt node ≠ [] →
        task = .valueBinding state node key →
        (change world.forest).value node = (store.evaluateText key).2) →
      world.Updated state key nodes (store.evaluateText key).2 [id] after := by
    intro names change after refreshed redrawn shown
    have undisturbed := refreshed.undisturbed poised.settled
    refine ⟨.of_gentle refreshed.gentle undisturbed poised.isAlive, ?_, refreshed.forest ▸ redrawn, ?_⟩
    · intro other absent
      exact refreshed.others other fun same => absent (same ▸ List.mem_singleton_self id)
    · intro other member node tied hears has _
      cases List.mem_singleton.mp member
      obtain ⟨found, looked, binds⟩ := has
      cases known.symm.trans looked
      rw [refreshed.forest]
      exact shown node tied hears (same.symm.trans binds)
  cases gone : effect.disposed with
  | true =>
      refine ⟨world, ?_, .refl state world, fun other _ => .refl other _, .refl _, ?_⟩
      · rw [runEffect_apply _ known, gone]
        rfl
      · intro other member node _ _ _ lasting
        cases List.mem_singleton.mp member
        unfold Graph.isDisposed at lasting
        rw [known, Option.any_some, gone] at lasting
        cases lasting
  | false =>
      cases reflects with
      | site site free =>
          obtain ⟨after, runs, refreshed⟩ := refreshed_runEffect depth known same gone idle poised.found
            poised.alive free poised.reachable
          refine ⟨after, runs, updated refreshed (.setTextContent _ _ _) ?_⟩
          intro node _ _ impossible
          unfold Site.task at impossible
          split at impossible <;> cases impossible
      | input node source free agrees =>
          obtain ⟨after, runs, refreshed⟩ := refreshed_valueBinding depth known same gone idle
            poised.found poised.alive free poised.reachable
          refine ⟨after, runs, updated refreshed (.refreshValue _ fun tied => by rw [agrees tied]) ?_⟩
          intro other tied hears binds
          cases binds
          obtain ⟨element, found⟩ := Forest.element?_of_handlersAt hears
          rw [Forest.value_refreshValue found, if_pos rfl]

/-- Bindings have their turns one after the other. -/
theorem updated_runInTurn {ids : List EffectId} (poised : world.Poised state store)
    (tasks : ∀ id ∈ ids, ∃ task, world.HasTask id task ∧ task.Reflects state key nodes) :
    ∃ after, runInTurn (runTo (depth + 1)) ids world = .ok () after ∧
      world.Updated state key nodes (store.evaluateText key).2 ids after := by
  induction ids generalizing world with
  | nil => exact ⟨world, rfl, .of_same (.refl state world) rfl rfl⟩
  | cons id rest inductionHypothesis =>
      obtain ⟨task, has, reflects⟩ := tasks id List.mem_cons_self
      obtain ⟨between, runs, turn⟩ := updated_runEffect depth poised has reflects
      let released : World := { between with holds := between.holds.erase (.effect id) }
      have turned : world.Updated state key nodes (store.evaluateText key).2 [id] released := turn.holds _
      have still := poised.later turned.mild
      have lets : letGo id between = .ok () released := by
        show EStateM.Result.ok () released.collect = _
        rw [collect_eq_self still.settled]
      obtain ⟨after, others, later⟩ := inductionHypothesis still fun other member => by
        obtain ⟨task, has, reflects⟩ := tasks other (List.mem_cons_of_mem _ member)
        exact ⟨task, turned.mild.later.hasTask has, reflects⟩
      refine ⟨after, ?_, turned.trans later⟩
      unfold runInTurn
      rw [bind_of_ok runs, bind_of_ok lets]
      exact others

/-- A notification of bindings comes to an end. -/
theorem updated_trigger (poised : world.Poised state store)
    (tasks : ∀ id ∈ world.graph.concerned state key,
      ∃ task, world.HasTask id task ∧ task.Reflects state key nodes) :
    ∃ after, trigger (runTo (depth + 1)) state key world = .ok () after ∧
      world.Updated state key nodes (store.evaluateText key).2 (world.graph.concerned state key) after := by
  have graph := graph_notifying world state key
  have announced : world.Updated state key nodes (store.evaluateText key).2 []
      (world.notifying state key) := by
    refine .of_same ?_ graph ?_
    · unfold notifying
      dsimp only
      split
      · exact .holds world _
      · have noted : world.Mild state (world.note
            (.changed key (number state) (world.graph.concerned state key))) :=
          .of_gentle (.note world _) (.of_same rfl rfl rfl rfl) poised.isAlive
        exact noted.trans (.holds _ _)
    · unfold notifying
      dsimp only
      split <;> rfl
  obtain ⟨after, runs, updated⟩ := updated_runInTurn depth (poised.later announced.mild)
    (fun id member => by
      obtain ⟨task, has, reflects⟩ := tasks id member
      exact ⟨task, announced.mild.later.hasTask has, reflects⟩)
  have whole := (announced.trans updated).holds world.holds
  rw [List.nil_append] at whole
  refine ⟨{ after with holds := world.holds }, ?_, whole⟩
  rw [trigger_apply]
  unfold ending
  rw [runs]
  show EStateM.Result.ok () { after with holds := world.holds }.collect = _
  rw [collect_eq_self (poised.later whole.mild).settled]

end World

end LiveMarkup
