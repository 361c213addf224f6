import LiveMarkup.Proofs.Attribution

/-
This file follows an effect along the moves of a graph, and through later worlds.
-/

namespace LiveMarkup

namespace Graph

variable {Task : Type}

/-- A release leaves an effect as it is, or lets it forget the target. -/
theorem effect?_release_or (graph : Graph Task) (target : TargetId) (id : EffectId) :
    (graph.release target).effect? id = graph.effect? id ∨
      (graph.release target).effect? id = (graph.effect? id).map (forgetting target) := by
  unfold release
  cases graph.table.get? target with
  | none => exact Or.inl rfl
  | some subscribers =>
      have forgotten := effect?_forget { graph with table := graph.table.erase target } target
        subscribers.all id
      by_cases member : id ∈ subscribers.all
      · rw [if_pos member] at forgotten
        exact Or.inr forgotten
      · rw [if_neg member] at forgotten
        exact Or.inl forgotten

/-- An effect keeps its label and its task, stays disposed, and forgets released targets only. Once it is disposed
it runs no more. -/
structure Continues (freed : TargetId → Prop) (before after : Effect Task) : Prop where
  label : after.label = before.label
  task : after.task = before.task
  disposed : before.disposed = true → after.disposed = true
  stilled : before.disposed = true → after.runs = before.runs
  dependencies : after.disposed = false → ∀ dependency ∈ before.dependencies,
    ¬ freed dependency.target → dependency ∈ after.dependencies

namespace Continues

variable {freed : TargetId → Prop}

theorem refl (effect : Effect Task) : Continues freed effect effect :=
  ⟨rfl, rfl, fun gone => gone, fun _ => rfl, fun _ _ listed _ => listed⟩

theorem trans {first second third : Effect Task} (early : Continues freed first second)
    (late : Continues freed second third) : Continues freed first third where
  label := late.label.trans early.label
  task := late.task.trans early.task
  disposed gone := late.disposed (early.disposed gone)
  stilled gone := (late.stilled (early.disposed gone)).trans (early.stilled gone)
  dependencies lasting dependency listed kept := by
    have before : second.disposed = false := by
      cases gone : second.disposed with
      | false => rfl
      | true =>
          rw [late.disposed gone] at lasting
          cases lasting
    exact late.dependencies lasting dependency (early.dependencies before dependency listed kept) kept

theorem mono {more : TargetId → Prop} {before after : Effect Task}
    (continues : Continues freed before after) (widen : ∀ target, freed target → more target) :
    Continues more before after where
  label := continues.label
  task := continues.task
  disposed := continues.disposed
  stilled := continues.stilled
  dependencies lasting dependency listed kept :=
    continues.dependencies lasting dependency listed fun gone => kept (widen _ gone)

end Continues

/-- An allowed move lets each effect continue. -/
theorem effect?_moved {graph : Graph Task} {id : EffectId} {effect : Effect Task}
    (move : Move Task) (allowed : graph.Allows move) (found : graph.effect? id = some effect) :
    ∃ newer, (graph.moved move).effect? id = some newer ∧
      Continues (fun target => move = .released target) effect newer := by
  cases move with
  | created label task captures =>
      have below : id ≠ graph.effects.size := Nat.ne_of_lt (Array.getElem?_eq_some_iff.mp found).1
      refine ⟨effect, ?_, .refl effect⟩
      show (graph.create label task captures).2.effect? id = some effect
      rw [effect?_create, if_neg below, found]
  | entered frame =>
      cases frame with
      | none => exact ⟨effect, found, .refl effect⟩
      | some entered =>
          show ∃ newer, ((graph.push (some entered)).countRun entered).effect? id = some newer ∧ _
          rw [effect?_countRun, show (graph.push (some entered)).effect? id = some effect from found]
          split
          · rename_i same
            obtain ⟨known, looked, lasting, -⟩ := allowed
            rw [same, found] at looked
            cases looked
            exact ⟨_, rfl, rfl, rfl, fun gone => gone,
              fun gone => absurd (lasting.symm.trans gone) Bool.false_ne_true,
              fun _ _ listed _ => listed⟩
          · exact ⟨_, rfl, .refl effect⟩
  | left => exact ⟨effect, found, .refl effect⟩
  | tracked dependency =>
      show ∃ newer, (graph.track dependency).effect? id = some newer ∧ _
      rcases track_eq graph dependency with ⟨same, -⟩ | ⟨reader, -, -, subscribed⟩
      · rw [same]
        exact ⟨effect, found, .refl effect⟩
      · rw [subscribed, effect?_subscribe, found]
        split
        · exact ⟨_, rfl, rfl, rfl, fun gone => gone, fun _ => rfl,
            fun _ _ listed _ => List.mem_append_left _ listed⟩
        · exact ⟨_, rfl, .refl effect⟩
  | disposed disposed =>
      show ∃ newer, (graph.dispose disposed).effect? id = some newer ∧ _
      rw [effect?_dispose, found]
      split
      · refine ⟨_, rfl, rfl, rfl, fun _ => rfl, fun _ => rfl, fun lasting => ?_⟩
        cases lasting
      · exact ⟨_, rfl, .refl effect⟩
  | released target =>
      show ∃ newer, (graph.release target).effect? id = some newer ∧ _
      rcases effect?_release_or graph target id with same | forgotten
      · rw [same]
        exact ⟨effect, found, .refl effect⟩
      · rw [forgotten, found]
        refine ⟨_, rfl, rfl, rfl, fun gone => gone, fun _ => rfl, fun _ dependency listed kept => ?_⟩
        have other : dependency.target ≠ target := fun equal => kept (by rw [equal])
        exact List.mem_filter.mpr ⟨listed, by simpa using other⟩

theorem Path.effect? {start finish : Graph Task} {moves : List (Move Task)}
    (path : Path start moves finish) {id : EffectId} {effect : Effect Task}
    (found : start.effect? id = some effect) :
    ∃ newer, finish.effect? id = some newer ∧
      Continues (fun target => .released target ∈ moves) effect newer := by
  induction path with
  | here => exact ⟨effect, found, .refl effect⟩
  | step move _ allowed inductionHypothesis =>
      obtain ⟨newer, known, continues⟩ := inductionHypothesis
      obtain ⟨newest, reached, last⟩ := effect?_moved move allowed known
      refine ⟨newest, reached, Continues.trans (continues.mono ?_) (last.mono ?_)⟩
      · exact fun _ member => List.mem_cons_of_mem move member
      · exact fun _ same => List.mem_cons.mpr (Or.inl same.symm)

end Graph

namespace World

/-- All that happened to the effects of a world is a path from the beginning. -/
def Reachable (world : World) : Prop := ∃ moves, Graph.Path {} moves world.graph

/-- An effect depends on a key, unless it is disposed. -/
def Depends (world : World) (id : EffectId) (dependency : Dependency) : Prop :=
  ∃ effect, world.graph.effect? id = some effect ∧
    (effect.disposed = false → dependency ∈ effect.dependencies)

/-- This is the label of an effect, if there is such an effect. -/
def labelOf? (world : World) (id : EffectId) : Option String :=
  (world.graph.effect? id).map Effect.label

variable {before after : World}

theorem Later.reachable (later : before.Later after) (reachable : before.Reachable) :
    after.Reachable := by
  obtain ⟨moves, path⟩ := reachable
  obtain ⟨newer, continued, -⟩ := later.moves
  exact ⟨newer ++ moves, path.append continued⟩

theorem Later.hasTask (later : before.Later after) {id : EffectId} {task : Task}
    (has : before.HasTask id task) : after.HasTask id task := by
  obtain ⟨effect, found, same⟩ := has
  obtain ⟨moves, path, -⟩ := later.moves
  obtain ⟨newer, known, continues⟩ := path.effect? found
  exact ⟨newer, known, continues.task.trans same⟩

theorem Later.labelOf? (later : before.Later after) {id : EffectId} {label : String}
    (labelled : before.labelOf? id = some label) : after.labelOf? id = some label := by
  obtain ⟨effect, found, same⟩ := Option.map_eq_some_iff.mp labelled
  obtain ⟨moves, path, -⟩ := later.moves
  obtain ⟨newer, known, continues⟩ := path.effect? found
  exact Option.map_eq_some_iff.mpr ⟨newer, known, continues.label.trans same⟩

theorem HasTask.entered {world : World} {frame : Option EffectId}
    (allowed : world.graph.Allows (.entered frame)) {id : EffectId} {task : Task}
    (has : world.HasTask id task) : (world.entered frame).HasTask id task := by
  obtain ⟨effect, found, same⟩ := has
  obtain ⟨newer, known, continues⟩ := Graph.effect?_moved _ allowed found
  exact ⟨newer, known, continues.task.trans same⟩

/-- A disposed effect stays disposed. -/
theorem Later.isDisposed (later : before.Later after) {id : EffectId}
    (disposed : before.graph.isDisposed id = true) : after.graph.isDisposed id = true := by
  unfold Graph.isDisposed at disposed ⊢
  cases found : before.graph.effect? id with
  | none => simp [found] at disposed
  | some effect =>
      obtain ⟨moves, path, -⟩ := later.moves
      obtain ⟨newer, known, continues⟩ := path.effect? found
      rw [found] at disposed
      rw [known]
      exact continues.disposed disposed

theorem Later.depends (later : before.Later after) {id : EffectId} {dependency : Dependency}
    (depends : before.Depends id dependency) (kept : ¬ before.Frees after dependency.target) :
    after.Depends id dependency := by
  obtain ⟨effect, found, listed⟩ := depends
  obtain ⟨moves, path, frees⟩ := later.moves
  obtain ⟨newer, known, continues⟩ := path.effect? found
  refine ⟨newer, known, fun lasting => continues.dependencies lasting dependency (listed ?_) ?_⟩
  · cases gone : effect.disposed with
    | false => rfl
    | true =>
        rw [continues.disposed gone] at lasting
        cases lasting
  · exact fun member => kept (frees _ member)

end World

end LiveMarkup
