import LiveMarkup.Proofs.Continuing

/-
This file shows that a disposal is final. Whatever happens later, a disposed effect depends on
nothing and runs no more.
-/

namespace LiveMarkup

namespace Graph

variable {Task : Type} {graph : Graph Task}

/-- An effect is over when it is disposed, has no dependencies and is in no set of the table. It has
run as often as is said. -/
structure Over (graph : Graph Task) (id : EffectId) (runs : Nat) : Prop where
  ended : ∃ effect, graph.effect? id = some effect ∧ effect.disposed = true ∧
    effect.dependencies = [] ∧ effect.runs = runs
  unlisted : ∀ dependency, id ∉ graph.subscribersOf dependency

/-- Where both sides agree, a disposed effect is over. -/
theorem Agrees.over (agrees : graph.Agrees) {id : EffectId} {effect : Effect Task}
    (found : graph.effect? id = some effect) (disposed : effect.disposed = true) :
    graph.Over id effect.runs where
  ended := ⟨effect, found, disposed, agrees.disposed id effect found disposed, rfl⟩
  unlisted dependency listed := by
    have member := (agrees.mem_dependencies found dependency).mp listed
    rw [agrees.disposed id effect found disposed] at member
    cases member

/-- A disposal ends the effect, or finds it ended. -/
theorem effect?_dispose_self (graph : Graph Task) {id : EffectId} {effect : Effect Task}
    (found : graph.effect? id = some effect) :
    ∃ gone, (graph.dispose id).effect? id = some gone ∧ gone.disposed = true ∧
      gone.runs = effect.runs := by
  rw [effect?_dispose, found]
  cases disposed : effect.disposed with
  | true => exact ⟨effect, by simp [isDisposed, found, disposed], disposed, rfl⟩
  | false => exact ⟨Graph.ended effect, by simp [isDisposed, found, disposed], rfl, rfl⟩

/-- What is over stays over on every further path. -/
theorem Over.path {start finish : Graph Task} {earlier later : List (Move Task)} {id : EffectId}
    {runs : Nat} (past : start.Over id runs) (before : Path {} earlier start)
    (path : Path start later finish) : finish.Over id runs := by
  obtain ⟨effect, found, disposed, -, counted⟩ := past.ended
  obtain ⟨newer, known, continues⟩ := path.effect? found
  have final := (before.append path).recorded.agrees.over known (continues.disposed disposed)
  rw [continues.stilled disposed, counted] at final
  exact final

end Graph

namespace World

variable {world after : World} {id : EffectId} {runs : Nat}

theorem Later.over (later : world.Later after) (reachable : world.Reachable)
    (past : world.graph.Over id runs) : after.graph.Over id runs := by
  obtain ⟨moves, path⟩ := reachable
  obtain ⟨newer, continued, -⟩ := later.moves
  exact past.path path continued

/-- An effect that is disposed already is left alone. -/
theorem graph_disposeEffect (world : World) (id : EffectId) :
    (world.disposeEffect id).graph = world.graph.dispose id := by
  unfold disposeEffect Graph.dispose
  cases world.graph.effect? id with
  | none => rfl
  | some effect =>
      dsimp only
      split <;> rfl

theorem over_disposeEffect (reachable : world.Reachable) {effect : Effect Task}
    (found : world.graph.effect? id = some effect) :
    (world.disposeEffect id).graph.Over id effect.runs := by
  obtain ⟨gone, known, disposed, counted⟩ := world.graph.effect?_dispose_self found
  obtain ⟨moves, path⟩ := (later_disposeEffect world id).reachable reachable
  rw [← graph_disposeEffect] at known
  exact counted ▸ path.recorded.agrees.over known disposed

/-- Each of the effects is over when all of them are disposed one after the other. -/
theorem over_foldl_disposeEffect (ids : List EffectId) (reachable : world.Reachable)
    {effect : Effect Task} (found : world.graph.effect? id = some effect) (listed : id ∈ ids) :
    (ids.foldl disposeEffect world).graph.Over id effect.runs := by
  induction ids generalizing world with
  | nil => cases listed
  | cons first rest inductionHypothesis =>
      rw [List.foldl_cons]
      have disposed := later_disposeEffect world first
      by_cases same : first = id
      · subst same
        exact (later_foldl later_disposeEffect _ rest).over (disposed.reachable reachable)
          (over_disposeEffect reachable found)
      · have waits := (List.mem_cons.mp listed).resolve_left (Ne.symm same)
        refine inductionHypothesis (disposed.reachable reachable) ?_ waits
        rw [graph_disposeEffect, Graph.effect?_dispose, if_neg fun both => same both.1]
        exact found

theorem over_disposeBindings {bindings : Bindings} (reachable : world.Reachable)
    {effect : Effect Task} (found : world.graph.effect? id = some effect)
    (listed : id ∈ bindings.effects) :
    (world.disposeBindings bindings).graph.Over id effect.runs := by
  have past := over_foldl_disposeEffect bindings.effects reachable found listed
  unfold disposeBindings
  dsimp only
  split
  · exact past
  · exact past

end World

/-- A disposed effect is left alone by whoever runs it. -/
theorem Live.runEffect_of_isDisposed (run : Runner) {id : EffectId} {world : World}
    (disposed : world.graph.isDisposed id = true) : runEffect run id world = .ok () world := by
  unfold Graph.isDisposed at disposed
  unfold runEffect
  rw [get_bind]
  cases found : world.graph.effect? id with
  | none => rfl
  | some effect =>
      rw [found] at disposed
      have gone : effect.disposed = true := disposed
      dsimp only
      rw [if_pos gone]
      rfl

/-- An effect that is disposed anywhere on a path is over in each later graph. Each way to dispose an
effect brings this about, all code of a world leaves it so, and running the effect does nothing. -/
theorem disposal_is_final :
    (∀ (moves later : List (Graph.Move Task)) (graph final : Graph Task) id effect,
      Graph.Path {} moves graph → graph.effect? id = some effect →
      Graph.Path (graph.moved (.disposed id)) later final → final.Over id effect.runs) ∧
    (∀ (world : World) id effect, world.Reachable → world.graph.effect? id = some effect →
      (Live.worldAfter (Live.disposeEffect id) world).graph.Over id effect.runs ∧
      ∀ bindings : Bindings, id ∈ bindings.effects →
        (Live.worldAfter (Live.disposeBindings bindings) world).graph.Over id effect.runs) ∧
    (∀ (world : World) id runs, world.Reachable → world.graph.Over id runs →
      (∀ depth activity,
        (Live.worldAfter (Live.runTo depth activity) world).graph.Over id runs) ∧
      (∀ depth arguments command,
        (Live.worldAfter (Live.perform (Live.runTo depth) arguments command) world).graph.Over id
          runs) ∧
      (∀ commands, (world.play commands).2.graph.Over id runs) ∧
      ∀ run, Live.runEffect run id world = .ok () world) := by
  refine ⟨?_, ?_, ?_⟩
  · intro moves later graph final id effect path found further
    obtain ⟨gone, known, disposed, counted⟩ := graph.effect?_dispose_self found
    have ended := path.step (.disposed id) trivial
    have past := ended.recorded.agrees.over known disposed
    exact counted ▸ past.path ended further
  · intro world id effect reachable found
    constructor
    · have disposed := (World.later_disposeEffect world id).reachable reachable
      exact (World.later_collect _).over disposed (World.over_disposeEffect reachable found)
    · intro bindings listed
      have disposed := (World.later_disposeBindings world bindings).reachable reachable
      exact (World.later_collect _).over disposed
        (World.over_disposeBindings reachable found listed)
  · intro world id runs reachable past
    refine ⟨?_, ?_, ?_, ?_⟩
    · exact fun depth activity => (World.later_activity depth activity world).over reachable past
    · exact fun depth arguments command =>
        (World.later_perform depth arguments command world).over reachable past
    · exact fun commands => (world.later_play commands).over reachable past
    · intro run
      obtain ⟨effect, found, disposed, -⟩ := past.ended
      exact Live.runEffect_of_isDisposed run (by simp [Graph.isDisposed, found, disposed])

/-- An effect starts and reads a name. -/
def readingEffect : List (Graph.Move Task) :=
  [.tracked ⟨0, .named "a"⟩, .entered (some 0), .created "effect" (.script "effect" []) []]

/-- The effect reads on after its disposal until it ends, and its target is released. -/
def furtherReads : List (Graph.Move Task) :=
  [.released 0, .left, .tracked ⟨0, .any⟩, .tracked ⟨0, .named "a"⟩]

/-- An effect reads, disposes itself, and reads on. -/
def selfDisposal : List Command :=
  [.state (.createEmpty "s"),
    .createEffect "effect"
      [.state (.get "s" "a"), .effect .disposeActive, .state (.get "s" "b")] {}]

/-- Writes and a direct run do not run it again. -/
def furtherWrites : List Command :=
  [.state (.set "s" "a" (.integer 1)), .state (.set "s" "b" (.integer 1)), .effect (.run "effect")]

theorem over_of_furtherReads :
    (∃ final, Graph.Path ((Graph.replay readingEffect).moved (.disposed 0)) furtherReads final ∧
      final.Over 0 1) ∧
    (World.empty.play selfDisposal).2.graph.Over 0 1 ∧
    ((World.empty.play selfDisposal).2.play furtherWrites).2.graph.Over 0 1 := by
  constructor
  · have path : Graph.Path {} readingEffect (Graph.replay readingEffect) :=
      Graph.path_replay readingEffect (by decide)
    obtain ⟨effect, found⟩ := Option.isSome_iff_exists.mp
      (show ((Graph.replay readingEffect).effect? 0).isSome = true by decide)
    have runs : effect.runs = 1 := by
      have counted : ((Graph.replay readingEffect).effect? 0).map Effect.runs = some 1 := by decide
      rw [found] at counted
      exact Option.some.inj counted
    have further : Graph.Path ((Graph.replay readingEffect).moved (.disposed 0)) furtherReads _ :=
      (((Graph.Path.here.step (.tracked ⟨0, .named "a"⟩) trivial).step
        (.tracked ⟨0, .any⟩) trivial).step .left trivial).step (.released 0) trivial
    exact ⟨_, further, runs ▸ disposal_is_final.1 readingEffect furtherReads _ _ 0 effect path
      found further⟩
  · have reachable : (World.empty.play selfDisposal).2.Reachable :=
      (World.empty.later_play selfDisposal).reachable ⟨[], .here⟩
    have seen : ((World.empty.play selfDisposal).2.graph.effect? 0).map
        (fun effect => (effect.disposed, effect.runs)) = some (true, 1) := by decide +kernel
    obtain ⟨effect, found, same⟩ := Option.map_eq_some_iff.mp seen
    obtain ⟨disposed, runs⟩ := Prod.mk.inj same
    obtain ⟨moves, path⟩ := reachable
    have past : (World.empty.play selfDisposal).2.graph.Over 0 1 :=
      runs ▸ path.recorded.agrees.over found disposed
    exact ⟨past, (disposal_is_final.2.2 _ 0 1 ⟨moves, path⟩ past).2.2.1 furtherWrites⟩

end LiveMarkup
