import LiveMarkup.Proofs.Continuing

/-
This file shows that the table of subscriptions holds each effect once and keeps no empty set, and
that it tells the same as the records of the effects.
-/

namespace LiveMarkup

namespace Subscribers

/-- No name is kept for an empty set. -/
def Filled (subscribers : Subscribers) : Prop := ∀ entry ∈ subscribers.named, entry.2 ≠ []

theorem filled_empty : ({} : Subscribers).Filled := fun _ member => by cases member

theorem Filled.add {subscribers : Subscribers} (filled : subscribers.Filled) (key : Key)
    (effect : EffectId) : (subscribers.add key effect).Filled := by
  cases key with
  | any => exact filled
  | named name =>
      intro entry member
      rcases Assoc.mem_put member with new | old
      · simp [new]
      · exact filled entry old

/-- The last effect takes its name along. -/
theorem Filled.remove {subscribers : Subscribers} (filled : subscribers.Filled) (key : Key)
    (effect : EffectId) : (subscribers.remove key effect).Filled := by
  cases key with
  | any => exact filled
  | named name =>
      unfold Subscribers.remove
      dsimp only
      split
      · exact fun entry member => filled entry (List.mem_filter.mp member).1
      · rename_i left
        intro entry member
        rcases Assoc.mem_put member with new | old
        · rw [new]
          exact fun none => left (List.isEmpty_iff.mpr none)
        · exact filled entry old

end Subscribers

namespace Graph

variable {Task : Type} {graph : Graph Task}

/-- Each effect is recorded once in a set, each dependency once in an effect, and no set of the
table is empty. -/
structure Tidy (graph : Graph Task) : Prop where
  dependencies : ∀ id effect, graph.effect? id = some effect → effect.dependencies.Nodup
  subscribers : ∀ dependency, (graph.subscribersOf dependency).Nodup
  filled : ∀ entry ∈ graph.table, entry.2.Filled

theorem nodup_concat {A : Type} {items : List A} {item : A} (distinct : items.Nodup)
    (new : item ∉ items) : (items ++ [item]).Nodup :=
  List.nodup_append.mpr ⟨distinct, List.pairwise_singleton _ _, fun _ member _ last same =>
    new (List.mem_singleton.mp last ▸ same ▸ member)⟩

/-! What the moves do to the table. -/

theorem filled_subscribers (filled : ∀ entry ∈ graph.table, entry.2.Filled) (target : TargetId) :
    (graph.subscribers target).Filled := by
  unfold Graph.subscribers
  cases found : graph.table.get? target with
  | none => exact Subscribers.filled_empty
  | some subscribers => exact filled _ (Assoc.mem_of_get? found)

theorem filled_put (filled : ∀ entry ∈ graph.table, entry.2.Filled) (target : TargetId)
    {subscribers : Subscribers} (new : subscribers.Filled) :
    ∀ entry ∈ graph.table.put target subscribers, entry.2.Filled := by
  intro entry member
  rcases Assoc.mem_put member with same | old
  · exact same ▸ new
  · exact filled entry old

theorem filled_unsubscribe (filled : ∀ entry ∈ graph.table, entry.2.Filled) (id : EffectId)
    (dependency : Dependency) :
    ∀ entry ∈ (graph.unsubscribe id dependency).table, entry.2.Filled := by
  unfold unsubscribe
  split
  · exact filled
  · rename_i subscribers found
    exact filled_put filled _ ((filled _ (Assoc.mem_of_get? found)).remove _ _)

theorem filled_unsubscribes (filled : ∀ entry ∈ graph.table, entry.2.Filled) (id : EffectId)
    (dependencies : List Dependency) :
    ∀ entry ∈ (dependencies.foldl (fun current dependency => current.unsubscribe id dependency)
      graph).table, entry.2.Filled := by
  induction dependencies generalizing graph with
  | nil => exact filled
  | cons first rest inductionHypothesis =>
      exact inductionHypothesis (filled_unsubscribe filled id first)

theorem table_forget (graph : Graph Task) (target : TargetId) (ids : List EffectId) :
    (ids.foldl (fun current id => current.modifyEffect id (forgetting target)) graph).table =
      graph.table := by
  induction ids generalizing graph with
  | nil => rfl
  | cons first rest inductionHypothesis =>
      rw [List.foldl_cons, inductionHypothesis]
      rfl

theorem filled_release (filled : ∀ entry ∈ graph.table, entry.2.Filled) (target : TargetId) :
    ∀ entry ∈ (graph.release target).table, entry.2.Filled := by
  unfold release
  split
  · exact filled
  · rename_i subscribers _
    have table := table_forget { graph with table := graph.table.erase target } target
      subscribers.all
    intro entry member
    exact filled entry (List.mem_filter.mp (table ▸ member)).1

namespace Tidy

theorem empty : ({} : Graph Task).Tidy where
  dependencies id effect found := by simp [effect?] at found
  subscribers dependency := by
    rw [show ({} : Graph Task).subscribersOf dependency = [] from Subscribers.under_empty _]
    exact List.nodup_nil
  filled entry member := by cases member

theorem create (tidy : graph.Tidy) (label : String) (task : Task) (captures : List TargetId) :
    (graph.create label task captures).2.Tidy where
  dependencies id effect found := by
    rw [effect?_create] at found
    split at found
    · cases found
      exact List.nodup_nil
    · exact tidy.dependencies id effect found
  subscribers := tidy.subscribers
  filled := tidy.filled

/-- A change of one effect that leaves its dependencies in order leaves everything in order. -/
theorem modifyEffect (tidy : graph.Tidy) (id : EffectId) {change : Effect Task → Effect Task}
    (kept : ∀ effect, effect.dependencies.Nodup → (change effect).dependencies.Nodup) :
    (graph.modifyEffect id change).Tidy where
  dependencies other effect found := by
    rw [effect?_modifyEffect] at found
    split at found
    · obtain ⟨old, known, equal⟩ := Option.map_eq_some_iff.mp found
      exact equal ▸ kept old (tidy.dependencies other old known)
    · exact tidy.dependencies other effect found
  subscribers := tidy.subscribers
  filled := tidy.filled

/-- What is subscribed newly was not recorded before, because both sides agree. -/
theorem subscribe (tidy : graph.Tidy) (agrees : graph.Agrees) (id : EffectId)
    (dependency : Dependency) : (graph.subscribe id dependency).Tidy where
  dependencies other effect found := by
    rw [effect?_subscribe] at found
    split at found
    · rename_i new
      obtain ⟨old, known, equal⟩ := Option.map_eq_some_iff.mp found
      have unread : dependency ∉ old.dependencies := by
        intro read
        rw [← new.1] at known
        exact new.2 ((agrees.mem_dependencies known dependency).mpr read)
      rw [← equal]
      exact nodup_concat (tidy.dependencies other old known) unread
    · exact tidy.dependencies other effect found
  subscribers other := by
    rw [subscribersOf_subscribe]
    split
    · rename_i new
      exact nodup_concat (tidy.subscribers dependency) new.2
    · exact tidy.subscribers other
  filled := by
    by_cases known : id ∈ graph.subscribersOf dependency
    · rw [subscribe_of_mem known]
      exact tidy.filled
    · rw [subscribe_of_not_mem known]
      exact filled_put tidy.filled _ ((filled_subscribers tidy.filled _).add _ _)

theorem track (tidy : graph.Tidy) (agrees : graph.Agrees) (dependency : Dependency) :
    (graph.track dependency).Tidy := by
  rcases track_eq graph dependency with ⟨same, -⟩ | ⟨id, -, -, subscribed⟩
  · rw [same]
    exact tidy
  · rw [subscribed]
    exact tidy.subscribe agrees id dependency

theorem dispose (tidy : graph.Tidy) (id : EffectId) : (graph.dispose id).Tidy := by
  unfold Graph.dispose
  split
  · exact tidy
  · split
    · exact tidy
    · rename_i effect _ _
      have gone : (graph.modifyEffect id ended).Tidy := tidy.modifyEffect id fun _ _ => List.nodup_nil
      constructor
      · intro other changed found
        unfold effect? at found
        rw [effects_unsubscribes] at found
        exact gone.dependencies other changed found
      · intro dependency
        rw [subscribersOf_unsubscribes]
        split
        · exact (gone.subscribers dependency).filter _
        · exact gone.subscribers dependency
      · exact filled_unsubscribes gone.filled id effect.dependencies

theorem release (tidy : graph.Tidy) (agrees : graph.Agrees) (target : TargetId) :
    (graph.release target).Tidy where
  dependencies id effect found := by
    rw [agrees.effect?_release] at found
    obtain ⟨old, known, equal⟩ := Option.map_eq_some_iff.mp found
    exact equal ▸ (tidy.dependencies id old known).filter _
  subscribers dependency := by
    rw [subscribersOf_release]
    split
    · exact List.nodup_nil
    · exact tidy.subscribers dependency
  filled := filled_release tidy.filled target

theorem moved (tidy : graph.Tidy) (agrees : graph.Agrees) (move : Move Task) :
    (graph.moved move).Tidy := by
  cases move with
  | created label task captures => exact tidy.create label task captures
  | entered frame =>
      cases frame with
      | none => exact ⟨tidy.dependencies, tidy.subscribers, tidy.filled⟩
      | some id =>
          have pushed : (graph.push (some id)).Tidy :=
            ⟨tidy.dependencies, tidy.subscribers, tidy.filled⟩
          exact pushed.modifyEffect id fun _ kept => kept
  | left => exact ⟨tidy.dependencies, tidy.subscribers, tidy.filled⟩
  | tracked dependency => exact tidy.track agrees dependency
  | disposed id => exact tidy.dispose id
  | released target => exact tidy.release agrees target

end Tidy

theorem Path.tidy {moves : List (Move Task)} (path : Path {} moves graph) : graph.Tidy := by
  induction path with
  | here => exact .empty
  | step move before _ inductionHypothesis => exact inductionHypothesis.moved before.recorded.agrees move

/-- The table and the records of the effects tell the same, and neither tells anything twice. -/
structure Consistent (graph : Graph Task) : Prop where
  listed : ∀ id dependency, id ∈ graph.subscribersOf dependency ↔
    ∃ effect, graph.effect? id = some effect ∧ dependency ∈ effect.dependencies
  dependencies : ∀ id effect, graph.effect? id = some effect → effect.dependencies.Nodup
  subscribers : ∀ dependency, (graph.subscribersOf dependency).Nodup
  filled : ∀ target subscribers, (target, subscribers) ∈ graph.table →
    ∀ name effects, (name, effects) ∈ subscribers.named → effects ≠ []

theorem Path.consistent {moves : List (Move Task)} (path : Path {} moves graph) :
    graph.Consistent where
  listed := path.recorded.agrees.listed
  dependencies := path.tidy.dependencies
  subscribers := path.tidy.subscribers
  filled _ _ entry _ _ member := path.tidy.filled _ entry _ member

end Graph

/-- A graph is consistent after every sequence of moves from the empty graph on. All code of a world
makes such moves only, however deep it is nested and however it ends. -/
theorem table_consistent_with_dependencies :
    (∀ (moves : List (Graph.Move Task)) (graph : Graph Task), Graph.Path {} moves graph →
      graph.Consistent) ∧
    (∀ world : World, world.Reachable →
      (∀ depth activity, ∃ later, Graph.Path world.graph later
          (Live.worldAfter (Live.runTo depth activity) world).graph ∧
        (Live.worldAfter (Live.runTo depth activity) world).graph.Consistent) ∧
      ∀ depth arguments command, ∃ later, Graph.Path world.graph later
          (Live.worldAfter (Live.perform (Live.runTo depth) arguments command) world).graph ∧
        (Live.worldAfter (Live.perform (Live.runTo depth) arguments command)
          world).graph.Consistent) ∧
    ∀ commands, (World.empty.play commands).2.Reachable ∧
      (World.empty.play commands).2.graph.Consistent := by
  refine ⟨?_, ?_, ?_⟩
  · exact fun moves graph path => path.consistent
  · rintro world ⟨moves, path⟩
    constructor
    · intro depth activity
      obtain ⟨later, further, -⟩ := (World.later_activity depth activity world).moves
      exact ⟨later, further, (path.append further).consistent⟩
    · intro depth arguments command
      obtain ⟨later, further, -⟩ := (World.later_perform depth arguments command world).moves
      exact ⟨later, further, (path.append further).consistent⟩
  · intro commands
    obtain ⟨moves, path, -⟩ := (World.empty.later_play commands).moves
    exact ⟨⟨moves, path⟩, path.consistent⟩

/-- Two effects read the same name, one of them is disposed while it runs, and a target that both
read is released. The latest move stands in front. -/
def sharedReads : List (Graph.Move Task) :=
  [.released 1, .tracked ⟨0, .named "b"⟩, .disposed 1, .tracked ⟨1, .any⟩, .tracked ⟨0, .named "a"⟩,
    .entered (some 1), .created "inner" (.script "inner" []) [], .tracked ⟨1, .any⟩,
    .tracked ⟨0, .named "a"⟩, .entered (some 0), .created "outer" (.script "outer" []) []]

/-- The name that both effects read keeps one of them, and the released target keeps none. -/
theorem sharedReads_consistent :
    (Graph.Path {} sharedReads (Graph.replay sharedReads)) ∧
      (Graph.replay sharedReads).Consistent ∧
      (Graph.replay sharedReads).subscribersOf ⟨0, .named "a"⟩ = [0] ∧
      (Graph.replay sharedReads).subscribersOf ⟨0, .named "b"⟩ = [] := by
  have path : Graph.Path {} sharedReads (Graph.replay sharedReads) :=
    Graph.path_replay sharedReads (by decide)
  exact ⟨path, table_consistent_with_dependencies.1 sharedReads _ path, by decide, by decide⟩

end LiveMarkup
