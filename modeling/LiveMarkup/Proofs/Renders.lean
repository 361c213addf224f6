import LiveMarkup.Proofs.Redrawing

/-
This file states the law of renders: how many there are, and when exactly one of them belongs to a write.
-/

namespace LiveMarkup

namespace World

/-- A host is mounted, and a write to its state concerns its render effect. -/
structure Attends (world : World) (id : HostId) (record : Host) (effect : EffectId) (write : Write) : Prop where
  found : world.host? id = some record
  mounted : record.mounted = true
  renders : world.HasTask effect (.render id)
  named : world.stateFor? write.state = some record.state
  free : write.key ≠ Live.reservedKey
  listens : effect ∈ world.graph.concerned record.state write.key

/-- A host goes on with its story and nothing diverts it. Its template parses, and it is not asked to mount or to
render. Its render effect is neither disposed nor concerned by more than one notification. No panic is caught. -/
structure Undiverted (before : World) (id : HostId) (effect : EffectId) (newer : List Milestone) (after : World) :
    Prop where
  story : (after.account id).story = newer ++ (before.account id).story
  unasked : Story.Unasked newer
  parses : .refused ∉ newer
  stays : ∀ renders, .destroyed renders ∉ newer
  alive : ∃ last, after.host? id = some last ∧ last.alive = true
  lasting : after.graph.isDisposed effect = false
  once : after.listed effect = 1
  uncaught : ∀ recent, after.deeds = recent ++ before.deeds → ∀ payload, .recovered payload ∉ recent

variable {world stored after final : World} {id : HostId} {record : Host} {effect : EffectId} {write : Write}
  {newer : List Milestone}

/-- A host that nothing diverts begins one render at most, which the only notification accounts for. -/
theorem Undiverted.few {owed : Debt} (undiverted : world.Undiverted id effect newer after)
    (spends : stored.Spends id newer owed after) (renders : stored.HasTask effect (.render id))
    (silent : stored.notices = []) (settled : owed effect ≤ 0) : newer.count .began ≤ 1 := by
  have paid := spends.listed effect renders
  have unasked : newer.countP Milestone.asks = 0 := List.countP_eq_zero.mpr fun milestone member asks => by
    cases milestone <;> cases asks
    exact undiverted.unasked _ member
  have nothing : stored.listed effect = 0 := by
    unfold listed
    rw [silent]
    rfl
  rw [unasked, nothing, undiverted.once] at paid
  omega

/-- A host that lives in the end has lived before. -/
theorem Undiverted.lives (undiverted : world.Undiverted id effect newer after) (there : ∃ host, final.host? id = some host)
    (closing : final.Later after) : ∃ last, final.host? id = some last ∧ last.alive = true := by
  obtain ⟨host, there⟩ := there
  obtain ⟨newest, reached, -, -, lives⟩ := closing.hosts id host there
  obtain ⟨last, found, alive⟩ := undiverted.alive
  cases reached.symm.trans found
  exact ⟨host, there, lives alive⟩

/-- A write that concerns the render effect of a host redraws the host once, if nothing diverts it. -/
theorem Attends.redraws (attends : world.Attends id record effect write) (furnished : world.Furnished)
    (idle : world.graph.stack = []) (calm : (world.step write.command).1.isCalm = true)
    (undiverted : world.Undiverted id effect newer (world.step write.command).2) :
    Story.Regular newer ∧ newer.count .began = 1 ∧ newer.count (.emitted .update) = 1 ∧
      ∃ holds value turns ended, Live.Turns (Live.runTo (Live.depthOf world))
          ((world.storing holds record.state write.key value).notifying record.state write.key) turns ended ∧
        (world.step write.command).2 = { { ended with holds }.collect with holds := world.holds }.collect ∧
        turns.map Prod.fst = world.graph.concerned record.state write.key ∧ (effect, true) ∈ turns ∧
        ∀ bound ∈ record.bindings.effects, (bound, true) ∉ turns := by
  obtain ⟨holds, value, final, notifies, same⟩ := step_eq_of_write attends.named attends.free calm
  let stored := world.storing holds record.state write.key value
  have ready : stored.Furnished := furnished.later (later_storing world holds record.state write.key value) rfl
    fun entry member => ⟨entry, member, rfl⟩
  have notified : stored.Paces .none final :=
    ((lawful_pacing _).triggers record.state write.key stored).calm notifies ready
  have closes := Pacing.calm_closes world.holds final notified.furnished
  have kept := (carried_collect { final with holds := world.holds } id).story
  rw [← same] at closes kept
  obtain ⟨told, regular, spends, -⟩ := (notified.steadily closes).tells id
  cases (List.append_left_inj _).mp (undiverted.story.symm.trans spends.story)
  have few := undiverted.few spends attends.renders rfl (Int.le_refl 0)
  have there : ∃ host, final.host? id = some host := by
    obtain ⟨host, there, -⟩ := notified.later.hosts id record attends.found
    exact ⟨host, there⟩
  obtain ⟨updated, turns, ended, chain, listed, ran, spared, ends⟩ := Pacing.redraws_of_trigger ready idle
    attends.renders attends.found attends.mounted attends.listens notifies (kept.symm.trans undiverted.story)
    undiverted.parses undiverted.stays few (undiverted.lives there closes.later)
    (closes.later.lasting undiverted.lasting)
  have updates : newer.count (.emitted .update) = 1 := Nat.le_antisymm
    (Nat.le_trans regular.count_emitted_le few) (List.count_pos_iff.mpr updated)
  refine ⟨regular, Nat.le_antisymm few (updates ▸ regular.count_emitted_le), updates, holds, value, turns, ended,
    chain, ?_, listed, ran, spared⟩
  exact same.trans (congrArg (fun last : World => { last with holds := world.holds }.collect) ends)

end World

/-- A host that did not answer has told of renders by its updates only. -/
theorem Story.told_of_unanswered {story : List Milestone} (unanswered : ∀ call, .answered call ∉ story) :
    Story.told story = story.count (.emitted .update) := by
  unfold Story.told List.count
  refine List.countP_congr fun milestone member => ?_
  cases milestone with
  | answered call => exact absurd member (unanswered call)
  | emitted kind => cases kind <;> simp [Milestone.tellsRender]
  | _ => simp [Milestone.tellsRender]

/-- After any commands without a panic, a host has rendered as often as it answered that it mounted, answered that
it rendered, or announced an update. If a write from outside concerns the render effect of a mounted host, and
nothing diverts the host meanwhile, then it renders exactly once and announces exactly one update right after that.
In the notification of the write no effect runs that was bound at the last render. -/
theorem renders_accounted (id : HostId) :
    (∀ commands, (∀ step ∈ (World.empty.play commands).1, step.isCalm = true) →
      (∀ payload, .recovered payload ∉ (World.empty.play commands).2.deeds) →
        ((World.empty.play commands).2.account id).renders =
          Story.told ((World.empty.play commands).2.account id).story) ∧
    ∀ commands record effect write newer,
      let world := (World.empty.play commands).2
      let after := (world.step write.command).2
      world.Attends id record effect write → (world.step write.command).1.isCalm = true →
      world.Undiverted id effect newer after →
        (∃ late inner early, newer = late ++ .emitted .update :: .ended :: inner ++ .began :: early ∧
          Story.Undrawn late ∧ Story.Undrawn inner ∧ Story.Undrawn early) ∧
        (after.account id).renders = record.renders + 1 ∧
        ∃ holds value turns ended, Live.Turns (Live.runTo (Live.depthOf world))
            ((world.storing holds record.state write.key value).notifying record.state write.key) turns ended ∧
          after = { { ended with holds }.collect with holds := world.holds }.collect ∧
          turns.map Prod.fst = world.graph.concerned record.state write.key ∧ (effect, true) ∈ turns ∧
          ∀ bound ∈ record.bindings.effects, (bound, true) ∉ turns := by
  have forgets : ∀ world : World, (Conduct.recounting id).calm world world.forget :=
    fun _ => Recounting.calm_of_same rfl rfl rfl
  refine ⟨fun commands calm uncaught => ?_, fun commands record effect write newer => ?_⟩
  · have counted := (World.play_follows (lawful_recounting id) forgets World.empty commands calm).2 _
      (List.append_nil _).symm uncaught
    have clean : World.empty.account id = {} := rfl
    rw [clean] at counted
    simpa [Story.told] using counted
  · intro world after attends calm undiverted
    obtain ⟨regular, begins, updates, notification⟩ := attends.redraws (World.furnished_play commands)
      (World.idle_play commands rfl rfl World.settled_empty).1 calm undiverted
    refine ⟨regular.one_update begins updates, ?_, notification⟩
    obtain ⟨recent, since⟩ := (World.later_step world write.command).deeds
    have counted : (after.account id).renders + Story.told (world.account id).story =
        (world.account id).renders + Story.told (after.account id).story + 0 :=
      ((World.step_follows (lawful_recounting id) forgets world write.command).2 calm).2 recent since.symm
        (undiverted.uncaught recent since.symm)
    have unanswered : ∀ call, .answered call ∉ newer :=
      fun call member => undiverted.unasked call (regular.asked_of_answered member)
    have whole : Story.told (after.account id).story = 1 + Story.told (world.account id).story := by
      rw [undiverted.story, Story.told, List.countP_append]
      exact congrArg (· + _) ((Story.told_of_unanswered unanswered).trans updates)
    have before : (world.account id).renders = record.renders := by
      rw [World.account_of_host attends.found]
      rfl
    rw [whole, before] at counted
    omega

/-- A page with a host that shows a counter. -/
def counterPage (rendered : Option Script) : List Command :=
  [.node (.parse "doc" "<div id=\"app\"></div>"),
    .createHost "doc"
      { name := "h", selector := "#app", initial := .object [("n", .integer 0)]
        template := "<p>\x7b\x7b n \x7d\x7d</p>", methods := [], hooks := [], rendered }]

def mountedCounter : List Command := counterPage none ++ [.host (.mount "h")]

/-- A write to the counter of a mounted host makes a second render, and leaves out the old binding. -/
theorem renders_of_mountedCounter :
    let world := (World.empty.play mountedCounter).2
    let after := (world.step (Write.set "h" "n" (.integer 1)).command).2
    (world.account 0).renders = Story.told (world.account 0).story ∧ (after.account 0).renders = 2 ∧
      ∃ start turns ended, Live.Turns (Live.runTo (Live.depthOf world)) start turns ended ∧
        (0, true) ∈ turns ∧ (1, true) ∉ turns := by
  intro world after
  have calm : ∀ step ∈ (World.empty.play mountedCounter).1, step.isCalm = true := by decide +kernel
  have quiet : (after.deeds.all fun deed => deed matches .parsed .. | .rendered .. | .shown ..) = true := by
    decide +kernel
  have uncaught : ∀ payload, .recovered payload ∉ after.deeds := by
    intro payload member
    cases List.all_eq_true.mp quiet _ member
  obtain ⟨recent, since⟩ := (World.later_step world (Write.set "h" "n" (.integer 1)).command).deeds
  have record : (world.host? 0).map (fun host => (host.mounted, host.state, host.bindings.effects, host.renders)) =
      some (true, 0, [1], 1) := by decide +kernel
  obtain ⟨host, found, same⟩ := Option.map_eq_some_iff.mp record
  obtain ⟨mounted, state, bound, renders⟩ : host.mounted = true ∧ host.state = 0 ∧ host.bindings.effects = [1] ∧
      host.renders = 1 := by simpa using same
  have renderer : (world.graph.effect? 0).any (fun effect => effect.task matches .render 0) = true := by
    decide +kernel
  obtain ⟨effect, known, task⟩ := (Option.any_eq_true _ _).mp renderer
  have attends : world.Attends 0 host 0 (.set "h" "n" (.integer 1)) := by
    refine ⟨found, mounted, ⟨effect, known, ?_⟩, ?_, by decide, ?_⟩
    · split at task
      · assumption
      · cases task
    · rw [state]
      show world.stateFor? "h" = some 0
      decide +kernel
    · rw [state]
      show 0 ∈ world.graph.concerned 0 "n"
      decide +kernel
  have undiverted : world.Undiverted 0 0 [.emitted .update, .ended, .began] after := by
    refine ⟨by decide +kernel, fun call => by cases call <;> decide, by decide, by simp, ?_, by decide +kernel,
      by decide +kernel, fun newer parts payload member => ?_⟩
    · have lives : (after.host? 0).any Host.alive = true := by decide +kernel
      exact (Option.any_eq_true _ _).mp lives
    · exact uncaught payload (parts ▸ List.mem_append_left _ member)
  obtain ⟨counts, redraws⟩ := renders_accounted 0
  have once := counts mountedCounter calm fun payload member =>
    uncaught payload (since ▸ List.mem_append_right recent member)
  obtain ⟨-, twice, holds, value, turns, ended, chain, -, -, ran, spared⟩ :=
    redraws mountedCounter host 0 _ _ attends (by decide +kernel) undiverted
  refine ⟨once, twice.trans (by rw [renders]), _, turns, ended, chain, ran, spared 1 ?_⟩
  rw [bound]
  exact List.mem_singleton_self 1

/-- Whether a host is mounted, and how often it has rendered. -/
def World.tally (world : World) (id : HostId) : Bool × Nat :=
  ((world.account id).mounted, (world.account id).renders)

/-- Each of these plays makes a host render once that stays mounted, and then writes to its state. The effects, the
component and the commands leave this state alone otherwise. Still the host renders again twice, not at all, only
for the first one of two writes, or twice: what it reads when it has rendered changes meanwhile, its state was
released by hand, its render effect is disposed, or it is asked to render. -/
theorem mounted_hosts_miscount :
    let tally := fun commands => (World.empty.play commands).2.tally 0
    let write : List Command := [.state (.set "h" "n" (.integer 1))]
    let reading := counterPage (some [.state (.get "t" "x")]) ++
      [.state (.create "t" (.object [("x", .integer 0)])),
        .createEffect "e" [.state (.get "h" "n"), .state (.increase "t" "x" 1)] {}, .host (.mount "h")]
    let released := mountedCounter ++ [.effect (.release "h")]
    let disposing := counterPage (some [.effect .disposeActive]) ++ [.host (.mount "h")]
    let asking := mountedCounter ++ [.createEffect "e" [.state (.get "h" "n"), .host (.render "h")] {}]
    (tally reading = (true, 1) ∧ tally (reading ++ write) = (true, 3)) ∧
    (tally released = (true, 1) ∧ tally (released ++ write) = (true, 1)) ∧
    (tally (disposing ++ write) = (true, 2) ∧ tally (disposing ++ write ++ write) = (true, 2)) ∧
    tally asking = (true, 2) ∧ tally (asking ++ write) = (true, 4) := by
  decide +kernel

end LiveMarkup
