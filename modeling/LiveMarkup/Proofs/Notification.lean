import LiveMarkup.Proofs.Attribution

/-
This file follows a notification turn by turn. Which effects take part is settled when it starts, and
each of them has one turn, whatever the others do.
-/

namespace LiveMarkup

namespace World

/-- The world right after an effect had its turn, when nothing holds the effect for its turn. -/
def lettingGo (world : World) (id : EffectId) : World :=
  { world with holds := world.holds.erase (.effect id) }.collect

/-- A notification announces itself, and holds all effects that it concerns. -/
def notifying (world : World) (target : TargetId) (name : String) : World :=
  let effects := world.graph.concerned target name
  let announced :=
    if effects.isEmpty then world else world.note (.changed name (number target) effects)
  { announced with holds := effects.map .effect ++ announced.holds }

end World

namespace Live

/-- The body of an effect runs in a frame of its own, and counts as a run. -/
def runBody (run : Runner) (id : EffectId) (effect : Effect Task) : Live Unit :=
  inFrame (some id) do
    modifyGraph (·.countRun id)
    discard (run (.task effect.task))

/-- An effect that is attempted runs iff it is neither disposed nor on the stack at that moment. -/
inductive Attempt (run : Runner) (id : EffectId) : World → Bool → World → Prop where
  | ran {world after : World} {effect : Effect Task}
      (known : world.graph.effect? id = some effect)
      (lasting : world.graph.isDisposed id = false)
      (idle : some id ∉ world.graph.stack)
      (body : runBody run id effect world = .ok () after) : Attempt run id world true after
  | passed {world after : World}
      (barred : world.graph.isDisposed id = true ∨ some id ∈ world.graph.stack)
      (graph : after.graph = world.graph) (happenings : after.happenings = world.happenings) :
      Attempt run id world false after

/-- Turns follow one another. Each one tells its effect and whether the body ran. -/
inductive Turns (run : Runner) : World → List (EffectId × Bool) → World → Prop where
  | over (world : World) : Turns run world [] world
  | next {world after final : World} {id : EffectId} {ran : Bool}
      {rest : List (EffectId × Bool)} (attempt : Attempt run id world ran after)
      (others : Turns run (after.lettingGo id) rest final) :
      Turns run world ((id, ran) :: rest) final

/-- This is what becomes of an effect that is to run. -/
theorem runEffect_apply (run : Runner) {id : EffectId} {effect : Effect Task} {world : World}
    (found : world.graph.effect? id = some effect) :
    runEffect run id world =
      if effect.disposed then .ok () world
      else if world.graph.isRunning id then
        .ok () (world.note (.effectBusy (World.number id) effect.label))
      else runBody run id effect world := by
  unfold runEffect
  rw [get_bind, found]
  dsimp only
  split
  · rfl
  · split <;> rfl

/-- An effect that exists is attempted. -/
theorem attempt_of_runEffect {run : Runner} {id : EffectId} {world after : World}
    (known : id < world.graph.effects.size) (returned : runEffect run id world = .ok () after) :
    ∃ ran, Attempt run id world ran after := by
  have found : world.graph.effect? id = some world.graph.effects[id] :=
    Array.getElem?_eq_getElem known
  rw [runEffect_apply run found] at returned
  split at returned
  · rename_i gone
    have disposed : world.graph.isDisposed id = true := by
      simp [Graph.isDisposed, found, gone]
    cases returned
    exact ⟨false, .passed (Or.inl disposed) rfl rfl⟩
  · rename_i lasts
    have lasting : world.graph.isDisposed id = false := by
      simpa [Graph.isDisposed, found] using lasts
    split at returned
    · rename_i running
      have busy : some id ∈ world.graph.stack := by
        simpa [Graph.isRunning] using running
      cases returned
      exact ⟨false, .passed (Or.inr busy) rfl rfl⟩
    · rename_i free
      have idle : some id ∉ world.graph.stack := by
        simpa [Graph.isRunning] using free
      exact ⟨true, .ran found lasting idle returned⟩

/-- Effects that exist have their turns, one after the other. What a turn does cannot take an effect
out of existence. -/
theorem turns_of_runInTurn {depth : Nat} {ids : List EffectId} {world final : World}
    (known : ∀ id ∈ ids, id < world.graph.effects.size)
    (returned : runInTurn (runTo depth) ids world = .ok () final) :
    ∃ turns, Turns (runTo depth) world turns final ∧ turns.map Prod.fst = ids := by
  have keeps := Runner.keeps_runTo World.Later.refl (fun depth _ => lawful_lasting depth) depth
  induction ids generalizing world with
  | nil =>
      cases returned
      exact ⟨[], .over _, rfl⟩
  | cons id rest inductionHypothesis =>
      unfold runInTurn at returned
      obtain ⟨_, after, ran, continued⟩ := bind_eq_ok.mp returned
      obtain ⟨_, released, gone, others⟩ := bind_eq_ok.mp continued
      obtain ⟨attempted, attempt⟩ := attempt_of_runEffect (known id List.mem_cons_self) ran
      have later := (Lasting.runEffect keeps id world).calm ran
      have letting : after.Later released := (Lasting.plain.letsGo id after).calm gone
      have still : ∀ other ∈ rest, other < released.graph.effects.size := by
        intro other member
        have before := known other (List.mem_cons_of_mem _ member)
        exact Nat.lt_of_lt_of_le before (Nat.le_trans later.effects letting.effects)
      obtain ⟨turns, chain, same⟩ := inductionHypothesis still others
      cases gone
      exact ⟨(id, attempted) :: turns, .next attempt chain, by rw [List.map_cons, same]⟩

/-- All effects in the table of a graph that moved from the empty one exist. -/
theorem known_of_mem_concerned {moves : List (Graph.Move Task)} {graph : Graph Task}
    (path : Graph.Path {} moves graph) {target : TargetId} {name : String} {id : EffectId}
    (member : id ∈ graph.concerned target name) : id < graph.effects.size := by
  have agrees := path.recorded.agrees
  have exists_of_listed : ∀ dependency, id ∈ graph.subscribersOf dependency →
      id < graph.effects.size := by
    intro dependency listed
    have found := (agrees.listed id dependency).mp listed
    cases known : graph.effect? id with
    | none => simp [known] at found
    | some effect => exact (Array.getElem?_eq_some_iff.mp known).1
  rcases (Graph.mem_concerned graph target name id).mp member with named | any
  · exact exists_of_listed _ named
  · exact exists_of_listed _ any

/-- A notification looks up the effects once, and then gives them their turns. -/
theorem trigger_apply (run : Runner) (target : TargetId) (name : String) (world : World) :
    trigger run target name world =
      ending (runInTurn run (world.graph.concerned target name))
        (fun after => { after with holds := world.holds }.collect)
        (world.notifying target name) := by
  unfold trigger operation World.notifying ending
  dsimp only
  rw [get_bind]
  cases (world.graph.concerned target name).isEmpty <;> rfl

theorem graph_notifying (world : World) (target : TargetId) (name : String) :
    (world.notifying target name).graph = world.graph := by
  unfold World.notifying
  dsimp only
  split <;> rfl

/-- A notification that completes has given each effect that it concerned its turn. -/
theorem turns_of_trigger {depth : Nat} {target : TargetId} {name : String} {world final : World}
    {moves : List (Graph.Move Task)} (path : Graph.Path {} moves world.graph)
    (returned : trigger (runTo depth) target name world = .ok () final) :
    ∃ turns ended, Turns (runTo depth) (world.notifying target name) turns ended ∧
      turns.map Prod.fst = world.graph.concerned target name ∧
      final = { ended with holds := world.holds }.collect := by
  rw [trigger_apply] at returned
  unfold ending at returned
  cases outcome : runInTurn (runTo depth) (world.graph.concerned target name)
      (world.notifying target name) with
  | error stop after =>
      rw [outcome] at returned
      cases returned
  | ok value ended =>
      rw [outcome] at returned
      cases returned
      have known : ∀ id ∈ world.graph.concerned target name,
          id < (world.notifying target name).graph.effects.size := by
        intro id member
        rw [graph_notifying]
        exact known_of_mem_concerned path member
      obtain ⟨turns, chain, listed⟩ := turns_of_runInTurn known outcome
      exact ⟨turns, ended, chain, listed, rfl⟩

end Live

end LiveMarkup
