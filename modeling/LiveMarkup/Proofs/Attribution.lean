import LiveMarkup.Proofs.Lasting

/-
This file states for whole worlds that subscriptions are the history of attributed reads.
-/

namespace LiveMarkup

namespace Live

variable {A B : Type} {world after : World}

/-- Code leaves a world behind, however it ends. -/
def worldAfter (action : Live A) (world : World) : World :=
  match action world with
  | .ok _ after => after
  | .error _ after => after

theorem worldAfter_bind {motive : World → Prop} {action : Live A} {next : A → Live B}
    (stops : ∀ stop after, action world = .error stop after → motive after)
    (goes : ∀ value after, action world = .ok value after → motive (worldAfter (next value) after)) :
    motive (worldAfter (action >>= next) world) := by
  unfold worldAfter at goes ⊢
  rw [bind_apply]
  cases outcome : action world with
  | ok value after => exact goes value after outcome
  | error stop after => exact stops stop after outcome

theorem worldAfter_of_ok {action : Live A} {value : A} (outcome : action world = .ok value after) :
    worldAfter action world = after := by
  unfold worldAfter
  rw [outcome]

theorem worldAfter_of_error {action : Live A} {stop : Stop} (outcome : action world = .error stop after) :
    worldAfter action world = after := by
  unfold worldAfter
  rw [outcome]

theorem worldAfter_discard (action : Live A) (world : World) :
    worldAfter (discard action) world = worldAfter action world := by
  unfold worldAfter
  rw [discard_apply]
  cases action world <;> rfl

theorem worldAfter_ending (action : Live A) (change : World → World) (world : World) :
    worldAfter (ending action change) world = change (worldAfter action world) := by
  unfold worldAfter ending
  cases action world <;> rfl

/-- Where it makes no difference how code ends, only the world counts that it leaves behind. -/
theorem Follows.always_iff {relation : World → World → Prop} {refl : ∀ world, relation world world}
    {trans : ∀ {first second third}, relation first second → relation second third →
      relation first third} {action : Live A} {world : World} :
    Follows (.always relation refl trans) action world ↔ relation world (worldAfter action world) := by
  unfold Follows worldAfter
  cases action world with
  | ok value after => rfl
  | error stop after => cases stop <;> rfl

theorem Follows.later {action : Live A} {world : World}
    (follows : Follows Conduct.lasting action world) : world.Later (worldAfter action world) :=
  always_iff.mp follows

end Live

namespace World

theorem later_perform (depth : Nat) (arguments : List Value) (command : Command) (world : World) :
    world.Later (Live.worldAfter (Live.perform (Live.runTo depth) arguments command) world) :=
  ((lawful_lasting depth).perform arguments world command).later

theorem later_activity (depth : Nat) (activity : Activity) (world : World) :
    world.Later (Live.worldAfter (Live.runTo depth activity) world) := by
  have keeps := Runner.keeps_runTo World.Later.refl (fun depth _ => lawful_lasting depth) depth
  exact (keeps activity world trivial).later

theorem later_forget (world : World) : world.Later world.forget :=
  .of_same rfl rfl rfl rfl (Nat.le_refl _) (List.suffix_refl _)

theorem later_play (world : World) (commands : List Command) :
    world.Later (world.play commands).2 :=
  play_follows_always lawful_lasting later_forget world commands

theorem later_step (world : World) (command : Command) : world.Later (world.step command).2 :=
  (step_follows lawful_lasting later_forget world command).1

end World

namespace Graph

variable {Task : Type}

/-- Whatever is read later, a read is lost with a release of its target only. -/
theorem mem_attributedReads_append {id : EffectId} {dependency : Dependency}
    {later earlier : List (Move Task)} (read : dependency ∈ attributedReads id earlier)
    (kept : Move.released dependency.target ∉ later) :
    dependency ∈ attributedReads id (later ++ earlier) := by
  induction later with
  | nil => exact read
  | cons move rest inductionHypothesis =>
      have before := inductionHypothesis fun member => kept (List.mem_cons_of_mem _ member)
      cases move with
      | tracked other =>
          rw [List.cons_append, attributedReads]
          split
          · exact List.mem_append_left _ before
          · exact before
      | released target =>
          have other : dependency.target ≠ target := by
            intro same
            exact kept (same ▸ List.mem_cons_self)
          exact List.mem_filter.mpr ⟨before, by simpa using other⟩
      | created label task captures => exact before
      | entered frame => exact before
      | left => exact before
      | disposed disposed => exact before

end Graph

end LiveMarkup
