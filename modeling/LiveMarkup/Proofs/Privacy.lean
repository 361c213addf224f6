import LiveMarkup.Proofs.Standing

/-
This file shows that writes of states touch nothing but what is shown, if there are no other effects
than those of a display.
-/

namespace LiveMarkup

open Live

/-- A display stands alone if there are no effects but its own. -/
structure Display.Private (display : Display) (world : World) : Prop where
  stands : display.Stands world
  secluded : display.Secluded world
  owned : ∀ id < world.graph.effects.size, display.Owns id

/-- A display that stands alone goes on doing so. -/
def Display.StaysPrivate (display : Display) (before after : World) : Prop :=
  before.Later after ∧ (display.Private before → display.Private after)

theorem Display.StaysPrivate.refl (display : Display) (world : World) :
    display.StaysPrivate world world := ⟨.refl world, fun alone => alone⟩

theorem Display.StaysPrivate.trans {display : Display} {first second third : World}
    (early : display.StaysPrivate first second) (late : display.StaysPrivate second third) :
    display.StaysPrivate first third :=
  ⟨early.1.trans late.1, fun alone => late.2 (early.2 alone)⟩

/-- This conduct leaves a display alone in its world, however code ends. -/
def Conduct.private (display : Display) : Conduct :=
  .always display.StaysPrivate (Display.StaysPrivate.refl display) Display.StaysPrivate.trans

namespace Privacy

variable {display : Display} {depth : Nat} {world before after : World} {A : Type}

theorem idle_secluded (idle : before.Idle after) (secluded : display.Secluded before) :
    display.Secluded after := by
  unfold Display.Secluded
  rw [idle.deeds]
  exact secluded

/-- Deeds that stay out may be added to those that did. -/
theorem secluded_of_deeds (secluded : display.Secluded before) {newer : List Deed}
    (since : after.deeds = newer ++ before.deeds)
    (out : ∀ deed ∈ newer, deed.StaysOut display.root display.Owns) : display.Secluded after := by
  obtain ⟨older, whole, allowed⟩ := secluded
  refine ⟨newer ++ older, by rw [since, whole, List.append_assoc], fun deed member => ?_⟩
  rcases List.mem_append.mp member with new | old
  · exact out deed new
  · exact allowed deed old

theorem calm_of_idle (formed : display.Formed) (later : before.Later after)
    (idle : before.Idle after) : (Conduct.private display).calm before after :=
  ⟨later, fun alone =>
    { stands := alone.stands.shelter formed later (idle.forest ▸ .refl _ _)
      secluded := idle_secluded idle alone.secluded
      owned id known := alone.owned id (idle.effects ▸ known) }⟩

theorem calm_of_attest (formed : display.Formed) (world : World) {deed : Deed}
    (out : deed.StaysOut display.root display.Owns) :
    (Conduct.private display).calm world (world.attest deed) :=
  ⟨.attest world deed, fun alone =>
    { stands := alone.stands.shelter formed (.attest world deed) (.refl _ _)
      secluded := secluded_of_deeds alone.secluded (show _ = [deed] ++ _ from rfl)
        fun _ member => List.mem_singleton.mp member ▸ out
      owned := alone.owned }⟩

theorem calm_collect (formed : display.Formed) (world : World) :
    (Conduct.private display).calm world world.collect := by
  have sweeps := World.sweeps_collect world
  exact calm_of_idle formed (World.later_collect world) ⟨sweeps.forest, sweeps.deeds, sweeps.effects⟩

/-- An untracked block runs in a frame without effect. -/
theorem untracked (formed : display.Formed) {action : Live A}
    (ends : (Conduct.private display).Ends (world.entered none)
      (action { world with graph := world.graph.push none })) :
    Follows (Conduct.private display) (Live.untracked action) world := by
  have left : ∀ after, (Conduct.private display).calm (world.entered none) after →
      (Conduct.private display).calm world { after with graph := after.graph.pop }.collect := by
    intro after calm
    have allowed : world.graph.Allows (.entered none) := trivial
    have later := calm.1.leave allowed
    refine (Conduct.private display).trans ⟨later, fun alone => ?_⟩ (calm_collect formed _)
    have inner := calm.2 ⟨alone.stands.entered allowed (fun _ impossible => by cases impossible),
      alone.secluded, alone.owned⟩
    exact ⟨alone.stands.later later (inner.stands.children.trans alone.stands.children.symm)
      inner.stands.shows, inner.secluded, inner.owned⟩
  exact Follows.inFrame ends left left

theorem track (formed : display.Formed) (target : TargetId) (key : Key) (world : World) :
    Follows (Conduct.private display) (Live.track target key) world :=
  Follows.modifies (calm_of_idle formed (show world.Later _ from Lasting.track target key)
    ⟨rfl, rfl, Graph.size_track _ _⟩)

theorem calm_closes (formed : display.Formed) (holds : List Hold) (world : World) :
    (Conduct.private display).calm world { world with holds }.collect :=
  (Conduct.private display).trans
    (calm_of_idle formed (World.later_holds world holds) ⟨rfl, rfl, rfl⟩) (calm_collect formed _)

theorem plain (formed : display.Formed) : Plain (Conduct.private display) where
  finishes name outcome world :=
    calm_of_idle formed (Lasting.plain.finishes name outcome world) ⟨rfl, rfl, rfl⟩
  notes notice world := calm_of_idle formed (World.later_note world notice) ⟨rfl, rfl, rfl⟩
  meets tag world := calm_of_idle formed (Lasting.plain.meets tag world) ⟨rfl, rfl, rfl⟩
  parses parses world := calm_of_idle formed (Lasting.plain.parses parses world) ⟨rfl, rfl, rfl⟩
  holds held world := by
    apply Follows.modifies
    split
    · exact (Conduct.private display).refl world
    · exact calm_of_idle formed (World.later_holds world _) ⟨rfl, rfl, rfl⟩
  operates _ world follows := follows.ending fun after => calm_closes formed world.holds after
  letsGo _ world := Follows.modifies (calm_closes formed _ world)
  untracks _ _ follows := untracked formed follows
  tracks target key world _ := track formed target key world
  tracksByHand target key := .trackByHand
    (fun world => Follows.modifies (calm_of_attest formed world trivial)) (track formed target key)
  nodes nodes world := calm_of_idle formed (Lasting.plain.nodes nodes world) ⟨rfl, rfl, rfl⟩

/-- Each effect that there is belongs to the display. -/
theorem runEffect (formed : display.Formed) (id : EffectId) (world : World) :
    Follows (Conduct.private display) (Live.runEffect (runTo depth) id) world := by
  have keeps := Runner.keeps_runTo World.Later.refl (fun depth _ => lawful_lasting depth) depth
  have later := (Lasting.runEffect keeps id world).later
  refine Follows.always_iff.mpr ⟨later, fun alone => ?_⟩
  by_cases known : id < world.graph.effects.size
  · have owned := alone.owned id known
    obtain ⟨stands, ⟨newer, since, shown⟩, effects⟩ :=
      Standing.stands_ownRun alone.stands formed owned depth
    refine ⟨stands, secluded_of_deeds alone.secluded since fun deed member => ?_,
      fun other below => alone.owned other (effects ▸ below)⟩
    obtain ⟨holders, rfl⟩ := shown deed member
    exact fun _ => ⟨id, rfl, owned⟩
  · have none : world.graph.effect? id = none := Array.getElem?_eq_none (Nat.le_of_not_lt known)
    have same : worldAfter (Live.runEffect (runTo depth) id) world = world := by
      unfold worldAfter Live.runEffect
      rw [get_bind, none]
      rfl
    rwa [same]

/-! Writes. -/

theorem trigger (formed : display.Formed) (target : TargetId) (name : String) (world : World) :
    Follows (Conduct.private display) (Live.trigger (runTo depth) target name) world :=
  (plain formed).trigger
    (fun _ after => calm_of_idle formed (World.later_holds after _) ⟨rfl, rfl, rfl⟩)
    (runEffect formed) target name world

theorem putValue (formed : display.Formed) (state : TargetId) (key : String) (value : Value)
    (world : World) : Follows (Conduct.private display) (Live.putValue state key value) world :=
  Follows.modifies (calm_of_idle formed (show world.Later _ from Lasting.putValue state key value)
    ⟨rfl, rfl, rfl⟩)

theorem writeValue (formed : display.Formed) (state : TargetId) (key : String) (value : Value)
    (world : World) :
    Follows (Conduct.private display) (Live.writeValue (runTo depth) state key value) world :=
  (plain formed).writeValue (putValue formed state key value world) (trigger formed state key)

/-- A preset is a deed, but it touches no node. -/
theorem presetValue (formed : display.Formed) (state : TargetId) (key : String) (value : Value)
    (world : World) :
    Follows (Conduct.private display) (Live.presetValue state key value) world :=
  (plain formed).presetValue (fun world => Follows.modifies (calm_of_attest formed world trivial))
    (putValue formed state key value) world

end Privacy

/-- These commands write to a state. -/
def Command.isWrite : Command → Bool
  | .state (.set ..) => true
  | .state (.preset ..) => true
  | .state (.increase ..) => true
  | _ => false

namespace Privacy

variable {display : Display}

theorem start_of_isWrite (formed : display.Formed) {command : Command} (writes : command.isWrite = true)
    (world : World) : Follows (Conduct.private display) (Live.start command) world := by
  refine Follows.asks ((plain formed).operation ?_)
  cases command with
  | state command =>
      cases command with
      | set state key value =>
          exact ((plain formed).stateNamed state).bind fun id after _ =>
            (writeValue formed id key value after).bind fun _ _ _ => Follows.pure _
      | preset state key value =>
          exact ((plain formed).stateNamed state).bind fun id after _ =>
            (presetValue formed id key value after).bind fun _ _ _ => Follows.pure _
      | increase state key step =>
          exact ((plain formed).stateNamed state).bind fun id after _ =>
            (Follows.bind (Plain.peekValue id key) fun old found _ =>
              writeValue formed id key (increased step old) found).bind fun _ _ _ => Follows.pure _
      | _ => cases writes
  | _ => cases writes

/-- A display that stands alone is left alone by any number of writes. -/
theorem play_of_isWrite (formed : display.Formed) {commands : List Command}
    (writes : ∀ command ∈ commands, command.isWrite = true) {world : World}
    (alone : display.Private world) : display.Private (world.play commands).2 :=
  (World.play_follows_of (fun world => calm_of_idle formed (World.later_forget world) ⟨rfl, rfl, rfl⟩)
    (fun command member => start_of_isWrite formed (writes command member)) world).2 alone

end Privacy

end LiveMarkup
