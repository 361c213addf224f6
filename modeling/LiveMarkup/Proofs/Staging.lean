import LiveMarkup.Proofs.Stage

/-
This file shows that all code of a world keeps the content of a host up to date, as long as the host is
left to itself. What the host does itself is set apart.
-/

namespace LiveMarkup

/-- Calm code keeps the content of a host up to date. -/
def Conduct.staging (stage : Stage) : Conduct where
  calm before after := before.Later after ∧ stage.Keeps before after
  broken := World.Later
  refl world := ⟨.refl world, .refl stage world⟩
  trans early late := ⟨early.1.trans late.1, early.2.trans early.1 late.2 late.1⟩
  carry early late := early.1.trans late
  settle early late := early.trans late.1

namespace Staging

open Live

variable {stage : Stage} {depth : Nat} {world before after origin : World} {A : Type}

theorem calm_of_steady
    (displays : ∀ display : Display, display.Formed → (Conduct.displaying display).calm before after)
    (steady : before.Steady stage.host after) : (Conduct.staging stage).calm before after :=
  ⟨steady.later, .of_steady displays steady⟩

/-- Code of others keeps the content if it keeps each display, and leaves the content to itself. -/
theorem follows_of_steady {action : Live A}
    (displays : ∀ display : Display, display.Formed → Follows (Conduct.displaying display) action world)
    (steady : Follows (Conduct.steady stage.host) action world) :
    Follows (Conduct.staging stage) action world := by
  unfold Follows at displays steady ⊢
  cases outcome : action world with
  | ok value after =>
      rw [outcome] at displays steady
      exact calm_of_steady displays steady
  | error stop after =>
      rw [outcome] at displays steady
      cases stop with
      | failed error => exact calm_of_steady displays steady
      | panicked payload => exact World.Steady.later steady
      | exhausted => exact World.Steady.later steady

theorem calm_of_same (later : before.Later after) (graph : after.graph = before.graph)
    (targets : after.targets = before.targets) (forest : after.forest = before.forest)
    (hosts : after.hosts = before.hosts) (deeds : after.deeds = before.deeds) :
    (Conduct.staging stage).calm before after :=
  calm_of_steady (fun _ formed => Displaying.calm_of_same formed later targets forest)
    (.of_same later graph hosts deeds (.of_targets targets))

/-- Nodes may change that show nothing in the container. -/
theorem calm_of_forest {forest : Forest Handler} (grows : world.forest.size ≤ forest.size)
    (keeps : ∀ display : Display, display.Formed → display.Stands world →
      Forest.Keeps display.root world.forest forest) :
    (Conduct.staging stage).calm world { world with forest } :=
  calm_of_steady (fun display formed => Displaying.calm_of_forest formed (.of_forest world forest grows)
    rfl fun _ stands => keeps display formed stands) (.forest world grows)

theorem calm_modifyHost {id : HostId} {change : Host → Host}
    (later : world.Later (world.modifyHost id change))
    (mounts : id = stage.host → ∀ record, (change record).mounted = true → record.mounted = true)
    (alive : ∀ record, (change record).alive = true → record.alive = true) :
    (Conduct.staging stage).calm world (world.modifyHost id change) :=
  calm_of_steady (fun _ formed => Displaying.modifyHost formed later) (.modifyHost later mounts alive)

theorem calm_tell (id : HostId) (milestone : Milestone) (world : World) :
    (Conduct.staging stage).calm world (world.tell id milestone) :=
  calm_modifyHost (Lasting.later_tell id milestone world) (fun _ _ mounted => mounted) fun _ lives => lives

theorem calm_collect (world : World) : (Conduct.staging stage).calm world world.collect :=
  calm_of_steady (fun _ formed => Displaying.calm_collect formed world) (.collect world)

theorem calm_holds (holds : List Hold) (world : World) :
    (Conduct.staging stage).calm world { world with holds } :=
  calm_of_same (World.later_holds world holds) rfl rfl rfl rfl rfl

theorem note (notice : Notice) (world : World) :
    (Conduct.staging stage).calm world (world.note notice) :=
  calm_of_same (World.later_note world notice) rfl rfl rfl rfl rfl

/-- Effects that others make belong to others. -/
theorem spares_made {display : Display} {id : EffectId} {task : Task}
    (made : (Conduct.staging stage).Makes task origin id world) (peaceful : stage.Peaceful world)
    (sound : origin.Sound) (presents : stage.Presents display origin) :
    id ∉ stage.effects world.deeds := by
  obtain ⟨before, label, captures, since, number, calm⟩ := made
  let made := before.withEffect label task captures
  have steady : before.Steady stage.host made :=
    .of_gentle (World.gentle_withEffect stage.state label task captures before)
  have peacefulMade := presents.peaceful (since.1.trans steady.later) calm.1 peaceful
  have peacefulBefore := presents.peaceful since.1 (steady.later.trans calm.1) peaceful
  obtain ⟨middle, there⟩ : ∃ middle, stage.Presents middle before := by
    rcases (since.2 peacefulBefore sound display presents).2 with still | ⟨newer, renews⟩
    · exact ⟨display, still.presents⟩
    · exact ⟨newer, renews.presents⟩
  have standing := (there.of_steady peacefulMade
    (Displaying.calm_of_same there.formed steady.later rfl rfl) steady).presents
  have size : made.graph.effects.size = before.graph.effects.size + 1 := Array.size_push _
  intro member
  rcases (calm.2 peaceful (steady.later.sound (since.1.sound sound)) middle standing).2 with
    still | ⟨newer, renews⟩
  · have known := there.known (still.presents.owns_iff.mpr member)
    exact absurd known (number ▸ Nat.lt_irrefl _)
  · have recent := renews.recent id (renews.presents.owns_iff.mpr member)
    rw [size, number] at recent
    exact absurd recent (Nat.not_succ_le_self _)

/-! Frames. -/

/-- The content stands when a frame is taken off. -/
theorem presents_left {display : Display} (presents : stage.Presents display after)
    (reachable : ({ after with graph := after.graph.pop } : World).Reachable) :
    stage.Presents display { after with graph := after.graph.pop } :=
  { presents with
    stands := { presents.stands with
      reachable
      idle := fun id owned member => presents.stands.idle id owned (List.mem_of_mem_tail member) } }

/-- What runs in the frame of a foreign effect keeps the content, and so does the end of the frame. -/
theorem calm_leave {frame : Option EffectId} (allowed : world.graph.Allows (.entered frame))
    (foreign : ∀ id, frame = some id → id ∉ stage.effects world.deeds)
    (calm : (Conduct.staging stage).calm (world.entered frame) after) :
    (Conduct.staging stage).calm world { after with graph := after.graph.pop } := by
  have later := calm.1.leave allowed
  refine ⟨later, fun peaceful sound display presents => ?_⟩
  have grown := Graph.size_moved world.graph (.entered frame)
  have inside : stage.Peaceful after :=
    ⟨peaceful.living, peaceful.methods, peaceful.deeds, peaceful.free⟩
  have soundInside : (world.entered frame).Sound := fun id place refers =>
    Nat.lt_of_lt_of_le (sound id place refers) grown
  have entered : stage.Presents display (world.entered frame) :=
    { presents with
      stands := presents.stands.entered allowed
        fun id same owned => foreign id same (presents.owns_iff.mp owned)
      lasting := fun id owned => (World.isDisposed_entered world frame id).trans (presents.lasting id owned) }
  have reachable := later.reachable presents.stands.reachable
  obtain ⟨mounts, outcome⟩ := calm.2 inside soundInside display entered
  refine ⟨mounts, outcome.imp (fun still => ⟨presents_left still.presents reachable, ?_⟩) ?_⟩
  · exact fun site member old =>
      ⟨(still.fresh site member (Displaying.fresh_entered allowed old)).seen⟩
  · rintro ⟨newer, renews⟩
    exact ⟨newer, presents_left renews.presents reachable,
      fun site member => ⟨(renews.fresh site member).seen⟩,
      fun id owned => Nat.le_trans grown (renews.recent id owned)⟩

theorem inFrame {frame : Option EffectId} {action : Live A}
    (allowed : world.graph.Allows (.entered frame))
    (foreign : ∀ id, frame = some id → id ∉ stage.effects world.deeds)
    (ends : (Conduct.staging stage).Ends (world.entered frame)
      (action { world with graph := world.graph.push frame })) :
    Follows (Conduct.staging stage) (Live.inFrame frame action) world := by
  have left : ∀ after, (Conduct.staging stage).calm (world.entered frame) after →
      (Conduct.staging stage).calm world { after with graph := after.graph.pop }.collect :=
    fun after calm => (Conduct.staging stage).trans (calm_leave allowed foreign calm) (calm_collect _)
  exact Follows.inFrame ends left fun _ later => (later.leave allowed).trans (World.later_collect _)

/-! Effects. -/

/-- The effects of the content keep it up to date. -/
theorem ownedRuns {id : EffectId} (owned : id ∈ stage.effects world.deeds) :
    Follows (Conduct.staging stage) (Live.runEffect (runTo depth) id) world := by
  have lasts := Runner.keeps_runTo World.Later.refl (fun depth _ => lawful_lasting depth) depth
  have later := Lasting.runEffect lasts id world
  unfold Follows at later ⊢
  cases outcome : Live.runEffect (runTo depth) id world with
  | error stop after =>
      rw [outcome] at later
      cases stop with
      | failed error => exact absurd outcome (unfailing_runEffect depth _ world error after)
      | panicked payload => exact later
      | exhausted => exact later
  | ok value after =>
      rw [outcome] at later
      refine ⟨later, fun peaceful _ display presents => ?_⟩
      have owns := presents.owns_iff.mpr owned
      have untouched := presents.untouched (presents.peaceful (.refl world) later peaceful)
      have displaying := (lawful_displaying presents.formed depth).keeps
      have displays := (Displaying.runEffect presents.formed displaying id world).calm outcome
      have steady : world.Steady stage.host after :=
        .of_gentle (Displaying.gentle_runEffect presents.formed owns outcome untouched presents.stands)
      exact ⟨.of_mounted steady.mounted, Or.inl (presents.of_steady peaceful displays steady)⟩

theorem track (target : TargetId) (key : Key) (world : World) :
    Follows (Conduct.staging stage) (Live.track target key) world :=
  follows_of_steady (fun _ formed => Displaying.track formed target key world)
    (Steady.track target key)

theorem calm_closes (holds : List Hold) (world : World) :
    (Conduct.staging stage).calm world { world with holds }.collect :=
  (Conduct.staging stage).trans (calm_holds holds world) (calm_collect _)

theorem plain : Plain (Conduct.staging stage) where
  finishes _ _ _ := calm_of_same
    (.of_same rfl rfl rfl rfl (Nat.le_refl _) (List.suffix_refl _)) rfl rfl rfl rfl rfl
  notes := note
  meets _ _ := calm_of_same
    (.of_same rfl rfl rfl rfl (Nat.le_refl _) (List.suffix_refl _)) rfl rfl rfl rfl rfl
  parses _ _ := calm_of_same
    (.of_same rfl rfl rfl rfl (Nat.le_refl _) (List.suffix_refl _)) rfl rfl rfl rfl rfl
  holds held world := follows_of_steady
    (fun _ formed => (Displaying.plain formed).holds held world) (Steady.hold held)
  operates _ world follows := follows.ending fun after => calm_closes world.holds after
  letsGo _ world := Follows.modifies (calm_closes _ world)
  untracks _ _ follows := inFrame trivial (fun _ impossible => by cases impossible) follows
  tracks target key world _ := track target key world
  tracksByHand target key := .trackByHand (fun world => Follows.modifies (calm_of_steady
    (fun _ formed => Displaying.calm_of_same formed (.attest world _) rfl rfl)
    (.attest world (show (Deed.strayed target).concerns stage.host = false from rfl))))
    (track target key)
  nodes nodes world := calm_of_same (Lasting.plain.nodes nodes world) rfl rfl rfl rfl rfl

theorem runEffect (keeps : (runTo depth).Keeps (Conduct.staging stage)) (id : EffectId) (world : World) :
    Follows (Conduct.staging stage) (Live.runEffect (runTo depth) id) world := by
  by_cases owned : id ∈ stage.effects world.deeds
  · exact ownedRuns owned
  · exact Follows.runEffect keeps (fun notice => note notice world)
      fun allowed _ ends => inFrame allowed (fun _ same => Option.some.inj same ▸ owned) ends

theorem trigger (keeps : (runTo depth).Keeps (Conduct.staging stage)) (target : TargetId) (name : String)
    (world : World) : Follows (Conduct.staging stage) (Live.trigger (runTo depth) target name) world :=
  plain.trigger (fun _ after => calm_holds _ after) (runEffect keeps) target name world

/-- A write that concerned sites of the content is followed by their turns, or by new content. -/
theorem calm_of_written {written : World} (put : world.Later written)
    (presents : ∀ display, stage.Presents display world → stage.Presents display written)
    (mounted : written.Mounted stage.host → world.Mounted stage.host)
    (notified : (Conduct.staging stage).calm written after)
    (displays : ∀ display : Display, display.Formed → (Conduct.displaying display).calm world after) :
    (Conduct.staging stage).calm world after := by
  refine ⟨put.trans notified.1, fun peaceful sound display standing => ?_⟩
  obtain ⟨mounts, outcome⟩ := notified.2 peaceful (put.sound sound) display (presents display standing)
  have first : stage.Mounts world written := .of_mounted mounted
  refine ⟨first.trans put mounts notified.1, outcome.imp (fun still => ⟨still.presents, ?_⟩) ?_⟩
  · exact ((displays display standing.formed).2 (still.presents.untouched peaceful) standing.stands).2
  · exact fun ⟨newer, renews⟩ => ⟨newer, renews.later put⟩

theorem writeValue (keeps : (runTo depth).Keeps (Conduct.staging stage)) (state : TargetId)
    (key : String) (value : Value) (world : World) :
    Follows (Conduct.staging stage) (Live.writeValue (runTo depth) state key value) world := by
  have displays : ∀ display : Display, display.Formed →
      Follows (Conduct.displaying display) (Live.writeValue (runTo depth) state key value) world :=
    fun display formed => (lawful_displaying formed depth).writes state key value world
  unfold Live.writeValue at displays ⊢
  split
  · exact Follows.modifies (note _ world)
  · rename_i free
    simp only [if_neg free] at displays
    let written : World := world.modifyStore state fun store =>
      { store with values := Dictionary.putSorted store.values key value }
    have put : world.Later written := Lasting.putValue state key value
    have lives : written.isAlive stage.state = world.isAlive stage.state := by
      refine World.isAlive_modifyStore ?_ stage.state
      exact fun _ => rfl
    have presents : ∀ display, stage.Presents display world → stage.Presents display written :=
      fun display standing => { standing with
        stands := standing.stands.later put rfl standing.stands.shows
        alive := lives.trans standing.alive }
    have notified : (Conduct.staging stage).Ends written (Live.trigger (runTo depth) state key written) :=
      trigger keeps state key written
    have displayed : ∀ display : Display, display.Formed → (Conduct.displaying display).Ends world
        (Live.trigger (runTo depth) state key written) := displays
    show (Conduct.staging stage).Ends world (Live.trigger (runTo depth) state key written)
    cases outcome : Live.trigger (runTo depth) state key written with
    | ok result after =>
        rw [outcome] at notified displayed
        exact calm_of_written put presents (fun mounted => mounted) notified displayed
    | error stop after =>
        rw [outcome] at notified displayed
        cases stop with
        | failed error => exact calm_of_written put presents (fun mounted => mounted) notified displayed
        | panicked payload => exact put.trans notified
        | exhausted => exact put.trans notified

/-! References. -/

/-- Names and hosts may come to refer to effects that others made. -/
theorem calm_of_references (calm : (Conduct.staging stage).calm origin world) (later : origin.Later after)
    (alike : world.Alike after) (same : world.SameHost stage.host after)
    (refers : ∀ id place, after.RefersAt id place → world.RefersAt id place ∨
      ∃ task, (Conduct.staging stage).Makes task origin id world) :
    (Conduct.staging stage).calm origin after := by
  have peace : stage.Peaceful after → stage.Peaceful world :=
    fun peaceful => peaceful.of_same alike.targets alike.deeds same.living
  refine ⟨later, calm.2.extend alike.deeds same.mounted peace ?_⟩
  intro peaceful sound old presents display standing
  refine standing.alike alike same.record fun id place owned reached => ?_
  refine (refers id place reached).resolve_right fun ⟨_, made⟩ => ?_
  exact spares_made made (peace peaceful) sound presents (standing.owns_iff.mp owned)

/-- The effects that scripts dispose are not those of the content. -/
theorem calm_disposeEffect {id : EffectId} (calm : (Conduct.staging stage).calm origin world)
    (commands : origin.Commands id) : (Conduct.staging stage).calm origin (world.disposeEffect id) := by
  have later := World.later_disposeEffect world id
  have sweeps := World.sweeps_disposeEffect world id
  obtain ⟨targets, hosts⟩ := World.objects_disposeEffect world id
  have same : world.SameHost stage.host (world.disposeEffect id) := .of_eq hosts
  have peace : stage.Peaceful (world.disposeEffect id) → stage.Peaceful world :=
    fun peaceful => peaceful.of_same targets sweeps.deeds same.living
  refine ⟨calm.1.trans later, calm.2.extend sweeps.deeds same.mounted peace ?_⟩
  intro peaceful sound old presents display standing
  refine standing.continues peaceful (Displaying.calm_of_sweeps standing.formed later sweeps)
    ⟨[], sweeps.deeds, fun _ impossible => by cases impossible⟩ (fun other owned => ?_)
    (.of_targets targets)
  have apart : id ≠ other := by
    rintro rfl
    exact calm.2.spares_commanded (peace peaceful) sound presents commands (standing.owns_iff.mp owned)
  rw [World.isDisposed_disposeEffect apart]
  exact standing.lasting other owned

end Staging

end LiveMarkup
