import LiveMarkup.Proofs.Attribution
import LiveMarkup.Proofs.Secluded

/-
This file shows that a display stands as long as nobody else edits below its root, whatever else happens:
states may end and be released, effects may be disposed, and code may break off.
-/

namespace LiveMarkup

open Live

namespace Display

/-- Since it was opened, nobody but the effects of a display touched what hangs below its root. -/
def Secluded (display : Display) (world : World) : Prop :=
  ∃ newer, world.deeds = newer ++ display.deeds ∧
    ∀ deed ∈ newer, deed.StaysOut display.root display.Owns

variable {display : Display} {before after : World}

/-- All that hangs below the root is kept. -/
theorem Stands.shelter (stands : display.Stands before) (formed : display.Formed)
    (later : before.Later after) (keeps : Forest.Keeps display.root before.forest after.forest) :
    display.Stands after := by
  obtain ⟨shown, shows⟩ := stands.shows
  exact stands.later later keeps.children ⟨shown, fun spot member =>
    keeps.shows (hangs_of_stands formed stands member) (shows spot member)⟩

end Display

/-- Nodes and deeds are the same, and no effect is new. -/
structure World.Idle (before after : World) : Prop where
  forest : after.forest = before.forest
  deeds : after.deeds = before.deeds
  effects : after.graph.effects.size = before.graph.effects.size

namespace Display

/-- What stands goes on standing where it is left alone. -/
def Shelters (display : Display) (before after : World) : Prop :=
  before.Later after ∧ (display.Secluded after → display.Stands before → display.Stands after)

theorem Shelters.refl (display : Display) (world : World) : display.Shelters world world :=
  ⟨.refl world, fun _ stands => stands⟩

theorem Shelters.trans {display : Display} {first second third : World}
    (early : display.Shelters first second) (late : display.Shelters second third) :
    display.Shelters first third := by
  refine ⟨early.1.trans late.1, fun secluded stands => ?_⟩
  have moved := stands.deeds.trans early.1.deeds
  have between : display.Secluded second := by
    obtain ⟨newer, since⟩ := late.1.deeds
    exact (Deed.forall_of_suffix secluded since.symm moved).2
  exact late.2 secluded (early.2 between stands)

end Display

/-- This conduct shelters a display, however code ends. -/
def Conduct.standing (display : Display) : Conduct :=
  .always display.Shelters (Display.Shelters.refl display) Display.Shelters.trans

namespace Standing

variable {display : Display} {depth : Nat} {world before after origin : World} {A : Type}

theorem calm_of_keeps (formed : display.Formed) (later : before.Later after)
    (keeps : display.Secluded after → display.Stands before →
      Forest.Keeps display.root before.forest after.forest) :
    (Conduct.standing display).calm before after :=
  ⟨later, fun secluded stands => stands.shelter formed later (keeps secluded stands)⟩

/-- What happens elsewhere than among the nodes does not matter. -/
theorem calm_of_forest (formed : display.Formed) (later : before.Later after)
    (forest : after.forest = before.forest) : (Conduct.standing display).calm before after :=
  calm_of_keeps formed later fun _ _ => forest ▸ .refl _ _

theorem calm_collect (formed : display.Formed) (world : World) :
    (Conduct.standing display).calm world world.collect :=
  calm_of_forest formed (World.later_collect world) (World.sweeps_collect world).forest

/-- More may be said of what led here, if it concerns no node. -/
theorem calm_of_later (calm : (Conduct.standing display).calm origin before)
    (later : origin.Later after) (forest : after.forest = before.forest)
    (deeds : after.deeds = before.deeds) : (Conduct.standing display).calm origin after := by
  refine ⟨later, fun secluded stands => ?_⟩
  have early : display.Secluded before := by
    obtain ⟨newer, since, out⟩ := secluded
    exact ⟨newer, deeds.symm.trans since, out⟩
  have standing := calm.2 early stands
  exact stands.later later
    (by rw [forest]; exact standing.children.trans stands.children.symm)
    (by rw [forest]; exact standing.shows)

/-! Frames. -/

theorem calm_leave {frame : Option EffectId} (allowed : world.graph.Allows (.entered frame))
    (foreign : ∀ id, frame = some id → ¬ display.Owns id)
    (calm : (Conduct.standing display).calm (world.entered frame) after) :
    (Conduct.standing display).calm world { after with graph := after.graph.pop } := by
  have later := calm.1.leave allowed
  refine ⟨later, fun secluded stands => ?_⟩
  have standing := calm.2 secluded (stands.entered allowed foreign)
  exact stands.later later (standing.children.trans stands.children.symm) standing.shows

theorem inFrame (formed : display.Formed) {frame : Option EffectId} {action : Live A}
    (allowed : world.graph.Allows (.entered frame))
    (foreign : ∀ id, frame = some id → ¬ display.Owns id)
    (ends : (Conduct.standing display).Ends (world.entered frame)
      (action { world with graph := world.graph.push frame })) :
    Follows (Conduct.standing display) (Live.inFrame frame action) world := by
  have left : ∀ after, (Conduct.standing display).calm (world.entered frame) after →
      (Conduct.standing display).calm world { after with graph := after.graph.pop }.collect :=
    fun _ calm => (Conduct.standing display).trans (calm_leave allowed foreign calm)
      (calm_collect formed _)
  exact Follows.inFrame ends left left

/-! Effects. -/

theorem of_worldAfter {action : Live A} (later : world.Later (worldAfter action world))
    (stands : display.Stands world → display.Stands (worldAfter action world)) :
    Follows (Conduct.standing display) action world :=
  Follows.always_iff.mpr ⟨later, fun _ => stands⟩

/-- A binding runs to its end, or it does nothing. -/
theorem idle_or_ran (state : TargetId) (ran : World → Prop) {id : EffectId} {effect : Effect Task}
    (found : world.graph.effect? id = some effect)
    (rests : ∀ run (inner : World), inner.isAlive state = false →
      performTask run effect.task inner = .ok .null inner)
    (runs : effect.disposed = false → world.graph.isRunning id = false →
      world.isAlive state = true → ∀ depth, ∃ after,
        Live.runEffect (runTo (depth + 1)) id world = .ok () after ∧ ran after)
    (depth : Nat) :
    world.Idle (worldAfter (Live.runEffect (runTo depth) id) world) ∨
      ran (worldAfter (Live.runEffect (runTo depth) id) world) := by
  have closes : ∀ inner : World, inner.forest = world.forest → inner.deeds = world.deeds →
      inner.graph.effects.size = world.graph.effects.size →
      world.Idle { inner with graph := inner.graph.pop }.collect := fun inner forest deeds effects => by
    have sweeps := World.sweeps_collect { inner with graph := inner.graph.pop }
    exact ⟨sweeps.forest.trans forest, sweeps.deeds.trans deeds, sweeps.effects.trans effects⟩
  by_cases gone : effect.disposed = true
  · unfold worldAfter
    rw [runEffect_apply _ found, if_pos gone]
    exact Or.inl ⟨rfl, rfl, rfl⟩
  by_cases busy : world.graph.isRunning id = true
  · unfold worldAfter
    rw [runEffect_apply _ found, if_neg gone, if_pos busy]
    exact Or.inl ⟨rfl, rfl, rfl⟩
  have counted := World.size_entered world (some id)
  cases depth with
  | zero =>
      unfold worldAfter
      rw [runEffect_apply _ found, if_neg gone, if_neg busy]
      exact Or.inl (closes (world.entered (some id)) rfl rfl counted)
  | succ depth =>
      by_cases alive : world.isAlive state = true
      · obtain ⟨after, returns, changes⟩ := runs (Bool.eq_false_iff.mpr gone)
          (Bool.eq_false_iff.mpr busy) alive depth
        unfold worldAfter
        rw [returns]
        exact Or.inr changes
      · have dead : (world.entered (some id)).isAlive state = false := Bool.eq_false_iff.mpr alive
        have body : (do modifyGraph (·.countRun id); discard (runTo (depth + 1) (.task effect.task)) :
            Live Unit) { world with graph := world.graph.push (some id) } =
              .ok () (world.entered (some id)) := by
          show discard (performTask (runTo depth) effect.task) (world.entered (some id)) = _
          rw [discard_apply, rests _ _ dead]
        have ended : runBody (runTo (depth + 1)) id effect world =
            .ok () { world.entered (some id) with
              graph := (world.entered (some id)).graph.pop }.collect := by
          show ending _ (fun after => { after with graph := after.graph.pop }.collect)
            { world with graph := world.graph.push (some id) } = _
          unfold ending
          rw [body]
        unfold worldAfter
        rw [runEffect_apply _ found, if_neg gone, if_neg busy, ended]
        exact Or.inl (closes (world.entered (some id)) rfl rfl counted)

/-- A binding whose state is gone does nothing. -/
theorem whileAlive_of_gone {state : TargetId} (gone : world.isAlive state = false)
    (action : Live Unit) : (do whileAlive state action; pure .null : Live Value) world =
      .ok .null world := by
  apply bind_of_ok
  unfold whileAlive
  rw [get_bind, if_neg (by simp [gone])]
  rfl

/-- An effect of the display may change what its site shows, or the value of its input. -/
theorem ranOwn (stands : display.Stands world) (formed : display.Formed) {id : EffectId}
    (owned : display.Owns id) (depth : Nat) :
    let final := worldAfter (Live.runEffect (runTo depth) id) world
    world.Idle final ∨
      (∃ site names text, display.HasSite site ∧
        world.Refreshed display.state id names (·.setTextContent site.node text) final) ∨
      ∃ node names text, world.Refreshed display.state id names (·.refreshValue node text) final := by
  have stored : world.isAlive display.state = true → ∃ store,
      world.store? display.state = some store ∧ store.alive = true := by
    intro alive
    obtain ⟨store, known⟩ := Option.isSome_iff_exists.mp stands.store
    unfold World.isAlive at alive
    rw [known] at alive
    exact ⟨store, known, alive⟩
  rcases owned with ⟨site, member, rfl⟩ | member
  · obtain ⟨effect, found, task⟩ := stands.tasks site member
    have ran := idle_or_ran display.state
      (fun final => ∃ names text, world.Refreshed display.state (display.effectAt site.node) names
        (·.setTextContent site.node text) final) found
      (fun run inner gone => by rw [task, Site.performTask_eq]; exact whileAlive_of_gone gone _)
      (fun lasting idle alive depth => by
        obtain ⟨store, known, lives⟩ := stored alive
        obtain ⟨after, returns, refreshed⟩ := World.refreshed_runEffect depth found task lasting idle
          known lives (formed.free site member) stands.reachable
        exact ⟨after, returns, _, _, refreshed⟩) depth
    exact ran.imp_right fun ⟨names, text, refreshed⟩ => Or.inl ⟨site, names, text, member, refreshed⟩
  · obtain ⟨node, source, ⟨effect, found, task⟩, free⟩ := stands.inputs id member
    have ran := idle_or_ran display.state
      (fun final => ∃ names text,
        world.Refreshed display.state id names (·.refreshValue node text) final) found
      (fun run inner gone => by rw [task]; exact whileAlive_of_gone gone _)
      (fun lasting idle alive depth => by
        obtain ⟨store, known, lives⟩ := stored alive
        obtain ⟨after, returns, refreshed⟩ := World.refreshed_valueBinding depth found task lasting idle
          known lives free stands.reachable
        exact ⟨after, returns, _, _, refreshed⟩) depth
    exact ran.imp_right fun ⟨names, text, refreshed⟩ => Or.inr ⟨node, names, text, refreshed⟩

/-- The effects of the display leave it standing, show only what is theirs, and make no effects. -/
theorem stands_ownRun (stands : display.Stands world) (formed : display.Formed) {id : EffectId}
    (owned : display.Owns id) (depth : Nat) :
    let final := worldAfter (Live.runEffect (runTo depth) id) world
    display.Stands final ∧ world.ShownBy (some id) final ∧
      final.graph.effects.size = world.graph.effects.size := by
  have keeps := Runner.keeps_runTo World.Later.refl (fun depth _ => lawful_lasting depth) depth
  have later := (Lasting.runEffect keeps id world).later
  rcases ranOwn stands formed owned depth with
    idle | ⟨site, names, text, member, refreshed⟩ | ⟨node, names, text, refreshed⟩
  · exact ⟨stands.shelter formed later (idle.forest ▸ .refl _ _),
      ⟨[], idle.deeds, fun _ impossible => by cases impossible⟩, idle.effects⟩
  · exact ⟨(stands.rewritten formed member later refreshed.forest).1, refreshed.deeds,
      refreshed.effects⟩
  · refine ⟨stands.shelter formed later ?_, refreshed.deeds, refreshed.effects⟩
    rw [refreshed.forest]
    unfold Forest.refreshValue
    split
    · exact .setValue node _
    · exact .refl _ _

theorem ownRun (formed : display.Formed) {id : EffectId} (owned : display.Owns id) (world : World) :
    Follows (Conduct.standing display) (Live.runEffect (runTo depth) id) world := by
  have keeps := Runner.keeps_runTo World.Later.refl (fun depth _ => lawful_lasting depth) depth
  exact of_worldAfter (Lasting.runEffect keeps id world).later
    fun stands => (stands_ownRun stands formed owned depth).1

theorem runEffect (formed : display.Formed)
    (keeps : (runTo depth).Keeps (Conduct.standing display)) (id : EffectId) (world : World) :
    Follows (Conduct.standing display) (Live.runEffect (runTo depth) id) world := by
  by_cases owned : display.Owns id
  · exact ownRun formed owned world
  · exact Follows.runEffect keeps
      (fun notice => calm_of_forest formed (World.later_note world notice) rfl)
      fun allowed _ ends => inFrame formed allowed
        (fun _ same owns => owned (Option.some.inj same ▸ owns)) ends

theorem track (formed : display.Formed) (target : TargetId) (key : Key) (world : World) :
    Follows (Conduct.standing display) (Live.track target key) world :=
  Follows.modifies (calm_of_forest formed (show world.Later _ from Lasting.track target key) rfl)

theorem calm_closes (formed : display.Formed) (holds : List Hold) (world : World) :
    (Conduct.standing display).calm world { world with holds }.collect :=
  (Conduct.standing display).trans
    (calm_of_forest formed (World.later_holds world holds) rfl) (calm_collect formed _)

theorem plain (formed : display.Formed) : Plain (Conduct.standing display) where
  finishes name outcome world :=
    calm_of_forest formed (Lasting.plain.finishes name outcome world) rfl
  notes notice world := calm_of_forest formed (World.later_note world notice) rfl
  meets tag world := calm_of_forest formed (Lasting.plain.meets tag world) rfl
  parses parses world := calm_of_forest formed (Lasting.plain.parses parses world) rfl
  holds held world := by
    apply Follows.modifies
    split
    · exact (Conduct.standing display).refl world
    · exact calm_of_forest formed (World.later_holds world _) rfl
  operates _ world follows := follows.ending fun after => calm_closes formed world.holds after
  letsGo _ world := Follows.modifies (calm_closes formed _ world)
  untracks _ _ follows := inFrame formed trivial (fun _ impossible => by cases impossible) follows
  tracks target key world _ := track formed target key world
  tracksByHand target key := .trackByHand (fun world => Follows.modifies
    (calm_of_forest formed (.attest world _) rfl)) (track formed target key)
  nodes nodes world := calm_of_forest formed (Lasting.plain.nodes nodes world) rfl

theorem admits (formed : display.Formed) : display.Admits (Conduct.standing display) where
  plain := plain formed
  formed := formed
  attested world deed forest grows keeps := by
    have later : world.Later { world.attest deed with forest } :=
      .of_same rfl rfl rfl rfl grows (List.suffix_cons _ _)
    apply calm_of_keeps formed later
    intro secluded stands
    have out := (Deed.forall_of_suffix secluded (show _ = [deed] ++ _ from rfl) stands.deeds).1
    exact keeps stands (out deed (List.mem_singleton_self deed))

theorem trigger (formed : display.Formed)
    (keeps : (runTo depth).Keeps (Conduct.standing display)) (target : TargetId) (name : String)
    (world : World) :
    Follows (Conduct.standing display) (Live.trigger (runTo depth) target name) world :=
  (plain formed).trigger (fun _ after => calm_of_forest formed (World.later_holds after _) rfl)
    (runEffect formed keeps) target name world

theorem putValue (formed : display.Formed) (state : TargetId) (key : String) (value : Value)
    (world : World) : Follows (Conduct.standing display) (Live.putValue state key value) world :=
  Follows.modifies (calm_of_forest formed
    (show world.Later _ from Lasting.putValue state key value) rfl)

theorem writeValue (formed : display.Formed)
    (keeps : (runTo depth).Keeps (Conduct.standing display)) (state : TargetId) (key : String)
    (value : Value) (world : World) :
    Follows (Conduct.standing display) (Live.writeValue (runTo depth) state key value) world :=
  (plain formed).writeValue (putValue formed state key value world) (trigger formed keeps state key)

theorem presetValue (formed : display.Formed) (state : TargetId) (key : String) (value : Value)
    (world : World) :
    Follows (Conduct.standing display) (Live.presetValue state key value) world :=
  (plain formed).presetValue (fun world => Follows.modifies
    (calm_of_forest formed (.attest world _) rfl)) (putValue formed state key value) world

theorem dropBindings (formed : display.Formed) (id : HostId) (world : World) :
    Follows (Conduct.standing display) (Live.dropBindings id) world := by
  refine Follows.asks ?_
  split
  · exact Follows.pure _
  · rename_i host _
    have emptied := World.later_modifyHost world id (fun host => { host with bindings := {} })
      (fun _ => rfl) (fun _ => rfl) (fun _ lives => lives) (fun _ => Or.inr rfl)
      (fun _ => Or.inl rfl)
    have first : Follows (Conduct.standing display)
        (Live.modifyHost id fun host => { host with bindings := {} }) world :=
      calm_of_forest formed emptied rfl
    refine first.bind fun _ after _ => Follows.modifies ?_
    exact (Conduct.standing display).trans
      (calm_of_forest formed (World.later_disposeBindings after host.bindings)
        (World.sweeps_disposeBindings after host.bindings).forest) (calm_collect formed _)

theorem installContent (formed : display.Formed) (id : HostId) (host : Host) (bindings : Bindings)
    (fragment : NodeId) (origin world : World) (calm : (Conduct.standing display).calm origin world)
    (begotten : ∀ effect ∈ bindings.effects, (Conduct.standing display).Begets origin effect world) :
    (Conduct.standing display).Ends origin
      (Live.installContent id host bindings fragment world) := by
  have later := Lasting.installContent id host bindings fragment origin world calm.1
    fun effect listed => (begotten effect listed).imp And.left
  have shown := (admits formed).replaced id bindings.effects host.container fragment world
  exact calm_of_later ((Conduct.standing display).trans calm shown) later rfl rfl

theorem removeContent (formed : display.Formed) (id : HostId) (host : Host) (world : World) :
    Follows (Conduct.standing display) (Live.removeContent id host) world := by
  have cleared := (admits formed).cleared id host.container world
  exact (Conduct.standing display).trans cleared (calm_of_forest formed
    (World.later_modifyHost _ id _ (fun _ => rfl) (fun _ => rfl) (fun _ lives => lives)
      (fun _ => Or.inl rfl) (fun _ => Or.inl rfl)) rfl)

/-! All operations. -/

theorem basic (formed : display.Formed)
    (keeps : (runTo depth).Keeps (Conduct.standing display)) :
    Basic (Conduct.standing display) (runTo depth) where
  toPlain := plain formed
  keeps := keeps
  breaks calm := calm
  tracksHost _ host key world _ _ := track formed host.state key world
  records happening world := calm_of_forest formed ((lawful_lasting depth).records happening world) rfl
  names names world rearranged :=
    calm_of_forest formed ((lawful_lasting depth).names names world rearranged) rfl
  recovers {before after} kind payload calm := by
    have caught : after.Later ((after.note (.hookPanicked kind payload)).attest (.recovered payload)) :=
      (World.later_note after _).trans (.attest _ _)
    exact (Conduct.standing display).trans calm (calm_of_forest formed caught rfl)
  emits id _ world _ := calm_of_forest formed (Lasting.later_tell id _ world) rfl

theorem primitive (formed : display.Formed)
    (keeps : (runTo depth).Keeps (Conduct.standing display)) :
    Primitive (Conduct.standing display) (runTo depth) fun _ => False where
  toBasic := basic formed keeps
  collects := calm_collect formed
  addsTarget store world alive := calm_of_forest formed
    ((Lasting.primitive (lawful_lasting depth).keeps).addsTarget store world alive) rfl
  presets := presetValue formed
  writes := writeValue formed keeps
  addsMethod state name method world := Follows.modifies (calm_of_forest formed
    ((lawful_lasting depth).addsMethod state name method world).later rfl)
  starts label task captures world _ :=
    calm_of_forest formed (Lasting.later_withEffect label task captures world) rfl
  runsEffect id world _ := runEffect formed keeps id world
  triggers := trigger formed keeps
  releases target world := by
    have released : (Conduct.standing display).calm world
        { world.attest (.released target) with graph := world.graph.release target } :=
      calm_of_forest formed (Lasting.releaseTarget target world) rfl
    exact released
  disposes id origin world calm _ := (Conduct.standing display).trans calm (calm_of_forest formed
    (World.later_disposeEffect world id) (World.sweeps_disposeEffect world id).forest)
  namesEffect name id origin world calm begotten := calm_of_later calm
    ((Lasting.primitive (lawful_lasting depth).keeps).namesEffect name id origin world calm.1
      (begotten.imp And.left)) rfl rfl
  namesBindings name bindings origin world calm begotten := calm_of_later calm
    ((Lasting.primitive (lawful_lasting depth).keeps).namesBindings name bindings origin world
      calm.1 fun id listed => (begotten id listed).imp And.left) rfl rfl
  createsNode content world := calm_of_keeps formed
    (.of_forest world _ (by rw [Forest.size_create]; exact Nat.le_succ _))
    fun _ stands => .create content (Display.root_lt_size formed stands)
  plants trees world := calm_of_keeps formed
    (.of_forest world _ (Forest.size_plantFragment world.forest trees))
    fun _ stands => .plantFragment trees (Display.root_lt_size formed stands)
  setsValue node value world := calm_of_keeps formed
    (.of_forest world _ (Nat.le_of_eq (Forest.size_setValue world.forest node value).symm))
    fun _ _ => .setValue node value
  listens node kind handler world := calm_of_keeps formed
    (.of_forest world _ (Nat.le_of_eq (Forest.size_listen world.forest node kind handler).symm))
    fun _ _ => .listen node kind handler
  edits := (admits formed).edits
  shows := (admits formed).showAt
  tells id milestone world _ := calm_of_forest formed (Lasting.later_tell id milestone world) rfl
  addsHost component state container _ world calm _ _ := (Conduct.standing display).trans calm
    (calm_of_forest formed (Lasting.later_withHost component state container world) rfl)
  startsRenderer label id world :=
    calm_of_forest formed (Lasting.later_withEffect label (.render id) [] world) rfl
  runsRenderer := runEffect formed keeps
  rendersBy id effect origin world calm made := calm_of_later calm
    ((Lasting.primitive (lawful_lasting depth).keeps).rendersBy id effect origin world calm.1
      (made.imp And.left)) rfl rfl
  namesHost name id world := calm_of_forest formed
    ((Lasting.primitive (lawful_lasting depth).keeps).namesHost name id world) rfl
  mounts id world foreign := calm_of_forest formed
    ((Lasting.primitive (lawful_lasting depth).keeps).mounts id world foreign) rfl
  changesTemplate id template world := calm_of_forest formed
    ((lawful_lasting depth).changesTemplate id template world) rfl
  hooks id kind body world := calm_of_forest formed
    ((lawful_lasting depth).hooks id kind body world) rfl
  templates id template world _ := calm_of_forest formed (.attest world _) rfl
  dropsContent id world _ := dropBindings formed id world
  installs id host bindings fragment origin world _ :=
    installContent formed id host bindings fragment origin world
  removes id host world _ := removeContent formed id host world
  rendersOwn _ _ impossible := impossible.elim
  mountsOwn _ _ impossible := impossible.elim
  rerendersOwn _ _ impossible := impossible.elim
  destroysOwn _ _ impossible := impossible.elim

end Standing

/-- Whatever code runs and however it ends, it leaves a display standing that is left alone. -/
theorem lawful_standing {display : Display} (formed : display.Formed) (depth : Nat) :
    Lawful (Conduct.standing display) (Live.runTo depth) :=
  (Standing.primitive formed (Runner.keeps_runTo (Conduct.standing display).refl
    (fun _ keeps => (Standing.primitive formed keeps).lawful) depth)).lawful

end LiveMarkup
