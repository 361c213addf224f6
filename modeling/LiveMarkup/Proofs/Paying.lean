import LiveMarkup.Proofs.Paced
import LiveMarkup.Proofs.Notification

/-
This file shows that scripts, bindings and notifications begin no renders that are not accounted for, as long as
the code that they run does not.
-/

namespace LiveMarkup

/-- However code ends, hosts stay furnished and no render is owed. A host is housed once it has a render effect.
Only code that renders no host fits. -/
def Conduct.pacing : Conduct where
  calm before after := before.Furnished → before.Paces .none after
  broken before after := before.Furnished → before.Paces .none after
  refl _ furnished := .refl furnished
  trans early late furnished := (early furnished).steadily (late (early furnished).furnished)
  carry early late furnished := (early furnished).steadily (late (early furnished).furnished)
  settle early late furnished := (early furnished).steadily (late (early furnished).furnished)
  housed id world := ∃ effect, world.HasTask effect (.render id)
  fits activity _ := ∀ id, activity ≠ .task (.render id)

/-- One render is owed to an effect that runs once. -/
def Debt.single (id : EffectId) : Debt := fun effect => if effect = id then 1 else 0

theorem Debt.single_nonneg (id effect : EffectId) : 0 ≤ Debt.single id effect := by
  unfold Debt.single
  split <;> decide

namespace Pacing

open Live

variable {A B : Type} {run : Runner} {world before after origin : World} {id : HostId} {effect : EffectId}
  {owed more : Debt}

theorem ends_iff {action : Live A} :
    Conduct.pacing.Ends origin (action world) ↔
      (origin.Furnished → origin.Paces .none (worldAfter action world)) := by
  unfold worldAfter
  cases action world with
  | ok value after => exact Iff.rfl
  | error stop after => cases stop <;> exact Iff.rfl

/-- Wherever code leads, so many renders are owed at most. -/
def Owes (owed : Debt) (action : Live A) (world : World) : Prop :=
  world.Furnished → world.Paces owed (worldAfter action world)

theorem follows_iff {action : Live A} : Follows Conduct.pacing action world ↔ Owes .none action world := ends_iff

/-- Code that fits worlds with hosts that are furnished follows. -/
theorem follows_of {action : Live A} (follows : world.Furnished → Follows Conduct.pacing action world) :
    Follows Conduct.pacing action world :=
  follows_iff.mpr fun furnished => follows_iff.mp (follows furnished) furnished

namespace Owes

/-- Debts add up. -/
theorem bind {action : Live A} {next : A → Live B} (first : Owes owed action world)
    (second : ∀ value after, action world = .ok value after → Owes more (next value) after)
    (some : ∀ effect, 0 ≤ more effect) :
    Owes (fun effect => owed effect + more effect) (action >>= next) world := by
  intro furnished
  have early := first furnished
  refine worldAfter_bind (fun stop after outcome => ?_) fun value after outcome => ?_
  · rw [worldAfter_of_error outcome] at early
    exact early.mono fun effect _ => Int.le_add_of_nonneg_right (some effect)
  · rw [worldAfter_of_ok outcome] at early
    exact early.trans (second value after outcome early.furnished)

theorem mono {action : Live A} (owes : Owes owed action world)
    (least : ∀ effect, owed effect ≤ more effect) : Owes more action world :=
  fun furnished => (owes furnished).mono fun effect _ => least effect

/-- Code that follows the conduct owes nothing. -/
theorem follows_bind {action : Live A} {next : A → Live B} (first : Follows Conduct.pacing action world)
    (second : ∀ value after, action world = .ok value after → Owes owed (next value) after)
    (some : ∀ effect, 0 ≤ owed effect) : Owes owed (action >>= next) world :=
  (Owes.bind (follows_iff.mp first) second some).mono fun effect => Int.le_of_eq (Int.zero_add (owed effect))

theorem of_follows {action : Live A} (follows : Follows Conduct.pacing action world)
    (some : ∀ effect, 0 ≤ owed effect) : Owes owed action world :=
  (follows_iff.mp follows).mono some

end Owes

/-! What concerns neither hosts nor notices nor the number of effects. -/

/-- Hosts and names are the same, and no effect is new. -/
theorem calm_of_later (later : before.Later after) (size : after.graph.effects.size = before.graph.effects.size)
    (hosts : after.hosts = before.hosts) (names : after.names = before.names)
    (notices : after.notices = before.notices) : Conduct.pacing.calm before after :=
  fun furnished => .of_same furnished later size hosts (fun entry member => ⟨entry, names ▸ member, rfl⟩)
    (notices ▸ List.suffix_refl _)

theorem calm_of_same (graph : after.graph = before.graph) (targets : after.targets = before.targets)
    (hosts : after.hosts = before.hosts) (names : after.names = before.names)
    (forest : before.forest.size ≤ after.forest.size) (deeds : before.deeds <:+ after.deeds)
    (notices : after.notices = before.notices) : Conduct.pacing.calm before after :=
  calm_of_later (.of_same graph targets hosts names forest deeds) (by rw [graph]) hosts names notices

theorem note (notice : Notice) (world : World) : Conduct.pacing.calm world (world.note notice) :=
  fun furnished => .of_same furnished (World.later_note world notice) rfl rfl
    (fun entry member => ⟨entry, member, rfl⟩) (List.suffix_cons _ _)

theorem attest (deed : Deed) (world : World) : Conduct.pacing.calm world (world.attest deed) :=
  calm_of_same rfl rfl rfl rfl (Nat.le_refl _) (List.suffix_cons _ _) rfl

theorem calm_closes (holds : List Hold) (world : World) :
    Conduct.pacing.calm world { world with holds }.collect := by
  have held : Conduct.pacing.calm world { world with holds } :=
    calm_of_same rfl rfl rfl rfl (Nat.le_refl _) (List.suffix_refl _) rfl
  exact Conduct.pacing.trans held fun furnished => .collect furnished

theorem track (target : TargetId) (key : Key) (world : World) :
    Follows Conduct.pacing (Live.track target key) world := by
  have follows : Follows Conduct.lasting (Live.track target key) world := Lasting.track target key
  exact Follows.modifies (calm_of_later follows.later (Graph.size_track _ _) rfl rfl rfl)

theorem putValue (state : TargetId) (key : String) (value : Value) (world : World) :
    Follows Conduct.pacing (Live.putValue state key value) world := by
  have follows : Follows Conduct.lasting (Live.putValue state key value) world := Lasting.putValue state key value
  exact Follows.modifies (calm_of_later follows.later rfl rfl rfl rfl)

/-- Names change without new names for effects and hosts. -/
theorem calm_names {names : Names} (rearranged : world.names.Rearranged names) :
    Conduct.pacing.calm world { world with names } := by
  intro furnished
  have later : world.Later { world with names } := Lasting.later_names (.refl world) names
    (fun entry member => Or.inl (rearranged.effects entry member))
    fun entry member id listed => Or.inl (rearranged.bindings entry member id listed)
  exact .of_same furnished later rfl rfl rearranged.hosts (List.suffix_refl _)

theorem calm_modifyHost {change : Host → Host} (later : world.Later (world.modifyHost id change))
    (story : ∀ host, (change host).story = host.story) (bindings : ∀ host, (change host).bindings = host.bindings)
    (mounted : ∀ host, host.mounted = true → (change host).mounted = true) :
    Conduct.pacing.calm world (world.modifyHost id change) :=
  fun furnished => .modifyHost furnished later story bindings mounted

/-! Frames. -/

theorem owes_inFrame {frame : Option EffectId} {action : Live A} (allowed : world.graph.Allows (.entered frame))
    (inside : world.Furnished → (world.entered frame).Paces owed
      (worldAfter action { world with graph := world.graph.push frame })) :
    Owes owed (Live.inFrame frame action) world := by
  intro furnished
  have left := (inside furnished).leave furnished allowed
  have collected := left.trans (.collect left.furnished)
  have same : worldAfter (Live.inFrame frame action) world =
      { worldAfter action { world with graph := world.graph.push frame } with
        graph := (worldAfter action { world with graph := world.graph.push frame }).graph.pop }.collect :=
    worldAfter_ending action _ _
  rw [same]
  exact collected.mono fun effect _ => Int.le_of_eq (Int.add_zero (owed effect))

theorem inFrame {frame : Option EffectId} {action : Live A} (allowed : world.graph.Allows (.entered frame))
    (ends : Conduct.pacing.Ends (world.entered frame) (action { world with graph := world.graph.push frame })) :
    Follows Conduct.pacing (Live.inFrame frame action) world :=
  follows_iff.mpr (owes_inFrame allowed fun furnished => ends_iff.mp ends (furnished.entered allowed))

theorem plain : Plain Conduct.pacing where
  finishes _ _ _ := calm_of_same rfl rfl rfl rfl (Nat.le_refl _) (List.suffix_refl _) rfl
  notes := note
  meets _ _ := calm_of_same rfl rfl rfl rfl (Nat.le_refl _) (List.suffix_refl _) rfl
  parses _ _ := calm_of_same rfl rfl rfl rfl (Nat.le_refl _) (List.suffix_refl _) rfl
  holds held world := by
    refine Follows.modifies ?_
    split
    · exact Conduct.pacing.refl world
    · exact calm_of_same rfl rfl rfl rfl (Nat.le_refl _) (List.suffix_refl _) rfl
  operates _ world follows := follows.ending fun after => calm_closes world.holds after
  letsGo _ world := Follows.modifies (calm_closes _ world)
  untracks _ _ follows := inFrame trivial follows
  tracks target key world _ := track target key world
  tracksByHand target key := .trackByHand (fun world => Follows.modifies (attest _ world)) (track target key)
  nodes _ _ := calm_names (.of_eq rfl rfl rfl)

/-! Effects. -/

/-- The render effect of a host owes one render when it runs. -/
def Draws (run : Runner) : Prop :=
  ∀ id effect (world : World), world.HasTask effect (.render id) →
    Owes (.single effect) (run (.task (.render id))) world

/-- An effect that renders no host follows. -/
theorem runEffect (keeps : run.Keeps Conduct.pacing)
    (other : world.Furnished → ∀ id, ¬ world.HasTask effect (.render id)) :
    Follows Conduct.pacing (Live.runEffect run effect) world := by
  refine follows_of fun furnished => Follows.runEffect keeps (fun notice => note notice world)
    (fun allowed _ ends => inFrame allowed ends) ?_
  intro known found id same
  exact other furnished id ⟨known, found, by cases known; cases same; rfl⟩

theorem owes_runEffect (keeps : run.Keeps Conduct.pacing) (draws : Draws run) (effect : EffectId) (world : World) :
    Owes (.single effect) (Live.runEffect run effect) world := by
  by_cases renders : ∃ id, world.HasTask effect (.render id)
  · obtain ⟨id, known, found, task⟩ := renders
    intro furnished
    have idle : world.Paces (.single effect) world :=
      (World.Paces.refl furnished).mono fun other _ => Debt.single_nonneg effect other
    by_cases disposed : known.disposed = true
    · have same : worldAfter (Live.runEffect run effect) world = world :=
        worldAfter_of_ok ((runEffect_apply run found).trans (if_pos disposed))
      rw [same]
      exact idle
    · have lives := (runEffect_apply run found).trans (if_neg disposed)
      by_cases running : world.graph.isRunning effect = true
      · rw [worldAfter_of_ok (lives.trans (if_pos running))]
        exact (note _ world furnished).mono fun other _ => Debt.single_nonneg effect other
      · have runs : worldAfter (Live.runEffect run effect) world = worldAfter (runBody run effect known) world := by
          unfold worldAfter
          rw [lives.trans (if_neg running)]
        rw [runs]
        have allowed : world.graph.Allows (.entered (some effect)) :=
          ⟨known, found, Bool.eq_false_iff.mpr disposed, Bool.eq_false_iff.mpr running⟩
        refine owes_inFrame allowed (fun furnished => ?_) furnished
        have entered : (world.entered (some effect)).HasTask effect (.render id) :=
          World.hasTask_entered.mpr ⟨known, found, task⟩
        have drawn := draws id effect (world.entered (some effect)) entered (furnished.entered allowed)
        have same : worldAfter (do modifyGraph (·.countRun effect); discard (run (.task known.task)))
            { world with graph := world.graph.push (some effect) } =
              worldAfter (run (.task (.render id))) (world.entered (some effect)) := by
          rw [task]
          exact worldAfter_discard _ _
        rw [same]
        exact drawn
  · exact .of_follows (runEffect keeps fun _ id has => renders ⟨id, has⟩) (Debt.single_nonneg effect)

/-- Effects that have their turns owe as many renders as they have turns. -/
theorem owes_runInTurn (keeps : run.Keeps Conduct.pacing) (draws : Draws run) (ids : List EffectId) (world : World) :
    Owes (fun effect => (ids.count effect : Int)) (Live.runInTurn run ids) world := by
  induction ids generalizing world with
  | nil => exact .of_follows (Follows.pure _) fun _ => Int.le_refl 0
  | cons first rest inductionHypothesis =>
      have others : ∀ after, Owes (fun effect => (rest.count effect : Int)) (do
          letGo first
          Live.runInTurn run rest) after := fun after =>
        .follows_bind (plain.letsGo first after) (fun _ released _ => inductionHypothesis released)
          fun effect => Int.natCast_nonneg _
      refine ((owes_runEffect keeps draws first world).bind (fun _ after _ => others after)
        fun effect => Int.natCast_nonneg _).mono fun effect => ?_
      unfold Debt.single
      rw [List.count_cons]
      by_cases same : effect = first
      · subst same
        simp [Int.add_comm]
      · have apart : (first == effect) = false := beq_false_of_ne (Ne.symm same)
        simp [same, apart]

/-- A notification lists the effects before they have their turns. -/
theorem trigger (keeps : run.Keeps Conduct.pacing) (draws : Draws run) (target : TargetId) (name : String)
    (world : World) : Follows Conduct.pacing (Live.trigger run target name) world := by
  refine follows_iff.mpr fun furnished => ?_
  have listing := World.Paces.notifying furnished target name
  have turns := listing.trans
    (owes_runInTurn keeps draws (world.graph.concerned target name) _ listing.furnished)
  have same : worldAfter (Live.trigger run target name) world =
      { worldAfter (Live.runInTurn run (world.graph.concerned target name)) (world.notifying target name) with
        holds := world.holds }.collect := by
    unfold worldAfter
    rw [trigger_apply]
    exact worldAfter_ending _ _ _
  rw [same]
  have closed := turns.trans (calm_closes world.holds _ turns.furnished)
  refine closed.mono fun effect _ => ?_
  show -((world.graph.concerned target name).count effect : Int) + _ + Debt.none effect ≤ Debt.none effect
  unfold Debt.none
  omega

/-! Scripts and bindings. -/

/-- An effect that was made by such code renders no host, and is new. -/
theorem facts_of_begets (furnished : origin.Furnished) (begets : Conduct.pacing.Begets origin effect world) :
    (∀ id, ¬ world.HasTask effect (.render id)) ∧
      origin.graph.effects.size ≤ effect ∧ effect < world.graph.effects.size := by
  obtain ⟨task, other, before, label, captures, since, number, last⟩ := begets
  have early := since furnished
  have made : (before.withEffect label task captures).Furnished :=
    early.furnished.withEffect fun id same => absurd same (other id)
  have late := last made
  have has : world.HasTask effect task := by
    rw [number]
    exact late.later.hasTask (before.hasTask_withEffect label task captures)
  refine ⟨fun id renders => ?_, number ▸ early.later.effects, has.lt_size⟩
  obtain ⟨one, found, same⟩ := has
  obtain ⟨two, foundToo, sameToo⟩ := renders
  cases found.symm.trans foundToo
  exact other id (same.symm.trans sameToo)

/-- Names may be given to effects that render no host. -/
theorem calm_named {names : Names} (calm : Conduct.pacing.calm origin world)
    (later : origin.Furnished → origin.Later { world with names }) (hosts : names.hosts = world.names.hosts)
    (effects : origin.Furnished → ∀ entry ∈ names.effects,
      entry ∈ world.names.effects ∨ ∀ id, ¬ world.HasTask entry.2 (.render id)) :
    Conduct.pacing.calm origin { world with names } := by
  intro furnished
  have paces := calm furnished
  refine ⟨paces.toFurnishes.carry furnished.sound (later furnished) rfl (Nat.le_refl _)
    (fun _ _ refers => Or.inl refers) ?_ ?_, fun id => (paces.tells id).carry rfl rfl rfl fun _ refers => refers⟩
  · rintro effect ⟨entry, member, rfl⟩
    exact (effects furnished entry member).imp_left fun old => ⟨entry, old, rfl⟩
  · exact fun entry member => paces.furnished.named entry (hosts ▸ member)

theorem basic (keeps : run.Keeps Conduct.pacing) : Basic Conduct.pacing run where
  toPlain := plain
  keeps := keeps
  calls activity _ call := by
    rintro id rfl
    cases call
  breaks calm := calm
  records _ _ := calm_of_same rfl rfl rfl rfl (Nat.le_refl _) (List.suffix_refl _) rfl
  tracksHost _ host key world _ _ := track host.state key world
  names _ _ rearranged := calm_names rearranged
  recovers kind payload broken :=
    Conduct.pacing.trans (Conduct.pacing.trans broken (note (.hookPanicked kind payload) _)) (attest _ _)
  emits id kind world other := fun furnished => .tell furnished id (decide_eq_true other)

theorem elementary (keeps : run.Keeps Conduct.pacing) (draws : Draws run) : Elementary Conduct.pacing run where
  toBasic := basic keeps
  collects _ furnished := .collect furnished
  addsTarget store world _ := calm_of_later (.of_stores rfl rfl rfl rfl rfl fun _ known found =>
    ⟨known, World.store?_addTarget store found, fun lives => lives, fun _ listed => listed⟩) rfl rfl rfl rfl
  presets state key value := plain.presetValue (fun world => Follows.modifies (attest _ world))
    fun world => putValue state key value world
  writes state key value world := plain.writeValue (putValue state key value world) (trigger keeps draws state key)
  addsMethod state name method world := Follows.modifies (calm_of_later
    (World.later_modifyStore world state _ (fun _ lives => lives)
      fun store other known => Lasting.contains_put store.methods name other method known) rfl rfl rfl rfl)
  starts _ _ _ _ other := fun furnished => .withEffect furnished other
  runsEffect effect world may := by
    refine runEffect keeps fun furnished id has => ?_
    rcases may with named | ⟨task, other, known, found, same⟩
    · exact furnished.unnamed effect named id has
    · obtain ⟨looked, foundToo, renders⟩ := has
      cases found.symm.trans foundToo
      exact other id (same.symm.trans renders)
  triggers := trigger keeps draws
  releases target world := by
    have released : Conduct.pacing.calm world
        { world.attest (.released target) with graph := world.graph.release target } :=
      calm_of_later (Lasting.releaseTarget target world).later (Graph.size_release _ _) rfl rfl rfl
    exact released
  disposes effect _ world calm _ :=
    Conduct.pacing.trans calm fun furnished => .disposeEffect furnished effect
  namesEffect name effect origin world calm begets := by
    refine calm_named calm (fun furnished => ?_) rfl fun furnished entry member => ?_
    · refine Lasting.later_names (calm furnished).later _ (fun entry member => ?_) fun entry member _ listed =>
        Or.inl ⟨entry, member, listed⟩
      rcases Assoc.mem_put member with new | old
      · exact Or.inr (new ▸ (facts_of_begets furnished begets).2)
      · exact Or.inl ⟨entry, old, rfl⟩
    · rcases Assoc.mem_put member with new | old
      · exact Or.inr (new ▸ (facts_of_begets furnished begets).1)
      · exact Or.inl old
  namesBindings name bindings origin world calm begets := by
    refine calm_named calm (fun furnished => ?_) rfl fun _ _ member => Or.inl member
    refine Lasting.later_names (calm furnished).later _ (fun entry member => Or.inl ⟨entry, member, rfl⟩)
      fun entry member effect listed => ?_
    rcases Assoc.mem_put member with new | old
    · subst new
      exact Or.inr (facts_of_begets furnished (begets effect listed)).2
    · exact Or.inl ⟨entry, old, listed⟩
  createsNode content world := calm_of_same rfl rfl rfl rfl (by simp) (List.suffix_refl _) rfl
  plants trees world := calm_of_same rfl rfl rfl rfl (Forest.size_plantFragment world.forest trees)
    (List.suffix_refl _) rfl
  setsValue node value world := calm_of_same rfl rfl rfl rfl
    (Nat.le_of_eq (Forest.size_setValue world.forest node value).symm) (List.suffix_refl _) rfl
  listens node kind handler world := calm_of_same rfl rfl rfl rfl
    (Nat.le_of_eq (Forest.size_listen world.forest node kind handler).symm) (List.suffix_refl _) rfl
  edits _ _ _ grows _ _ := calm_of_same rfl rfl rfl rfl grows (List.suffix_cons _ _) rfl
  shows node text world := by
    have shown : Conduct.pacing.calm world
        { world.attest (.shown world.graph.active? (world.forest.holders node)) with
          forest := world.forest.setTextContent node text } :=
      calm_of_same rfl rfl rfl rfl (Forest.size_setTextContent world.forest node text) (List.suffix_cons _ _) rfl
    exact shown
  changesTemplate id template world := calm_modifyHost (World.later_modifyHost world id _ (fun _ => rfl)
    (fun _ => rfl) (fun _ lives => lives) (fun _ => Or.inl rfl) (fun _ => Or.inl rfl)) (fun _ => rfl) (fun _ => rfl) fun _ was => was
  hooks id kind body world := calm_modifyHost (World.later_modifyHost world id _ (fun _ => rfl)
    (fun _ => rfl) (fun _ lives => lives) (fun _ => Or.inl rfl) (fun _ => Or.inl rfl)) (fun _ => rfl) (fun _ => rfl) fun _ was => was

end Pacing

end LiveMarkup
