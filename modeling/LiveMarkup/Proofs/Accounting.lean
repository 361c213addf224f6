import LiveMarkup.Proofs.Recounting
import LiveMarkup.Proofs.Rendering

/-
This file shows that whatever code runs, the story of a host goes on as told there: what others do does
not concern the host, and what the host does itself is told.
-/

namespace LiveMarkup

namespace World

variable {id : HostId} {world before after first second third : World} {record : Host}
  {newer newest told asked inner : List Milestone} {milestone : Milestone} {untold : Nat}

/-- A host told this of itself. -/
structure Goes (id : HostId) (newer : List Milestone) (before after : World) : Prop where
  moored : before.Moored id after
  founded : before.Founded id → after.Founded id
  story : (after.account id).story = newer ++ (before.account id).story
  deeds : ∃ recent, after.deeds = recent ++ before.deeds

namespace Goes

theorem trans (early : first.Goes id newer second) (late : second.Goes id newest third) :
    first.Goes id (newest ++ newer) third where
  moored := early.moored.trans late.moored
  founded founded := late.founded (early.founded founded)
  story := by rw [late.story, early.story, List.append_assoc]
  deeds := by
    obtain ⟨older, since⟩ := early.deeds
    obtain ⟨recent, last⟩ := late.deeds
    exact ⟨recent ++ older, by rw [last, since, List.append_assoc]⟩

theorem modifyHost (world : World) {change : Host → Host}
    (container : ∀ host : Host, (change host).container = host.container)
    (story : ∀ host : Host, (change host).story = newer ++ host.story)
    (found : world.host? id = some record) : world.Goes id newer (world.modifyHost id change) where
  moored := .modifyHost world id id container
  founded := (Moored.modifyHost world id id container).founded (host?_modifyHost_of_none id change)
  story := by
    have changed : (world.modifyHost id change).host? id = some (change record) := by
      rw [host?_modifyHost, if_pos rfl, found]
      rfl
    rw [account_of_host changed, account_of_host found]
    exact story record
  deeds := ⟨[], rfl⟩

theorem tell (milestone : Milestone) (found : world.host? id = some record) :
    world.Goes id [milestone] (world.tell id milestone) :=
  modifyHost world (fun _ => rfl) (fun _ => rfl) found

end Goes

theorem tell_of_absent (absent : world.host? id = none) : world.tell id milestone = world :=
  modifyHost_of_absent absent _

theorem account_tell (milestone : Milestone) (found : world.host? id = some record) :
    (world.tell id milestone).account id =
      { world.account id with story := milestone :: (world.account id).story } := by
  have changed : (world.tell id milestone).host? id =
      some { record with story := milestone :: record.story } := by
    unfold tell
    rw [host?_modifyHost, if_pos rfl, found]
    rfl
  rw [account_of_host changed, account_of_host found]
  rfl

theorem reckons_tell (silent : milestone.tellsRender = false) (world : World) :
    world.Reckons id 0 (world.tell id milestone) := by
  intro recent _ _
  cases found : world.host? id with
  | none =>
      rw [tell_of_absent found]
      rfl
  | some record =>
      rw [account_tell milestone found]
      unfold Story.told
      rw [List.countP_cons_of_neg (by simp [silent])]
      rfl

/-- A render that is told of is no longer untold. -/
theorem Reckons.tell (reckons : before.Reckons id (untold + 1) world)
    (tells : milestone.tellsRender = true) (found : world.host? id = some record) :
    before.Reckons id untold (world.tell id milestone) := by
  intro recent since uncaught
  have counted := reckons recent since uncaught
  rw [account_tell milestone found]
  unfold Story.told at counted ⊢
  rw [List.countP_cons_of_pos tells]
  show (world.account id).renders + _ = _
  omega

/-- A host that was mounted, or was asked, rendered and told of it. -/
theorem Recounts.of_goes (goes : before.Goes id (told ++ .ended :: inner ++ .began :: asked) after)
    (nested : Story.Nested inner)
    (late : ∀ milestone ∈ told, milestone ≠ .began ∧ milestone ≠ .ended ∧
      ∀ renders, milestone ≠ .destroyed renders)
    (early : ∀ milestone ∈ asked, ∃ call, milestone = .asked call)
    (guard : (before.account id).mounted = true ∨ ∃ rest call, asked = rest ++ [.asked call]) :
    before.Recounts id after where
  moored := goes.moored
  founded := goes.founded
  course := by
    obtain ⟨recent, since⟩ := goes.deeds
    refine ⟨_, recent, goes.story, since, .of_busy ?_ (Story.busy_draw nested ?_ early) ?_⟩
    · have first : Story.Nested asked := .of_plain fun milestone member => by
        obtain ⟨call, rfl⟩ := early milestone member
        exact ⟨by simp, by simp⟩
      have last : Story.Nested told := .of_plain fun milestone member =>
        ⟨(late milestone member).1, (late milestone member).2.1⟩
      have whole := last.append (nested.draw.append first)
      simpa using whole
    · exact fun renders member => (late _ member).2.2 renders rfl
    · refine guard.imp_right fun ⟨rest, call, same⟩ => ⟨told ++ .ended :: inner ++ .began :: rest, call, ?_⟩
      rw [same]
      simp

end World

/-- All code tells the story of a host. Calm code counts its renders right. -/
def Conduct.recounting (id : HostId) : Conduct where
  calm before after := before.Recounts id after ∧ before.Reckons id 0 after
  broken := World.Recounts id
  refl world := ⟨.refl id world, .refl id world⟩
  trans early late := ⟨early.1.trans late.1, early.2.trans early.1.deeds late.1.deeds late.2⟩
  carry early late := early.1.trans late
  settle early late := early.trans late.1

/-- The story of a host goes on, and the renders in it are nested in each other. -/
def World.Passes (id : HostId) (before after : World) : Prop :=
  ∃ newer, Story.Nested newer ∧ before.Goes id newer after

namespace World.Passes

variable {id : HostId} {first second third : World}

theorem of_recounts (recounts : first.Recounts id second) : first.Passes id second := by
  obtain ⟨newer, recent, story, since, course⟩ := recounts.course
  exact ⟨newer, course.nested, recounts.moored, recounts.founded, story, recent, since⟩

theorem refl (id : HostId) (world : World) : world.Passes id world := of_recounts (.refl id world)

theorem trans (early : first.Passes id second) (late : second.Passes id third) : first.Passes id third := by
  obtain ⟨newer, nested, goes⟩ := early
  obtain ⟨newest, last, further⟩ := late
  exact ⟨newest ++ newer, last.append nested, goes.trans further⟩

/-- New content is no milestone. -/
theorem installed (world : World) (id : HostId) (record : Host) (bindings : Bindings) (fragment : NodeId) :
    world.Passes id (world.installed id record bindings fragment) := by
  let shown : World := { world.attest (.rendered id bindings.effects (world.forest.holders record.container ++
      world.forest.appendHolders record.container fragment)) with
    forest := (world.forest.clear record.container).append record.container fragment }
  have grows : world.forest.size ≤ shown.forest.size :=
    Nat.le_of_eq (by rw [Forest.size_append, Forest.size_clear])
  have moored : world.Moored id shown := .of_hosts rfl grows
  have attested : world.Goes id [] shown := ⟨moored, moored.founded fun absent => absent, rfl, [_], rfl⟩
  cases found : shown.host? id with
  | none =>
      refine ⟨[], .nil, ?_⟩
      unfold World.installed
      rw [World.modifyHost_of_absent found]
      exact attested
  | some host =>
      have changed : shown.Goes id [] (world.installed id record bindings fragment) := by
        refine .modifyHost shown ?_ ?_ found
        · exact fun _ => rfl
        · exact fun _ => rfl
      exact ⟨[], .nil, attested.trans changed⟩

end World.Passes

/-- However code ends, the renders of a host in it are nested. -/
def Conduct.passing (id : HostId) : Conduct :=
  .always (World.Passes id) (World.Passes.refl id) World.Passes.trans

namespace Recounting

open Live

variable {id other : HostId} {run : Runner} {depth : Nat} {world before after origin : World} {A : Type}

theorem calm_of_aloof (aloof : before.Aloof id after) : (Conduct.recounting id).calm before after :=
  ⟨.of_aloof aloof, .of_account aloof.account.renders aloof.account.story⟩

/-- Hosts, deeds and nodes are the same. -/
theorem calm_of_same (hosts : after.hosts = before.hosts) (deeds : after.deeds = before.deeds)
    (forest : after.forest = before.forest) : (Conduct.recounting id).calm before after :=
  calm_of_aloof (.of_same hosts deeds forest)

theorem calm_collect (world : World) : (Conduct.recounting id).calm world world.collect :=
  calm_of_aloof (.collect world)

theorem calm_closes (holds : List Hold) (world : World) :
    (Conduct.recounting id).calm world { world with holds }.collect :=
  have held : (Conduct.recounting id).calm world { world with holds } := calm_of_same rfl rfl rfl
  (Conduct.recounting id).trans held (calm_collect _)

/-- Nodes may change as long as those that were there keep their children. -/
theorem calm_of_forest {forest : Forest Handler} (grows : world.forest.size ≤ forest.size)
    (keeps : ∀ root < world.forest.size, Forest.Keeps root world.forest forest) :
    (Conduct.recounting id).calm world { world with forest } :=
  calm_of_aloof (.of_forest grows fun root known => (keeps root known).children)

/-- A deed may change what its holders show. -/
theorem calm_of_deed {deed : Deed} {forest : Forest Handler} (grows : world.forest.size ≤ forest.size)
    (foreign : ∀ effects holders, deed ≠ .rendered id effects holders)
    (keeps : ∀ root < world.forest.size, root ∉ deed.holders → Forest.Keeps root world.forest forest) :
    (Conduct.recounting id).calm world { world.attest deed with forest } :=
  calm_of_aloof (.of_deed grows foreign fun root known absent => (keeps root known absent).children)

theorem calm_attest {deed : Deed} (foreign : ∀ effects holders, deed ≠ .rendered id effects holders)
    (world : World) : (Conduct.recounting id).calm world (world.attest deed) :=
  calm_of_aloof (.attest world foreign)

/-- Hosts may change that are not this one, and this one may forget its bindings. -/
theorem calm_modifyHost {change : Host → Host}
    (container : ∀ host : Host, (change host).container = host.container)
    (carries : other = id → ∀ host : Host, host.account.Carried (change host).account) (world : World) :
    (Conduct.recounting id).calm world (world.modifyHost other change) :=
  calm_of_aloof (.modifyHost world container carries)

/-- What is no render may be told of any host. -/
theorem calm_tell {milestone : Milestone} (quiet : Story.Undrawn [milestone]) (ends : milestone ≠ .ended)
    (stands : ∀ renders, milestone ≠ .destroyed renders) (silent : milestone.tellsRender = false)
    (world : World) : (Conduct.recounting id).calm world (world.tell other milestone) := by
  by_cases same : other = id
  · subst same
    cases found : world.host? other with
    | none =>
        rw [World.tell_of_absent found]
        exact (Conduct.recounting other).refl world
    | some record =>
        have goes := World.Goes.tell milestone found
        refine ⟨⟨goes.moored, goes.founded, [milestone], [], goes.story, rfl, ?_⟩, ?_⟩
        · refine .of_told quiet ends stands ?_ (fun _ _ impossible => by cases impossible) fun _ _ _ _ => rfl
          rw [World.account_tell milestone found]
          exact .refl _
        · exact World.reckons_tell silent world
  · have carries : other = id → ∀ host : Host, host.account.Carried
        ({ host with story := milestone :: host.story } : Host).account := fun own => absurd own same
    refine calm_modifyHost ?_ carries world
    exact fun _ => rfl

/-! What others do. -/

theorem note (notice : Notice) (world : World) : (Conduct.recounting id).calm world (world.note notice) :=
  calm_of_same rfl rfl rfl

theorem modifyGraph (change : Graph Task → Graph Task) (world : World) :
    Follows (Conduct.recounting id) (Live.modifyGraph change) world :=
  Follows.modifies (calm_of_same rfl rfl rfl)

theorem inFrame {frame : Option EffectId} {action : Live A}
    (ends : (Conduct.recounting id).Ends (world.entered frame)
      (action { world with graph := world.graph.push frame })) :
    Follows (Conduct.recounting id) (Live.inFrame frame action) world := by
  have entering : (Conduct.recounting id).calm world (world.entered frame) := calm_of_same rfl rfl rfl
  have leaving : ∀ after : World,
      (Conduct.recounting id).calm after { after with graph := after.graph.pop }.collect := by
    intro after
    have popped : (Conduct.recounting id).calm after { after with graph := after.graph.pop } :=
      calm_of_same rfl rfl rfl
    exact (Conduct.recounting id).trans popped (calm_collect _)
  refine Follows.inFrame ends (fun after calm => ?_) fun after broken => ?_
  · exact (Conduct.recounting id).trans entering ((Conduct.recounting id).trans calm (leaving after))
  · exact entering.1.trans (broken.trans (leaving after).1)

theorem plain : Plain (Conduct.recounting id) where
  finishes _ _ _ := calm_of_same rfl rfl rfl
  notes := note
  meets _ _ := calm_of_same rfl rfl rfl
  parses _ _ := calm_of_same rfl rfl rfl
  holds held world := by
    refine Follows.modifies ?_
    split
    · exact (Conduct.recounting id).refl world
    · exact calm_of_same rfl rfl rfl
  operates _ world follows := follows.ending fun after => calm_closes world.holds after
  letsGo _ world := Follows.modifies (calm_closes _ world)
  untracks _ _ follows := inFrame follows
  tracks _ _ world _ := modifyGraph _ world
  tracksByHand _ _ := .trackByHand
    (fun world => Follows.modifies (calm_attest (fun _ _ impossible => by cases impossible) world))
    fun world => modifyGraph _ world
  nodes _ _ := calm_of_same rfl rfl rfl

theorem runEffect (keeps : run.Keeps (Conduct.recounting id)) (effect : EffectId) (world : World) :
    Follows (Conduct.recounting id) (Live.runEffect run effect) world :=
  Follows.runEffect keeps (fun notice => note notice world) fun _ _ ends => inFrame ends

theorem trigger (keeps : run.Keeps (Conduct.recounting id)) (target : TargetId) (name : String)
    (world : World) : Follows (Conduct.recounting id) (Live.trigger run target name) world :=
  plain.trigger (fun _ _ => calm_of_same rfl rfl rfl) (runEffect keeps) target name world

theorem putValue (state : TargetId) (key : String) (value : Value) (world : World) :
    Follows (Conduct.recounting id) (Live.putValue state key value) world :=
  Follows.modifies (calm_of_same rfl rfl rfl)

theorem calm_disposeEffect (effect : EffectId) (world : World) :
    (Conduct.recounting id).calm world (world.disposeEffect effect) :=
  calm_of_aloof (.disposeEffect world effect)

theorem basic (keeps : run.Keeps (Conduct.recounting id)) : Basic (Conduct.recounting id) run where
  toPlain := plain
  keeps := keeps
  breaks calm := calm.1
  records _ _ := calm_of_same rfl rfl rfl
  tracksHost _ _ _ world _ _ := modifyGraph _ world
  names _ _ _ := calm_of_same rfl rfl rfl
  recovers {before after} kind payload broken := by
    have caught : (Conduct.recounting id).calm after
        ((after.note (.hookPanicked kind payload)).attest (.recovered payload)) :=
      (Conduct.recounting id).trans (note _ after) (calm_attest (fun _ _ impossible => by cases impossible) _)
    refine ⟨broken.trans caught.1, fun recent since uncaught => ?_⟩
    obtain ⟨newer, last⟩ := broken.deeds
    have parts : recent = .recovered payload :: newer :=
      (List.append_left_inj before.deeds).mp (since.symm.trans (congrArg (Deed.recovered payload :: ·) last))
    exact absurd (parts ▸ List.mem_cons_self) (uncaught payload)
  emits host kind world other := calm_tell
    ⟨by simp, by simpa using Ne.symm other⟩ (by simp) (by simp) (by cases kind <;> simp_all [Milestone.tellsRender])
    world

theorem elementary (keeps : run.Keeps (Conduct.recounting id)) :
    Elementary (Conduct.recounting id) run where
  toBasic := basic keeps
  collects := calm_collect
  addsTarget _ _ _ := calm_of_same rfl rfl rfl
  presets state key value := plain.presetValue
    (fun world => Follows.modifies (calm_attest (fun _ _ impossible => by cases impossible) world))
    fun world => putValue state key value world
  writes state key value world := plain.writeValue (putValue state key value world) (trigger keeps state key)
  addsMethod _ _ _ _ := Follows.modifies (calm_of_same rfl rfl rfl)
  starts _ _ _ _ _ := calm_of_same rfl rfl rfl
  runsEffect effect world _ := runEffect keeps effect world
  triggers := trigger keeps
  releases target world :=
    (Follows.modifies (calm_attest (fun _ _ impossible => by cases impossible) world)).bind
      fun _ attested _ => modifyGraph _ attested
  disposes effect _ world calm _ := (Conduct.recounting id).trans calm (calm_disposeEffect effect world)
  namesEffect _ _ _ _ calm _ := (Conduct.recounting id).trans calm (calm_of_same rfl rfl rfl)
  namesBindings _ _ _ _ calm _ := (Conduct.recounting id).trans calm (calm_of_same rfl rfl rfl)
  createsNode content world := calm_of_forest (by simp) fun _ known => .create content known
  plants trees world := calm_of_forest (Forest.size_plantFragment world.forest trees)
    fun _ known => .plantFragment trees known
  setsValue node value world := calm_of_forest
    (Nat.le_of_eq (Forest.size_setValue world.forest node value).symm) fun _ _ => .setValue node value
  listens node kind handler world := calm_of_forest
    (Nat.le_of_eq (Forest.size_listen world.forest node kind handler).symm)
    fun _ _ => .listen node kind handler
  edits _ _ _ grows keeps _ := calm_of_deed grows (fun _ _ impossible => by cases impossible) keeps
  shows node text world := by
    have shown : (Conduct.recounting id).calm world
        { world.attest (.shown world.graph.active? (world.forest.holders node)) with
          forest := world.forest.setTextContent node text } :=
      calm_of_deed (Forest.size_setTextContent world.forest node text)
        (fun _ _ impossible => by cases impossible) fun _ known absent => .setTextContent text known absent
    exact shown
  changesTemplate host template world := by
    refine calm_modifyHost ?_ ?_ world
    · exact fun _ => rfl
    · exact fun _ _ => .refl _
  hooks host kind body world := by
    refine calm_modifyHost ?_ ?_ world
    · exact fun _ => rfl
    · exact fun _ _ => .refl _

theorem passes {action : Live A} (follows : Follows (Conduct.recounting id) action world) :
    Follows (Conduct.passing id) action world :=
  follows.mono (fun _ calm => .of_recounts calm.1) fun _ broken => .of_recounts broken

/-- Bindings are forgotten and disposed. -/
theorem dropBindings (other : HostId) (world : World) :
    Follows (Conduct.recounting id) (Live.dropBindings other) world := by
  refine Follows.asks ?_
  split
  · exact Follows.pure _
  · rename_i record found
    have forgets : (Conduct.recounting id).calm world
        (world.modifyHost other fun host => { host with bindings := {} }) := by
      refine calm_modifyHost ?_ ?_ world
      · exact fun _ => rfl
      · exact fun _ _ => ⟨rfl, rfl, Or.inr rfl, rfl⟩
    have forgotten : Follows (Conduct.recounting id)
        (Live.modifyHost other fun host => { host with bindings := {} }) world := forgets
    refine forgotten.bind fun _ after _ => Follows.modifies ?_
    exact (Conduct.recounting id).trans (calm_of_aloof (.disposeBindings after record.bindings)) (calm_collect _)

/-! What a host does itself. -/

/-- A render goes through a part of the story in which renders are nested. -/
theorem goes_renderHost (elementary : Elementary (Conduct.recounting id) run) (world : World) :
    Follows (Conduct.passing id) (Live.renderHost run id) world := by
  refine Follows.asks ?_
  split
  · exact Follows.pure _
  · rename_i record found
    refine (passes (elementary.parseTemplate _ world)).bind fun parsed after _ => ?_
    cases parsed with
    | error error => exact Follows.pure _
    | ok fragment =>
      have renders : Follows (Conduct.passing id) (Live.renderContent run id record fragment) after := by
        refine (passes (Follows.modifies (calm_attest (fun _ _ impossible => by cases impossible) after))).bind
          fun _ attested _ => (passes (dropBindings id attested)).bind fun _ dropped _ =>
            (passes (elementary.bind fragment record.state dropped).1).bind fun bindings bound _ => ?_
        have installs : Follows (Conduct.passing id) (Live.installContent id record bindings fragment) bound :=
          World.Passes.installed bound id record bindings fragment
        exact installs.bind fun _ installed _ => Follows.asks
          ((passes (elementary.note _)).bind fun _ noted _ =>
            (passes (elementary.called (.rendered id) rfl noted)).discard)
      exact renders.bind fun _ _ _ => Follows.pure _

end Recounting

end LiveMarkup
