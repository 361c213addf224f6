import LiveMarkup.Proofs.Paying

/-
This file shows that a host accounts for the renders that it begins: it was asked for them, or its render
effect ran. What it tells of a render comes right behind the render.
-/

namespace LiveMarkup

namespace World

variable {world before after first second third : World} {id : HostId} {effect : EffectId} {record : Host}
  {newer : List Milestone} {owed : Debt}

/-- A host with a render effect goes on in a regular way without a debt. -/
def Inward (id : HostId) (before after : World) : Prop :=
  before.Furnished → (∃ effect, before.HasTask effect (.render id)) →
    ∃ inner, Story.Regular inner ∧ before.Works id inner .none after

theorem Inward.of_calm (calm : Conduct.pacing.calm before after) : before.Inward id after :=
  fun furnished _ => (calm furnished).works id

theorem Inward.trans (early : first.Inward id second) (late : second.Inward id third) : first.Inward id third := by
  intro furnished housed
  obtain ⟨inner, regular, works⟩ := early furnished housed
  obtain ⟨effect, has⟩ := housed
  obtain ⟨last, regularToo, worksToo⟩ := late works.furnished ⟨effect, works.later.hasTask has⟩
  exact ⟨last ++ inner, .append regularToo regular, (works.trans worksToo).mono fun _ _ => Int.le_refl 0⟩

/-- A host with a render effect is there. -/
theorem Furnished.host? (furnished : world.Furnished) (has : world.HasTask effect (.render id)) :
    ∃ record, world.host? id = some record :=
  ⟨_, Array.getElem?_eq_getElem (furnished.hosts effect id has)⟩

/-- The debt of one render is that of the render effect. -/
theorem Works.single (works : before.Works id newer (fun _ => 1) after) (regular : Story.Regular newer)
    (began : .began ∈ newer) (furnished : before.Furnished) (has : before.HasTask effect (.render id)) :
    before.Paces (.single effect) after := by
  refine works.paces regular (Or.inl began) (fun other renders => ?_) (Debt.single_nonneg effect)
  have same := furnished.unique other effect id renders has
  exact Int.le_of_eq (if_pos same).symm

/-- The renders that a host was asked for are accounted for. -/
theorem Works.settled (works : before.Works id newer (fun _ => 0) after) (regular : Story.Regular newer)
    (began : .began ∈ newer) : before.Paces .none after :=
  works.paces regular (Or.inl began) (fun _ _ => Int.le_refl 0) fun _ => Int.le_refl 0

end World

/-- However code ends, a host goes on in a regular way. -/
def Conduct.inward (id : HostId) : Conduct :=
  .always (World.Inward id) (fun world => .of_calm (Conduct.pacing.refl world)) World.Inward.trans

open Live in
/-- This is what a render effect does when its host is mounted. -/
def Live.redraw (run : Runner) (id : HostId) (host : Host) : Live Unit := do
  match ← drawHost run id with
  | .ok _ => emitHost run id .update
  | .error error => do
      tell id .refused
      note (.rerenderFailed host.component.selector error)

namespace Pacing

open Live

variable {A B : Type} {run : Runner} {world before after origin drawn : World} {id : HostId} {effect : EffectId}
  {owed more : Debt} {record : Host} {call : Call}

theorem inward {action : Live A} (follows : Follows Conduct.pacing action world) :
    Follows (Conduct.inward id) action world := follows.mono (fun _ => .of_calm) fun _ => .of_calm

theorem dropBindings (id : HostId) (world : World) : Follows Conduct.pacing (Live.dropBindings id) world := by
  cases found : world.host? id with
  | none =>
      refine Follows.asks ?_
      rw [found]
      exact Follows.pure _
  | some record =>
      refine follows_iff.mpr fun furnished => ?_
      rw [worldAfter_of_ok (World.dropBindings_eq found)]
      exact .emptied furnished found

/-- New content is bound after the render effect was made. -/
theorem installs (elementary : Elementary Conduct.pacing run) (host : Host) (fragment : NodeId) {bindings : Bindings}
    (binds : Live.bind run fragment host.state world = .ok bindings after) :
    world.Inward id (after.installed id host bindings fragment) := by
  intro furnished housed
  have bound := elementary.bind fragment host.state world
  have paces := bound.1.calm binds furnished
  have fresh := fun effect listed => (facts_of_begets furnished (bound.2 bindings after binds effect listed)).2
  have later : world.Later (after.installed id host bindings fragment) := by
    have shown : ∀ deed, world.Later { after.attest deed with
        forest := (after.forest.clear host.container).append host.container fragment } :=
      fun deed => paces.later.trans (.of_same rfl rfl rfl rfl
        (by simp [Forest.size_append, Forest.size_clear]) (List.suffix_cons _ _))
    exact (shown _).modifyHost id (fun host => { host with bindings, renders := host.renders + 1 })
      (fun _ => rfl) (fun _ => rfl) (fun _ lives => lives) (fun _ effect listed => Or.inr (fresh effect listed))
      fun _ _ renders => Or.inl renders
  obtain ⟨inner, regular, works⟩ := paces.works id
  exact ⟨inner, regular, works.installed furnished.sound later housed fun effect listed => (fresh effect listed).1⟩

theorem renderHost (elementary : Elementary Conduct.pacing run) (world : World) :
    Follows (Conduct.inward id) (Live.renderHost run id) world := by
  refine Follows.asks ?_
  split
  · exact Follows.pure _
  · rename_i record found
    refine (inward (elementary.parseTemplate _ world)).bind fun parsed after _ => ?_
    cases parsed with
    | error error => exact Follows.pure _
    | ok fragment =>
      have renders : Follows (Conduct.inward id) (Live.renderContent run id record fragment) after := by
        refine (inward (Follows.modifies (attest _ after))).bind fun _ attested _ =>
          (inward (dropBindings id attested)).bind fun _ dropped _ => ?_
        refine ends_bind (inward (elementary.bind fragment record.state dropped).1) fun bindings bound binds => ?_
        have installed : Conduct.Ends (Conduct.inward id) dropped
            (Live.installContent id record bindings fragment bound) := installs elementary record fragment binds
        refine ends_bind installed fun _ shown shows => ?_
        rw [shows] at installed
        exact Conduct.Ends.after installed (Follows.asks ((inward (elementary.note _)).bind fun _ noted _ =>
          (inward (elementary.called (.rendered id) rfl noted)).discard))
      exact renders.bind fun _ _ _ => Follows.pure _

/-- A render begins and ends, and owes for its beginning. -/
theorem works_drawHost (elementary : Elementary Conduct.pacing run) (furnished : world.Furnished)
    (has : world.HasTask effect (.render id)) : ∃ inner, Story.Regular inner ∧
      world.Works id (.ended :: inner ++ [.began]) (fun _ => 1) (worldAfter (Live.drawHost run id) world) := by
  obtain ⟨record, found⟩ := furnished.host? has
  have begins := World.Works.tell furnished found .began
  obtain ⟨inner, regular, works⟩ := Follows.always_iff.mp (renderHost elementary (world.tell id .began))
    begins.furnished ⟨effect, begins.later.hasTask has⟩
  have drawn := begins.trans works
  obtain ⟨last, reached⟩ := drawn.furnished.host? (drawn.later.hasTask has)
  have ends := drawn.trans (.tell drawn.furnished reached .ended)
  have same : worldAfter (Live.drawHost run id) world =
      (worldAfter (Live.renderHost run id) (world.tell id .began)).tell id .ended := worldAfter_ending _ _ _
  exact ⟨inner, regular, same ▸ ends⟩

/-- A host tells of an emission before its hooks run. -/
theorem works_emitHost (basic : Basic Conduct.pacing run) (furnished : world.Furnished)
    (found : world.host? id = some record) (kind : HookKind) : ∃ rest, Story.Regular rest ∧
      world.Works id (rest ++ [.emitted kind]) .none (worldAfter (Live.emitHost run id kind) world) := by
  have tells := World.Works.tell furnished found (.emitted kind)
  have calls : Follows Conduct.pacing (do
      let failures ← Live.emitHooks run record.hooks kind
      if 0 < failures then Live.note (.hooksFailed failures kind record.component.selector))
      (world.tell id (.emitted kind)) := by
    refine (basic.emitHooks _ kind).bind fun failures after _ => ?_
    split
    · exact basic.note _
    · exact Follows.pure _
  obtain ⟨rest, regular, works⟩ := (follows_iff.mp calls tells.furnished).works id
  have same : worldAfter (Live.emitHost run id kind) world = worldAfter (do
      let failures ← Live.emitHooks run record.hooks kind
      if 0 < failures then Live.note (.hooksFailed failures kind record.component.selector))
      (world.tell id (.emitted kind)) := by
    unfold Live.emitHost
    unfold worldAfter
    rw [get_bind, found]
    rfl
  exact ⟨rest, regular, same ▸ tells.trans works⟩

theorem owes_operation {action : Live A} (owes : Owes owed action world) : Owes owed (operation action) world := by
  intro furnished
  have inside := owes furnished
  have closed := inside.trans (calm_closes world.holds _ inside.furnished)
  have same : worldAfter (operation action) world =
      { worldAfter action world with holds := world.holds }.collect := worldAfter_ending _ _ _
  rw [same]
  exact closed.mono fun effect _ => Int.le_of_eq (Int.add_zero (owed effect))

/-- A render that a write caused is followed by an update, unless the template does not parse. -/
theorem works_redrawn (elementary : Elementary Conduct.pacing run) (furnished : world.Furnished)
    (has : world.HasTask effect (.render id)) (host : Host) :
    ∃ told, Story.Regular told ∧ .began ∈ told ∧
      world.Works id told (fun _ => 1) (worldAfter (redraw run id host) world) ∧
      ∀ after, redraw run id host world = .ok () after → .refused ∈ told ∨ .emitted .update ∈ told ∧
        ∃ drawn, Live.drawHost run id world = .ok (.ok ()) drawn ∧ drawn.Later after := by
  obtain ⟨inner, regular, works⟩ := works_drawHost elementary furnished has
  have began : ∀ told : List Milestone, .began ∈ told ++ (.ended :: inner ++ [.began]) :=
    fun _ => List.mem_append_right _ (List.mem_append_right _ List.mem_cons_self)
  unfold redraw
  cases outcome : Live.drawHost run id world with
  | error stop drawn =>
      rw [worldAfter_of_error outcome] at works
      rw [worldAfter_of_error (bind_of_error outcome), bind_of_error outcome]
      exact ⟨_, .drawn regular, began [], works, fun _ impossible => by cases impossible⟩
  | ok parsed drawn =>
      rw [worldAfter_of_ok outcome] at works
      have goes : ∀ next : Except TemplateError Unit → Live Unit,
          worldAfter (Live.drawHost run id >>= next) world = worldAfter (next parsed) drawn := by
        intro next
        unfold worldAfter
        rw [bind_of_ok outcome]
      rw [goes]
      obtain ⟨record, found⟩ := works.furnished.host? (works.later.hasTask has)
      cases parsed with
      | error error =>
          have refuses := works.trans (.tell works.furnished found .refused)
          obtain ⟨rest, further, notes⟩ :=
            (note (.rerenderFailed host.component.selector error) _ refuses.furnished).works id
          exact ⟨_, .append further (.append (.single rfl) (.drawn regular)), List.mem_append_right _ (began _),
            refuses.trans notes, fun _ _ => Or.inl (List.mem_append_right _ List.mem_cons_self)⟩
      | ok _ =>
          obtain ⟨rest, further, emits⟩ := works_emitHost elementary.toBasic works.furnished found .update
          have told : Story.Regular ((rest ++ [.emitted .update]) ++ (.ended :: inner ++ [.began])) := by
            rw [List.append_assoc]
            exact .append further (.updated regular)
          refine ⟨_, told, began _, works.trans emits, fun after returned => Or.inr
            ⟨List.mem_append_left _ (List.mem_append_right _ List.mem_cons_self), drawn, rfl, ?_⟩⟩
          rw [bind_of_ok outcome] at returned
          exact worldAfter_of_ok returned ▸ emits.later

/-- The render effect of a host owes one render. -/
theorem owes_rerender (elementary : Elementary Conduct.pacing run) (has : world.HasTask effect (.render id)) :
    Owes (.single effect) (Live.rerender run id) world := by
  have idle : ∀ {after : World}, Owes (.single effect) (pure () : Live Unit) after :=
    .of_follows (Follows.pure _) (Debt.single_nonneg effect)
  have looks : Follows Conduct.pacing (get : Live World) world := Conduct.pacing.refl world
  refine owes_operation (.follows_bind looks (fun _ asked asks => ?_) (Debt.single_nonneg effect))
  cases asks
  cases found : world.host? id with
  | none => exact idle
  | some host =>
      show Owes (.single effect) (if host.alive then _ else _) world
      split
      · refine .follows_bind (elementary.holds _ _) (fun _ held holds => ?_) (Debt.single_nonneg effect)
        refine .follows_bind (track _ _ held) (fun _ tracked tracks => ?_) (Debt.single_nonneg effect)
        have later : world.Later tracked :=
          ((Lasting.hold (.host id)).calm holds).trans ((Lasting.track host.state .any).calm tracks)
        split
        · intro furnished
          obtain ⟨told, regular, began, works, -⟩ := works_redrawn elementary furnished (later.hasTask has) host
          exact works.single regular began furnished (later.hasTask has)
        · exact idle
      · exact idle

/-- A host that is asked to render answers or refuses, and then goes on. -/
theorem asks (elementary : Elementary Conduct.pacing run) (has : world.HasTask effect (.render id)) (call : Call)
    {next : Except TemplateError Unit → Live A}
    (refuses : ∀ error drawn, worldAfter (next (.error error)) drawn = drawn.tell id .refused)
    (answers : ∀ drawn : World, Conduct.pacing.Ends (drawn.tell id (.answered call)) (next (.ok ()) drawn)) :
    Follows Conduct.pacing (do Live.tell id (.asked call); Live.drawHost run id >>= next) world := by
  refine follows_iff.mpr fun furnished => ?_
  obtain ⟨record, found⟩ := furnished.host? has
  have asked := World.Works.tell furnished found (.asked call)
  obtain ⟨inner, regular, works⟩ := works_drawHost elementary asked.furnished (asked.later.hasTask has)
  have drawing := asked.trans works
  have began : ∀ told : List Milestone, .began ∈ told ++ .ended :: inner ++ [.began, .asked call] :=
    fun _ => List.mem_append_right _ List.mem_cons_self
  have quiet : Story.Regular (.ended :: inner ++ [.began, .asked call]) := by
    have asks : Story.Regular [.asked call] := .single rfl
    simpa using (Story.Regular.drawn regular).append asks
  have same : .ended :: inner ++ [.began] ++ [.asked call] = .ended :: inner ++ [.began, .asked call] := by
    simp
  show world.Paces .none (worldAfter (Live.drawHost run id >>= next) (world.tell id (.asked call)))
  refine worldAfter_bind (fun stop drawn outcome => ?_) fun parsed drawn outcome => ?_
  · rw [worldAfter_of_error outcome, same] at drawing
    exact drawing.settled quiet (began [])
  · rw [worldAfter_of_ok outcome, same] at drawing
    cases parsed with
    | error error =>
        rw [refuses]
        exact (drawing.settled quiet (began [])).steadily (.tell drawing.furnished id rfl)
    | ok _ =>
        obtain ⟨last, reached⟩ := drawing.furnished.host? (drawing.later.hasTask has)
        have answered := drawing.trans (.tell drawing.furnished reached (.answered call))
        have paces : world.Paces .none (drawn.tell id (.answered call)) :=
          answered.settled (.answered call regular) (List.mem_cons_of_mem _ (began []))
        exact paces.steadily (ends_iff.mp (answers drawn) paces.furnished)

theorem renderAsked (elementary : Elementary Conduct.pacing run) (has : world.HasTask effect (.render id)) :
    Follows Conduct.pacing (Live.renderAsked run id) world :=
  asks elementary has .render (fun _ _ => rfl) fun _ => Conduct.pacing.refl _

/-- A host counts as mounted after its first render, and then calls its hooks. -/
theorem mountHost (elementary : Elementary Conduct.pacing run) (has : world.HasTask effect (.render id)) :
    Follows Conduct.pacing (Live.mountHost run id) world := by
  have announces : ∀ after : World, Follows Conduct.pacing (do
      let selector := ((← get).host? id).elim "" fun host => host.component.selector
      Live.note (.hostMounted selector)
      Live.emitHost run id .mount
      pure (Except.ok () : Except TemplateError Unit)) after := fun after =>
    Follows.asks ((elementary.note _).bind fun _ noted _ =>
      (elementary.emitsHost id (fun impossible => by cases impossible)).bind fun _ _ _ => Follows.pure _)
  refine asks elementary has .mount (fun _ _ => rfl) fun drawn => ?_
  let answered := drawn.tell id (.answered .mount)
  let mounted := answered.modifyHost id fun host => { host with mounted := true }
  have later : answered.Later mounted := World.later_modifyHost answered id _ (fun _ => rfl) (fun _ => rfl)
    (fun _ lives => lives) (fun _ => Or.inl rfl) (fun _ => Or.inl rfl)
  have mounting : Conduct.pacing.calm answered mounted :=
    calm_modifyHost later (fun _ => rfl) (fun _ => rfl) fun _ _ => rfl
  exact Conduct.Ends.after mounting (announces mounted)

/-- The hooks run while the host still has its content. -/
theorem destroyHost (basic : Basic Conduct.pacing run) (world : World) :
    Follows Conduct.pacing (Live.destroyHost run id) world := by
  refine (basic.emitsHost id (fun impossible => by cases impossible)).bind fun _ emitted _ =>
    (dropBindings id emitted).bind fun _ dropped _ => ?_
  cases found : dropped.host? id with
  | none =>
      refine Follows.asks ?_
      rw [found]
      exact Follows.pure _
  | some record =>
      have removes : Conduct.pacing.calm dropped (dropped.removed id record) :=
        fun furnished => .removed furnished found
      refine Follows.asks ?_
      rw [found]
      exact Conduct.pacing.trans removes (note _ _)

/-- A host that is new gets a render effect, whose first run concerns no host that was there before. -/
theorem paces_registered (keeps : run.Keeps Conduct.pacing) (draws : Draws run) {label : String}
    (early : origin.Paces .none world) (new : origin.hosts.size ≤ id)
    (made : (world.withEffect label (.render id) []).Furnished) :
    origin.Paces .none (worldAfter (Live.registerEffect run label (.render id) []) world) := by
  have makes : origin.Paces .none (world.withEffect label (.render id) []) := by
    have later := Lasting.later_withEffect label (.render id) [] world
    refine ⟨⟨made, early.later.trans later, fun effect other known has => ?_⟩, fun other => ?_⟩
    · rcases World.hasTask_of_withEffect has with old | ⟨-, same⟩
      · exact early.old effect other known old
      · cases same
        exact absurd known (Nat.not_lt.mpr new)
    · exact ((early.tells other).trans (.withEffect label (.render id) [] other world) early.later later).mono
        fun _ _ => Int.le_refl 0
  have runs : Owes (.single world.graph.effects.size) (do
      Live.hold (.effect world.graph.effects.size)
      Live.note (.effectRegistered (World.number world.graph.effects.size) label)
      Live.runEffect run world.graph.effects.size
      pure world.graph.effects.size) (world.withEffect label (.render id) []) := by
    refine .follows_bind (plain.holds _ _) (fun _ held _ => ?_) (Debt.single_nonneg _)
    refine .follows_bind (plain.note _) (fun _ noted _ => ?_) (Debt.single_nonneg _)
    refine (Owes.bind (owes_runEffect keeps draws _ noted) (fun _ _ _ => Owes.of_follows (Follows.pure _)
      fun _ => Int.le_refl 0) fun _ => Int.le_refl 0).mono fun effect => Int.le_of_eq (Int.add_zero _)
  refine (makes.trans (runs made)).mono fun effect known => ?_
  have other : effect ≠ world.graph.effects.size := Nat.ne_of_lt (Nat.lt_of_lt_of_le known early.later.effects)
  show Debt.none effect + Debt.single world.graph.effects.size effect ≤ Debt.none effect
  rw [Debt.single, if_neg other]
  exact Int.le_refl 0

/-- A registered effect exists, and is new. -/
theorem registered_bounds (lasting : run.Keeps Conduct.lasting) {label : String} {task : Task}
    (outcome : Live.registerEffect run label task [] world = .ok effect after) :
    world.graph.effects.size ≤ effect ∧ effect < after.graph.effects.size :=
  Lasting.bounds_of_makes (Lasting.plain.makes_registerEffect (fun effect noted _ =>
    Lasting.runEffect lasting effect noted) outcome)

/-- A host that is new has no render effect yet, whatever its hooks have done. -/
theorem unrendered {component : Component Script} {state : TargetId} {container : NodeId} (furnished : world.Furnished)
    (furnishes : (world.withHost component state container).Furnishes after) :
    world.hosts.size < after.hosts.size ∧ ∀ effect, ¬ after.HasTask effect (.render world.hosts.size) := by
  have known : world.hosts.size < (world.withHost component state container).hosts.size :=
    Nat.lt_of_lt_of_eq (Nat.lt_succ_self _) (Array.size_push _).symm
  refine ⟨Nat.lt_of_lt_of_le known furnishes.later.hosts_le, fun effect has => ?_⟩
  exact Nat.lt_irrefl _ (furnished.hosts effect _ (furnishes.old effect _ known has))

/-- A host enters, and then gets the only effect that renders it. -/
theorem paces_entered (keeps : run.Keeps Conduct.pacing) (draws : Draws run) (lasting : run.Keeps Conduct.lasting)
    (component : Component Script) (state : TargetId) (container : NodeId) :
    Follows Conduct.pacing (Live.enterHost run component state container) world := by
  refine follows_iff.mpr fun furnished => ?_
  let id := world.hosts.size
  have added := World.Paces.withHost furnished component state container
  have announces : Follows Conduct.pacing (do Live.hold (.host id); Live.emitHost run id .init)
      (world.withHost component state container) :=
    (plain.holds _ _).bind fun _ _ _ => (basic keeps).emitsHost id (fun impossible => by cases impossible)
  have announced := follows_iff.mp announces added.furnished
  let rest : Live HostId := do
    let effect ← Live.registerEffect run ("render " ++ component.selector) (.render id) []
    Live.modifyHost id fun host => { host with renderEffect := some effect }
    Live.note (.hostCreated component.selector)
    pure id
  have parts : worldAfter (Live.enterHost run component state container) world =
      worldAfter ((do Live.hold (.host id); Live.emitHost run id .init) >>= fun _ => rest)
        (world.withHost component state container) := by
    rw [bind_assoc]
    rfl
  rw [parts]
  have before := added.steadily announced
  refine worldAfter_bind (fun stop after outcome => ?_) fun _ after outcome => ?_
  · rwa [worldAfter_of_error outcome] at before
  rw [worldAfter_of_ok outcome] at before announced
  have made : (after.withEffect ("render " ++ component.selector) (.render id) []).Furnished :=
    before.furnished.withEffect fun other same => by
      cases same
      exact unrendered furnished announced.toFurnishes
  have registered := paces_registered keeps draws before (Nat.le_refl _) made
  refine worldAfter_bind (fun stop last outcome => ?_) fun effect last outcome => ?_
  · rwa [worldAfter_of_error outcome] at registered
  rw [worldAfter_of_ok outcome] at registered
  have known := registered_bounds lasting outcome
  have rendering : world.Paces .none (last.modifyHost id fun host => { host with renderEffect := some effect }) :=
    registered.rendersBy furnished.sound (Nat.le_trans before.later.effects known.1) known.2
  exact rendering.steadily (note _ _ rendering.furnished)

/-- A host that has entered has a render effect. -/
theorem housed_entered (lasting : run.Keeps Conduct.lasting) {component : Component Script}
    {state : TargetId} {container : NodeId} (outcome : Live.enterHost run component state container world = .ok id after) :
    ∃ effect, after.HasTask effect (.render id) := by
  unfold Live.enterHost at outcome
  obtain ⟨_, _, adds, outcome⟩ := bind_eq_ok.mp outcome
  obtain ⟨_, _, holds, outcome⟩ := bind_eq_ok.mp outcome
  obtain ⟨_, _, emits, outcome⟩ := bind_eq_ok.mp outcome
  obtain ⟨effect, registered, registers, outcome⟩ := bind_eq_ok.mp outcome
  cases outcome
  obtain ⟨_, _, creates, registers⟩ := bind_eq_ok.mp registers
  obtain ⟨_, _, holds, registers⟩ := bind_eq_ok.mp registers
  obtain ⟨_, noted, notes, registers⟩ := bind_eq_ok.mp registers
  obtain ⟨_, finished, ran, registers⟩ := bind_eq_ok.mp registers
  cases registers
  have later : noted.Later registered := (Lasting.runEffect lasting effect noted).calm ran
  exact ⟨effect, later.hasTask (Plain.hasTask_registered creates holds notes)⟩

theorem enters (keeps : run.Keeps Conduct.pacing) (draws : Draws run) (lasting : run.Keeps Conduct.lasting) :
    Conduct.pacing.Enters run := fun component state container _ _ calm _ _ =>
  ⟨Conduct.Ends.after calm (paces_entered keeps draws lasting component state container),
    fun _ _ outcome => housed_entered lasting outcome⟩

theorem hosting (keeps : run.Keeps Conduct.pacing) (draws : Draws run) :
    Hosting Conduct.pacing run fun _ => True where
  toElementary := elementary keeps draws
  tells _ _ _ foreign := (foreign trivial).elim
  mounts _ _ foreign := (foreign trivial).elim
  templates _ _ _ foreign := (foreign trivial).elim
  dropsContent _ _ foreign := (foreign trivial).elim
  installs _ _ _ _ _ _ foreign := (foreign trivial).elim
  removes _ _ _ foreign := (foreign trivial).elim
  rendersOwn id world _ finds := by
    obtain ⟨entry, listed, rfl⟩ := finds.named
    refine follows_of fun furnished => ?_
    obtain ⟨effect, has⟩ := furnished.named entry listed
    exact renderAsked (elementary keeps draws) has
  mountsOwn id world _ finds := by
    obtain ⟨entry, listed, rfl⟩ := finds.named
    refine follows_of fun furnished => ?_
    obtain ⟨effect, has⟩ := furnished.named entry listed
    exact mountHost (elementary keeps draws) has
  rerendersOwn id world _ fits := absurd rfl (fits id)
  destroysOwn id world _ := destroyHost (basic keeps) world

/-- A name is given to a host that has a render effect. -/
theorem namesHost (name : String) (id : HostId) (world : World) (housed : ∃ effect, world.HasTask effect (.render id)) :
    Conduct.pacing.calm world (world.withNames fun names => { names with hosts := names.hosts.put name id }) := by
  intro furnished
  have idle := World.Paces.refl furnished
  have later : world.Later (world.withNames fun names => { names with hosts := names.hosts.put name id }) :=
    Lasting.later_names (.refl world) _ (fun entry member => Or.inl ⟨entry, member, rfl⟩)
      fun entry member _ listed => Or.inl ⟨entry, member, listed⟩
  refine ⟨idle.toFurnishes.carry furnished.sound later rfl (Nat.le_refl _) (fun _ _ refers => Or.inl refers)
    (fun _ refers => Or.inl refers) fun entry member => ?_, fun id => (idle.tells id).carry rfl rfl rfl
      fun _ refers => refers⟩
  rcases Assoc.mem_put member with new | old
  · rw [new]
    exact housed
  · exact furnished.named entry old

theorem lawful (keeps : run.Keeps Conduct.pacing) (draws : Draws run) (lasting : run.Keeps Conduct.lasting) :
    Lawful Conduct.pacing run := (hosting keeps draws).lawful (enters keeps draws lasting) namesHost

theorem lasts (depth : Nat) : (runTo depth).Keeps Conduct.lasting :=
  Runner.keeps_runTo World.Later.refl (fun depth _ => lawful_lasting depth) depth

/-- Code of each depth follows, and render effects owe for what they render. -/
theorem paces_runTo (depth : Nat) : (runTo depth).Keeps Conduct.pacing ∧ Draws (runTo depth) := by
  induction depth with
  | zero =>
      refine ⟨fun _ world _ => Follows.stops (Conduct.pacing.refl world) _, fun id effect world _ furnished => ?_⟩
      exact (World.Paces.refl furnished).mono fun other _ => Debt.single_nonneg effect other
  | succ depth inductionHypothesis =>
      obtain ⟨keeps, draws⟩ := inductionHypothesis
      refine ⟨fun activity _ fits => (lawful keeps draws (lasts depth)).runActivity activity fits, fun id effect world has => ?_⟩
      have rerenders := owes_rerender (elementary keeps draws) has
      have ends : ∀ after, Owes .none (pure Value.null : Live Value) after :=
        fun _ => .of_follows (Follows.pure _) fun _ => Int.le_refl 0
      refine (rerenders.bind (fun _ after _ => ends after) fun _ => Int.le_refl 0).mono fun other => ?_
      exact Int.le_of_eq (Int.add_zero _)

end Pacing

/-- Whatever code runs, each render of each host is accounted for. -/
theorem lawful_pacing (depth : Nat) : Lawful Conduct.pacing (Live.runTo depth) :=
  have paces := Pacing.paces_runTo depth
  Pacing.lawful paces.1 paces.2 (Pacing.lasts depth)

end LiveMarkup
