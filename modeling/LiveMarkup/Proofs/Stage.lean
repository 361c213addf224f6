import LiveMarkup.Proofs.Contents
import LiveMarkup.Proofs.Displaying
import LiveMarkup.Proofs.Establishing

/-
This file says when a display is the content of a host, and when a host is left to itself.
-/

namespace LiveMarkup

/-- A host renders into its container from some time on. The deeds and the names of the methods are
those of that time. -/
structure Stage where
  host : HostId
  state : TargetId
  container : Nat
  deeds : List Deed
  methods : String → Bool

namespace World

/-- A host has the same state and container, lives as before, and is mounted as before. -/
def SameHost (host : HostId) (before after : World) : Prop :=
  ∃ change : Host → Host, after.host? host = (before.host? host).map change ∧ ∀ record,
    (change record).state = record.state ∧ (change record).container = record.container ∧
      (change record).alive = record.alive ∧ (change record).mounted = record.mounted

namespace SameHost

variable {host : HostId} {before after : World}

theorem of_eq (hosts : after.hosts = before.hosts) : before.SameHost host after := by
  refine ⟨id, ?_, fun _ => ⟨rfl, rfl, rfl, rfl⟩⟩
  unfold host?
  rw [hosts]
  exact (congrFun Option.map_id _).symm

theorem modifyHost (world : World) (id : HostId) {change : Host → Host}
    (same : ∀ record, (change record).state = record.state ∧
      (change record).container = record.container ∧ (change record).alive = record.alive ∧
        (change record).mounted = record.mounted) : world.SameHost host (world.modifyHost id change) := by
  unfold SameHost
  rw [host?_modifyHost]
  split
  · exact ⟨change, rfl, same⟩
  · exact of_eq rfl

theorem record (same : before.SameHost host after) (old : Host) (found : before.host? host = some old) :
    ∃ newer, after.host? host = some newer ∧ newer.state = old.state ∧
      newer.container = old.container := by
  obtain ⟨change, reached, keeps⟩ := same
  exact ⟨change old, by rw [reached, found]; rfl, (keeps old).1, (keeps old).2.1⟩

theorem living (same : before.SameHost host after) (newer : Host)
    (found : after.host? host = some newer) (alive : newer.alive = true) :
    ∃ old, before.host? host = some old ∧ old.alive = true := by
  obtain ⟨change, reached, keeps⟩ := same
  obtain ⟨old, known, changed⟩ := Option.map_eq_some_iff.mp (reached.symm.trans found)
  exact ⟨old, known, by rw [← (keeps old).2.2.1, changed, alive]⟩

theorem mounted (same : before.SameHost host after) (mounted : after.Mounted host) :
    before.Mounted host := by
  obtain ⟨newer, found, alive, mounts⟩ := mounted
  obtain ⟨change, reached, keeps⟩ := same
  obtain ⟨old, known, changed⟩ := Option.map_eq_some_iff.mp (reached.symm.trans found)
  exact ⟨old, known, by rw [← (keeps old).2.2.1, changed, alive],
    by rw [← (keeps old).2.2.2, changed, mounts]⟩

end SameHost

end World

namespace Stage

variable {stage : Stage}

/-- After these deeds, the content of the host has these effects. -/
def effects (stage : Stage) (deeds : List Deed) : List EffectId :=
  (Deed.content? stage.host deeds).getD []

/-- The host did this itself, or its container and its state were left to the content that there was. -/
def Respects (stage : Stage) (older : List Deed) (deed : Deed) : Prop :=
  deed.concerns stage.host = true ∨
    deed.LeavesAlone stage.state stage.container (· ∈ stage.effects older)

/-- All deeds since respected the host. The latest deed comes first. -/
def Quiet (stage : Stage) : List Deed → Prop
  | [] => True
  | deed :: older => stage.Respects (older ++ stage.deeds) deed ∧ stage.Quiet older

theorem Quiet.earlier {late early : List Deed} (quiet : stage.Quiet (late ++ early)) :
    stage.Quiet early := by
  induction late with
  | nil => exact quiet
  | cons deed rest inductionHypothesis => exact inductionHypothesis quiet.2

/-- As long as the host did nothing, all deeds left its content alone. -/
theorem Quiet.leavesAlone {late early : List Deed} (quiet : stage.Quiet (late ++ early))
    (others : ∀ deed ∈ late, deed.concerns stage.host = false) :
    ∀ deed ∈ late, deed.LeavesAlone stage.state stage.container
      (· ∈ stage.effects (early ++ stage.deeds)) := by
  induction late with
  | nil => exact fun _ impossible => by cases impossible
  | cons first rest inductionHypothesis =>
      have foreign : ∀ deed ∈ rest, deed.concerns stage.host = false :=
        fun deed member => others deed (List.mem_cons_of_mem _ member)
      intro deed member
      rcases List.mem_cons.mp member with rfl | later
      · have same : stage.effects ((rest ++ early) ++ stage.deeds) =
            stage.effects (early ++ stage.deeds) := by
          unfold effects
          rw [List.append_assoc, (Deed.content?_append_of_others foreign _).1]
        have here : stage.Respects ((rest ++ early) ++ stage.deeds) deed := quiet.1
        have allowed := here.resolve_left (by rw [others deed member]; exact Bool.false_ne_true)
        rwa [same] at allowed
      · exact inductionHypothesis quiet.2 foreign deed later

/-- The host lives, its state has gained no method, all deeds respected it, and its templates contain no
calls. -/
structure Peaceful (stage : Stage) (world : World) : Prop where
  living : ∃ record, world.host? stage.host = some record ∧ record.alive = true
  methods : ∀ store name, world.store? stage.state = some store →
    store.methods.contains name = true → stage.methods name = true
  deeds : ∃ newer, world.deeds = newer ++ stage.deeds ∧ stage.Quiet newer
  free : ∀ template trees, .parsed stage.host template ∈ world.deeds →
    Markup.parse template = .ok trees → Markup.EverywhereAll Markup.CallFree trees

/-- A display is the content of the host, or the host has no content. -/
structure Fits (stage : Stage) (display : Display) : Prop where
  formed : display.Formed
  state : display.state = stage.state
  root : display.root = stage.container
  methods : display.methods = stage.methods
  since : stage.deeds <:+ display.deeds
  owns : ∀ id, display.Owns id ↔ id ∈ stage.effects display.deeds
  content : ∀ effects, Deed.content? stage.host display.deeds = some effects →
    ∃ template, Deed.template? stage.host display.deeds = some template ∧
      Markup.parse template = .ok display.trees ∧
      Markup.EverywhereAll Markup.CallFree display.trees ∧
      display.kids = Markup.places display.start display.trees

/-- The content of the host stands, and only the host refers to its effects. -/
structure Presents (stage : Stage) (display : Display) (world : World) : Prop
    extends Stage.Fits stage display where
  stands : display.Stands world
  record : ∃ record, world.host? stage.host = some record ∧ record.state = stage.state ∧
    record.container = stage.container
  alive : world.isAlive stage.state = true
  deeds : ∃ newer, world.deeds = newer ++ display.deeds ∧
    ∀ deed ∈ newer, deed.concerns stage.host = false
  alone : ∀ id place, display.Owns id → world.RefersAt id place → place = .content stage.host
  lasting : ∀ id, display.Owns id → world.graph.isDisposed id = false

variable {display : Display} {before after world : World} {id : EffectId}

namespace Presents

/-- What the host did is the same as when the display was set up. -/
theorem same (presents : stage.Presents display world) :
    Deed.content? stage.host world.deeds = Deed.content? stage.host display.deeds ∧
      Deed.template? stage.host world.deeds = Deed.template? stage.host display.deeds := by
  obtain ⟨newer, since, others⟩ := presents.deeds
  rw [since]
  exact Deed.content?_append_of_others others _

theorem owns_iff (presents : stage.Presents display world) :
    display.Owns id ↔ id ∈ stage.effects world.deeds := by
  rw [presents.owns]
  unfold effects
  rw [presents.same.1]

theorem known (presents : stage.Presents display world) (owned : display.Owns id) :
    id < world.graph.effects.size := by
  have exists? : ∃ task, world.HasTask id task := by
    rcases owned with ⟨site, member, rfl⟩ | member
    · exact ⟨_, presents.stands.tasks site member⟩
    · obtain ⟨node, source, task, -⟩ := presents.stands.inputs id member
      exact ⟨_, task⟩
  obtain ⟨task, effect, found, -⟩ := exists?
  exact (Array.getElem?_eq_some_iff.mp found).1

theorem older (presents : stage.Presents display world) : stage.deeds <:+ world.deeds :=
  presents.since.trans presents.stands.deeds

end Presents

/-- A host that is at peace now was so before. -/
theorem Peaceful.earlier (peaceful : stage.Peaceful after) (later : before.Later after)
    (deeds : stage.deeds <:+ before.deeds)
    (record : (before.host? stage.host).isSome = true) : stage.Peaceful before where
  living := by
    obtain ⟨old, looked⟩ := Option.isSome_iff_exists.mp record
    obtain ⟨newer, reached, -, -, alive⟩ := later.hosts stage.host old looked
    obtain ⟨found, known, lives⟩ := peaceful.living
    cases reached.symm.trans known
    exact ⟨old, looked, alive lives⟩
  methods store name found listed := by
    obtain ⟨newer, reached, -, kept⟩ := later.stores _ store found
    exact peaceful.methods newer name reached (kept name listed)
  deeds := by
    obtain ⟨newer, since, quiet⟩ := peaceful.deeds
    obtain ⟨early, same⟩ := deeds
    obtain ⟨late, appended⟩ := later.deeds
    have parts : newer = late ++ early := by
      refine (List.append_left_inj stage.deeds).mp ?_
      rw [← since, ← appended, ← same, List.append_assoc]
    have whole : stage.Quiet (late ++ early) := parts ▸ quiet
    exact ⟨early, same.symm, whole.earlier⟩
  free template trees member := peaceful.free template trees (later.deeds.subset member)

/-- Between a time at which the content stood and a time at peace, the host was at peace. -/
theorem Presents.peaceful (presents : stage.Presents display origin) (early : origin.Later before)
    (late : before.Later after) (peaceful : stage.Peaceful after) : stage.Peaceful before := by
  obtain ⟨record, found, -⟩ := presents.record
  obtain ⟨newer, reached, -⟩ := early.hosts _ record found
  refine peaceful.earlier late (presents.older.trans early.deeds) ?_
  rw [reached]
  rfl

/-- While a host is at peace, and does nothing itself, its content is left to itself. -/
theorem Fits.untouched (fits : stage.Fits display) (peaceful : stage.Peaceful world)
    (alive : world.isAlive stage.state = true) (since : ∃ newer, world.deeds = newer ++ display.deeds ∧
      ∀ deed ∈ newer, deed.concerns stage.host = false)
    (lasting : ∀ id, display.Owns id → world.graph.isDisposed id = false) :
    display.Untouched world where
  deeds := by
    obtain ⟨late, since, others⟩ := since
    obtain ⟨early, same⟩ := fits.since
    obtain ⟨newer, whole, quiet⟩ := peaceful.deeds
    have parts : newer = late ++ early := by
      refine (List.append_left_inj stage.deeds).mp ?_
      rw [← whole, since, ← same, List.append_assoc]
    subst parts
    refine ⟨late, since, fun deed member => ?_⟩
    have allowed := quiet.leavesAlone others deed member
    rw [same] at allowed
    have owns : display.Owns = (· ∈ stage.effects display.deeds) :=
      funext fun id => propext (fits.owns id)
    unfold Display.Allows
    rwa [fits.state, fits.root, owns]
  alive := fits.state ▸ alive
  methods store name found listed := by
    rw [fits.methods]
    exact peaceful.methods store name (fits.state ▸ found) listed
  lasting := lasting

theorem Presents.untouched (presents : stage.Presents display world) (peaceful : stage.Peaceful world) :
    display.Untouched world :=
  presents.toFits.untouched peaceful presents.alive presents.deeds presents.lasting

/-- The content stays, and what is up to date in it stays so. -/
structure Continues (stage : Stage) (display : Display) (before after : World) : Prop where
  presents : stage.Presents display after
  fresh : ∀ site, display.HasSite site → display.Fresh before site → display.Fresh after site

/-- New content, which is up to date, has taken the place of the old one. -/
structure Renews (stage : Stage) (display : Display) (before after : World) : Prop where
  presents : stage.Presents display after
  fresh : ∀ site, display.HasSite site → display.Fresh after site
  recent : ∀ id, display.Owns id → before.graph.effects.size ≤ id

/-- A host gets mounted only with content. -/
def Mounts (stage : Stage) (before after : World) : Prop :=
  ∀ newer, after.deeds = newer ++ before.deeds → (∀ holders, .destroyed stage.host holders ∉ newer) →
    after.Mounted stage.host → before.Mounted stage.host ∨
      (Deed.content? stage.host after.deeds).isSome = true

/-- The host is left to itself, and so its content stays, or new content takes its place. -/
def Keeps (stage : Stage) (before after : World) : Prop :=
  stage.Peaceful after → before.Sound → ∀ display, stage.Presents display before →
    stage.Mounts before after ∧ (stage.Continues display before after ∨
      ∃ newer, stage.Renews newer before after)

theorem Continues.refl (presents : stage.Presents display world) :
    stage.Continues display world world := ⟨presents, fun _ _ fresh => fresh⟩

theorem Continues.trans {first second third : World} (early : stage.Continues display first second)
    (late : stage.Continues display second third) : stage.Continues display first third :=
  ⟨late.presents, fun site member fresh => late.fresh site member (early.fresh site member fresh)⟩

/-- New content that stays is still new. -/
theorem Renews.trans {first second third : World} (early : stage.Renews display first second)
    (late : stage.Continues display second third) : stage.Renews display first third :=
  ⟨late.presents, fun site member => late.fresh site member (early.fresh site member), early.recent⟩

theorem Renews.later {first second third : World} (early : first.Later second)
    (late : stage.Renews display second third) : stage.Renews display first third :=
  { late with recent := fun id owned => Nat.le_trans early.effects (late.recent id owned) }

theorem Mounts.of_mounted (mounted : after.Mounted stage.host → before.Mounted stage.host) :
    stage.Mounts before after := fun _ _ _ holds => Or.inl (mounted holds)

theorem Mounts.trans {first second third : World} (before : stage.Mounts first second)
    (later : first.Later second) (after : stage.Mounts second third) (last : second.Later third) :
    stage.Mounts first third := by
  intro newer since standing mounted
  obtain ⟨early, same⟩ := later.deeds
  obtain ⟨late, continued⟩ := last.deeds
  have parts : newer = late ++ early := by
    refine (List.append_left_inj first.deeds).mp ?_
    rw [← since, ← continued, ← same, List.append_assoc]
  subst parts
  have standingLate : ∀ holders, .destroyed stage.host holders ∉ late :=
    fun holders member => standing holders (List.mem_append_left _ member)
  rcases after late continued.symm standingLate mounted with between | content
  · rcases before early same.symm
      (fun holders member => standing holders (List.mem_append_right _ member)) between with
      start | content
    · exact Or.inl start
    · refine Or.inr ?_
      rw [← continued, Deed.content?_append standingLate]
      cases Deed.content? stage.host late with
      | none => exact content
      | some effects => rfl
  · exact Or.inr content

theorem Keeps.refl (stage : Stage) (world : World) : stage.Keeps world world :=
  fun _ _ _ presents => ⟨.of_mounted fun mounted => mounted, Or.inl (.refl presents)⟩

/-- Content may be renewed several times. -/
theorem Keeps.trans {first second third : World} (before : stage.Keeps first second)
    (later : first.Later second) (after : stage.Keeps second third) (last : second.Later third) :
    stage.Keeps first third := by
  intro peaceful sound display presents
  have between := presents.peaceful later last peaceful
  obtain ⟨mounts, outcome⟩ := before between sound display presents
  rcases outcome with continues | ⟨newer, renews⟩
  · obtain ⟨mountsLast, outcome⟩ := after peaceful (later.sound sound) display continues.presents
    refine ⟨mounts.trans later mountsLast last, ?_⟩
    rcases outcome with still | ⟨newest, renewed⟩
    · exact Or.inl (continues.trans still)
    · exact Or.inr ⟨newest, renewed.later later⟩
  · obtain ⟨mountsLast, outcome⟩ := after peaceful (later.sound sound) newer renews.presents
    refine ⟨mounts.trans later mountsLast last, Or.inr ?_⟩
    rcases outcome with still | ⟨newest, renewed⟩
    · exact ⟨newer, renews.trans still⟩
    · exact ⟨newest, renewed.later later⟩

/-- The content stays if the host did nothing, and nobody disposed an effect of it. -/
theorem Presents.continues (presents : stage.Presents display before) (peaceful : stage.Peaceful after)
    (calm : (Conduct.displaying display).calm before after)
    (deeds : ∃ newer, after.deeds = newer ++ before.deeds ∧
      ∀ deed ∈ newer, deed.concerns stage.host = false)
    (lasting : ∀ id, display.Owns id → after.graph.isDisposed id = false)
    (houses : before.Houses stage.host after) : stage.Continues display before after := by
  obtain ⟨later, keeps⟩ := calm
  have alive : after.isAlive stage.state = true := by
    obtain ⟨old, found, state, -⟩ := presents.record
    obtain ⟨record, reached, lives⟩ := peaceful.living
    exact state ▸ houses old record found reached lives (state.symm ▸ presents.alive)
  have record : ∃ record, after.host? stage.host = some record ∧ record.state = stage.state ∧
      record.container = stage.container := by
    obtain ⟨record, found, state, container⟩ := presents.record
    obtain ⟨newer, reached, containerSame, stateSame, -⟩ := later.hosts _ record found
    exact ⟨newer, reached, stateSame.trans state, containerSame.trans container⟩
  have since : ∃ newer, after.deeds = newer ++ display.deeds ∧
      ∀ deed ∈ newer, deed.concerns stage.host = false := by
    obtain ⟨early, same, others⟩ := presents.deeds
    obtain ⟨late, appended, othersLate⟩ := deeds
    refine ⟨late ++ early, by rw [appended, same, List.append_assoc], fun deed member => ?_⟩
    rcases List.mem_append.mp member with last | first
    · exact othersLate deed last
    · exact others deed first
  have alone : ∀ id place, display.Owns id → after.RefersAt id place → place = .content stage.host :=
    fun id place owned refers =>
      presents.alone id place owned (later.inherits id place (presents.known owned) refers)
  obtain ⟨stands, fresh⟩ :=
    keeps (presents.toFits.untouched peaceful alive since lasting) presents.stands
  exact ⟨{ presents with stands, record, alive, deeds := since, alone, lasting }, fresh⟩

theorem Presents.of_steady (presents : stage.Presents display before) (peaceful : stage.Peaceful after)
    (calm : (Conduct.displaying display).calm before after) (steady : before.Steady stage.host after) :
    stage.Continues display before after := by
  refine presents.continues peaceful calm steady.deeds (fun id owned => ?_) steady.houses
  cases gone : after.graph.isDisposed id with
  | false => rfl
  | true =>
      rcases steady.spares id (presents.known owned) gone with disposed | ⟨place, refers, lost⟩
      · exact absurd ((presents.lasting id owned).symm.trans disposed) Bool.false_ne_true
      · obtain ⟨record, found, alive⟩ := peaceful.living
        have here := presents.alone id place owned refers
        subst here
        exact absurd ((lost rfl record found).symm.trans alive) Bool.false_ne_true

/-- The content may come into other hands, if its own effects are not concerned. -/
theorem Presents.alike (presents : stage.Presents display world) (alike : world.Alike after)
    (record : ∀ old, world.host? stage.host = some old → ∃ newer, after.host? stage.host = some newer ∧
      newer.state = old.state ∧ newer.container = old.container)
    (refers : ∀ id place, display.Owns id → after.RefersAt id place → world.RefersAt id place) :
    stage.Continues display world after where
  presents := { presents with
    stands := alike.stands presents.stands
    record := by
      obtain ⟨old, found, state, container⟩ := presents.record
      obtain ⟨newer, reached, stateSame, containerSame⟩ := record old found
      exact ⟨newer, reached, stateSame.trans state, containerSame.trans container⟩
    alive := by
      have alive := presents.alive
      unfold World.isAlive at alive ⊢
      rwa [alike.store?]
    deeds := alike.deeds ▸ presents.deeds
    alone := fun id place owned reached => presents.alone id place owned (refers id place owned reached)
    lasting := fun id owned => alike.graph ▸ presents.lasting id owned }
  fresh _ _ fresh := alike.fresh fresh

theorem Peaceful.of_same (peaceful : stage.Peaceful after) (targets : after.targets = world.targets)
    (deeds : after.deeds = world.deeds) (living : ∀ newer, after.host? stage.host = some newer →
      newer.alive = true → ∃ old, world.host? stage.host = some old ∧ old.alive = true) :
    stage.Peaceful world where
  living := by
    obtain ⟨newer, found, alive⟩ := peaceful.living
    exact living newer found alive
  methods store name found := by
    refine peaceful.methods store name ?_
    unfold World.store? at found ⊢
    rwa [targets]
  deeds := deeds ▸ peaceful.deeds
  free := deeds ▸ peaceful.free

theorem Keeps.of_steady
    (displays : ∀ display : Display, display.Formed → (Conduct.displaying display).calm before after)
    (steady : before.Steady stage.host after) : stage.Keeps before after :=
  fun peaceful _ display presents => ⟨.of_mounted steady.mounted,
    Or.inl (presents.of_steady peaceful (displays display presents.formed) steady)⟩

/-- A step without deeds goes on with whatever content there is. -/
theorem Keeps.extend (keeps : stage.Keeps origin world) (deeds : after.deeds = world.deeds)
    (mounted : after.Mounted stage.host → world.Mounted stage.host)
    (peaceful : stage.Peaceful after → stage.Peaceful world)
    (continues : stage.Peaceful after → origin.Sound → ∀ old, stage.Presents old origin →
      ∀ display, stage.Presents display world → stage.Continues display world after) :
    stage.Keeps origin after := by
  intro peace sound old presents
  obtain ⟨mounts, outcome⟩ := keeps (peaceful peace) sound old presents
  constructor
  · intro newer since standing mounts'
    rw [deeds]
    exact mounts newer (deeds ▸ since) standing (mounted mounts')
  · rcases outcome with still | ⟨newer, renews⟩
    · exact Or.inl (still.trans (continues peace sound old presents old still.presents))
    · exact Or.inr ⟨newer, renews.trans (continues peace sound old presents newer renews.presents)⟩

/-- Scripts cannot dispose the effects of the content. -/
theorem Keeps.spares_commanded (keeps : stage.Keeps origin world) (peaceful : stage.Peaceful world)
    (sound : origin.Sound) (presents : stage.Presents display origin) (commands : origin.Commands id) :
    id ∉ stage.effects world.deeds := by
  intro member
  rcases (keeps peaceful sound display presents).2 with still | ⟨newer, renews⟩
  · have owned := still.presents.owns_iff.mpr member
    rcases commands with named | bound | active
    · exact absurd (presents.alone id .names owned named) (by simp)
    · exact absurd (presents.alone id .bindings owned bound) (by simp)
    · exact presents.stands.idle id owned (Graph.mem_stack_of_active? active)
  · have known : id < origin.graph.effects.size := by
      rcases commands with named | bound | active
      · exact sound id .names named
      · exact sound id .bindings bound
      · exact presents.stands.reachable.lt_of_mem_stack (Graph.mem_stack_of_active? active)
    exact absurd (renews.recent id (renews.presents.owns_iff.mpr member)) (Nat.not_le_of_lt known)

end Stage

end LiveMarkup
