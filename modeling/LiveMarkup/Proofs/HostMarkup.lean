import LiveMarkup.Proofs.Incremental
import LiveMarkup.Proofs.Rendering

/-
This file shows that the markup in the container of a host depends on the last template that parsed and on
the values of the state only, whatever else happened.
-/

namespace LiveMarkup

open Live

namespace Markup

/-- A template shows this HTML with the values of a store. -/
def htmlIn (store : Store) (template : String) : String :=
  match parse template with
  | .ok trees => String.ofList (printAll (shownAllIn store trees))
  | .error _ => ""

theorem htmlIn_of_parse {store : Store} {template : String} {trees : List Markup}
    (parsed : parse template = .ok trees) :
    htmlIn store template = String.ofList (printAll (shownAllIn store trees)) := by
  unfold htmlIn
  rw [parsed]

end Markup

/-- A host was destroyed. -/
def Deed.destroys (host : HostId) : Deed → Bool
  | .destroyed other _ => other = host
  | _ => false

namespace World

/-- A host stands before its container and shows nothing yet, or nothing any more. -/
structure Vacant (host : HostId) (record : Host) (store : Store) (world : World) : Prop where
  found : world.host? host = some record
  unmounted : record.mounted = false
  stored : world.store? record.state = some store
  alive : store.alive = true
  empty : Deed.content? host world.deeds = none
  known : record.container < world.forest.size
  near : ∀ child ∈ world.forest.children record.container, child < world.forest.size

/-- The host enters its stage. -/
def stage (world : World) (host : HostId) (record : Host) (store : Store) : Stage :=
  { host, state := record.state, container := record.container, deeds := world.deeds
    methods := store.methods.contains }

theorem Vacant.presents {world : World} {host : HostId} {record : Host} {store : Store}
    (vacant : world.Vacant host record store) (reachable : world.Reachable) :
    (world.stage host record store).Presents ((world.stage host record store).vacant world) world := by
  have alive : world.isAlive record.state = true := by
    rw [isAlive, vacant.stored]
    exact vacant.alive
  have stored : (world.store? record.state).isSome = true := by
    rw [vacant.stored]
    rfl
  refine Stage.presents_vacant vacant.empty reachable (List.suffix_refl _) stored ?_
    ⟨record, vacant.found, rfl, rfl⟩ alive vacant.known vacant.near
  intro other name looked listed
  cases vacant.stored.symm.trans looked
  exact listed

end World

namespace Live

theorem unfailing_destroyHost (depth : Nat) (id : HostId) : Unfailing (destroyHost (runTo depth) id) := by
  refine (Unfailing.emitHost id .destroy).bind fun _ => (Unfailing.dropBindings id).bind fun _ =>
    Unfailing.asks fun world => ?_
  split
  · exact .pure _
  · have removes : ∀ record, Unfailing (removeContent id record) := fun record =>
      Unfailing.asks fun _ => (Unfailing.modifies _).bind fun _ => (Unfailing.modifies _).bind fun _ =>
        Unfailing.modifies _
    exact (removes _).bind fun _ => .note _

/-- A host that has just been destroyed is not mounted. -/
theorem not_mounted_of_destroyHost {depth : Nat} {id : HostId} {world after : World}
    (returned : destroyHost (runTo depth) id world = .ok () after) : ¬ after.Mounted id := by
  obtain ⟨_, emitted, _, returned⟩ := bind_eq_ok.mp returned
  obtain ⟨_, dropped, _, returned⟩ := bind_eq_ok.mp returned
  rw [get_bind] at returned
  rintro ⟨record, reached, -, mounted⟩
  cases found : dropped.host? id with
  | none =>
      rw [found] at returned
      cases returned
      cases found.symm.trans reached
  | some old =>
      rw [found] at returned
      obtain ⟨_, removed, removes, notes⟩ := bind_eq_ok.mp returned
      cases removes
      cases notes
      have changed := World.host?_modifyHost _ id id _ ▸ reached
      rw [if_pos rfl] at changed
      obtain ⟨older, -, rfl⟩ := Option.map_eq_some_iff.mp changed
      cases mounted

theorem hostNamed_of_found {name : String} {id : HostId} {world : World}
    (found : world.names.hosts.get? name = some id) : ∃ held, hostNamed name world = .ok id held := by
  unfold hostNamed
  rw [get_bind, found]
  exact ⟨_, rfl⟩

end Live

namespace World

open Live in
/-- After a step that destroys a host, the host is not mounted, whatever its hooks did. -/
theorem not_mounted_of_destroy {world : World} {name : String} {host : HostId}
    (found : world.names.hosts.get? name = some host)
    (calm : (world.step (.host (.destroy name))).1.isCalm = true) :
    ¬ (world.step (.host (.destroy name))).2.Mounted host := by
  obtain ⟨held, holds⟩ : ∃ held, hostNamed name world.forget = .ok host held := hostNamed_of_found found
  have performs : ∀ run, perform run [] (.host (.destroy name)) world.forget =
      (destroyHost run host >>= fun _ => (pure .null : Live Value)) held :=
    fun _ => bind_of_ok holds
  rw [step_eq, start_apply] at calm ⊢
  unfold ending at calm ⊢
  rw [performs] at calm ⊢
  cases outcome : destroyHost
      (runTo (world.forget.graph.effects.size + (spareDepth - 1) + 1)) host held with
  | ok value after =>
      rw [bind_of_ok outcome]
      exact fun mounted => not_mounted_of_destroyHost outcome
        ((Steady.collect { after with holds := world.forget.holds }).mounted mounted)
  | error stop after =>
      rw [bind_of_error outcome] at calm
      cases stop with
      | failed error => exact absurd outcome (unfailing_destroyHost _ host held error after)
      | panicked payload => cases calm
      | exhausted => cases calm

/-- Each destruction of a host is a step of its own. -/
def DestroysOnlyByStep (host : HostId) : World → List Command → Prop
  | _, [] => True
  | world, command :: rest =>
      ((∃ name, command = .host (.destroy name) ∧ world.names.hosts.get? name = some host) ∨
          (world.step command).2.deeds.countP (Deed.destroys host) =
            world.deeds.countP (Deed.destroys host)) ∧
        DestroysOnlyByStep host (world.step command).2 rest

theorem staging_forgets (stage : Stage) (world : World) :
    (Conduct.staging stage).calm world world.forget :=
  Staging.calm_of_same (.of_same rfl rfl rfl rfl (Nat.le_refl _) (List.suffix_refl _)) rfl rfl rfl rfl rfl

/-- If a host has content whenever it is mounted, then this stays so while it is only destroyed by steps of
their own. -/
theorem content_of_mounted {stage : Stage} {commands : List Command} :
    ∀ {world : World} {display : Display}, (∀ step ∈ (world.play commands).1, step.isCalm = true) →
      world.Sound → stage.Presents display world → stage.Peaceful (world.play commands).2 →
      world.DestroysOnlyByStep stage.host commands →
      (world.Mounted stage.host → (Deed.content? stage.host world.deeds).isSome = true) →
      (world.play commands).2.Mounted stage.host →
      (Deed.content? stage.host (world.play commands).2.deeds).isSome = true := by
  induction commands with
  | nil => exact fun _ _ _ _ _ holds => holds
  | cons command rest inductionHypothesis =>
      intro world display calm sound presents peaceful destroys holds
      rw [play_cons] at calm peaceful ⊢
      have calmStep := calm _ List.mem_cons_self
      have calmRest : ∀ step ∈ ((world.step command).2.play rest).1, step.isCalm = true :=
        fun step member => calm step (List.mem_cons_of_mem _ member)
      obtain ⟨later, keeps⟩ :=
        (step_follows (lawful_staging stage) (staging_forgets stage) world command).2 calmStep
      obtain ⟨last, -⟩ :=
        play_follows (lawful_staging stage) (staging_forgets stage) (world.step command).2 rest calmRest
      obtain ⟨mounts, outcome⟩ :=
        keeps (presents.peaceful later last peaceful) sound display presents
      obtain ⟨next, standing⟩ : ∃ next, stage.Presents next (world.step command).2 := by
        rcases outcome with continues | ⟨newer, renews⟩
        · exact ⟨display, continues.presents⟩
        · exact ⟨newer, renews.presents⟩
      refine inductionHypothesis calmRest (later.sound sound) standing peaceful destroys.2 fun mounted => ?_
      rcases destroys.1 with ⟨name, rfl, found⟩ | counts
      · exact absurd mounted (not_mounted_of_destroy found calmStep)
      · obtain ⟨newer, since⟩ := later.deeds
        have spared : ∀ holders, .destroyed stage.host holders ∉ newer := by
          intro holders member
          rw [← since, List.countP_append, Nat.add_eq_right] at counts
          exact List.countP_eq_zero.mp counts _ member (decide_eq_true rfl)
        rcases mounts newer since.symm spared mounted with before | content
        · rw [← since, Deed.content?_append spared]
          have content := holds before
          cases Deed.content? stage.host newer with
          | none => exact content
          | some effects => rfl
        · exact content

/-- No command breaks off, the host is left to itself, and at the end it shows something: it has rendered
since it was last destroyed, or it is mounted, and was only destroyed by steps of their own. -/
structure Performance (host : HostId) (record : Host) (store : Store) (start : World)
    (commands : List Command) : Prop where
  calm : ∀ step ∈ (start.play commands).1, step.isCalm = true
  peaceful : (start.stage host record store).Peaceful (start.play commands).2
  shows : (Deed.content? host (start.play commands).2.deeds).isSome = true ∨
    start.DestroysOnlyByStep host commands ∧ (start.play commands).2.Mounted host

variable {start : World} {host : HostId} {record : Host} {store : Store} {commands : List Command}

namespace Performance

theorem content (performance : start.Performance host record store commands) (played : start.Played)
    (vacant : start.Vacant host record store) :
    ∃ effects, Deed.content? host (start.play commands).2.deeds = some effects := by
  refine Option.isSome_iff_exists.mp ?_
  rcases performance.shows with content | ⟨destroys, mounted⟩
  · exact content
  · refine content_of_mounted performance.calm played.sound (vacant.presents played.reachable)
      performance.peaceful destroys ?_ mounted
    rintro ⟨old, found, -, mounts⟩
    cases found.symm.trans vacant.found
    exact absurd (mounts.symm.trans vacant.unmounted) (by simp)

/-- At the end of a performance, the container shows the last template that parsed, with the values of the
state, which has the methods that it had before. -/
theorem innerMarkup_eq (performance : start.Performance host record store commands)
    (played : start.Played) (vacant : start.Vacant host record store) :
    ∃ template trees last, Deed.template? host (start.play commands).2.deeds = some template ∧
      Markup.parse template = .ok trees ∧ Markup.EverywhereAll Markup.CallFree trees ∧
      (start.play commands).2.store? record.state = some last ∧
      (∀ name, last.methods.contains name = store.methods.contains name) ∧
      (start.play commands).2.forest.innerMarkup record.container = Markup.shownAllIn last trees := by
  obtain ⟨effects, content⟩ := performance.content played vacant
  have opening := vacant.presents played.reachable
  obtain ⟨later, keeps⟩ := play_follows (lawful_staging (start.stage host record store))
    (staging_forgets _) start commands performance.calm
  obtain ⟨display, presents, fresh⟩ : ∃ display,
      (start.stage host record store).Presents display (start.play commands).2 ∧
        ∀ site, display.HasSite site → display.Fresh (start.play commands).2 site := by
    rcases (keeps performance.peaceful played.sound _ opening).2 with continues | ⟨newer, renews⟩
    · exact ⟨_, continues.presents, fun site member => absurd member List.not_mem_nil⟩
    · exact ⟨newer, renews.presents, renews.fresh⟩
  obtain ⟨template, last, parsed, free, kids⟩ :=
    presents.content effects (presents.same.1.symm.trans content)
  obtain ⟨newer, reached, -, kept⟩ := later.stores record.state store vacant.stored
  refine ⟨template, display.trees, newer, presents.same.2.trans last, parsed, free, reached, ?_, ?_⟩
  · intro name
    exact Bool.eq_iff_iff.mpr ⟨performance.peaceful.methods newer name reached, kept name⟩
  · have known : (start.play commands).2.store? display.state = some newer := by
      rw [presents.state]
      exact reached
    have shows := Display.innerMarkup_of_fresh kids presents.stands fresh known
    rwa [presents.root] at shows

end Performance

end World

/-- At the end of a performance, the container shows the last template that parsed, as a copy of it would
look that is bound anew to a state with the values of today. So performances that end with the same
template and the same values show the same HTML, such as when the host is asked to render once more. -/
theorem host_markup_renders {start : World} {host : HostId} {record : Host} {store : Store}
    {commands : List Command} (played : start.Played) (vacant : start.Vacant host record store)
    (performance : start.Performance host record store commands) :
    let final := (start.play commands).2
    ∃ template last, Deed.template? host final.deeds = some template ∧
      final.store? record.state = some last ∧
      final.forest.innerHtml record.container = Markup.htmlIn last template ∧
      (∀ other twin, final.stateFor? other = some twin → final.Resemble record.state twin →
        final.Renders template other (final.forest.innerHtml record.container)) ∧
      ∀ others, start.Performance host record store others →
        let again := (start.play others).2
        Deed.template? host again.deeds = some template →
        (∀ newer, again.store? record.state = some newer →
          ∀ key, newer.values.get? key = last.values.get? key) →
        again.forest.innerHtml record.container = final.forest.innerHtml record.container := by
  obtain ⟨template, trees, last, latest, parsed, free, found, methods, shows⟩ :=
    performance.innerMarkup_eq played vacant
  refine ⟨template, last, latest, found, ?_, ?_, ?_⟩
  · rw [Markup.htmlIn_of_parse parsed]
    unfold Forest.innerHtml
    rw [shows]
  · rintro other twin named ⟨mine, theirs, foundMine, foundTheirs, values, names⟩
    cases found.symm.trans foundMine
    have same : Markup.shownAllIn theirs trees = Markup.shownAllIn last trees :=
      Markup.shownAllIn_congr (fun _ => ⟨fun name => (names name).symm, fun _ _ => by rw [values]⟩)
        trees free
    unfold Forest.innerHtml
    rw [shows, ← same]
    exact World.renders (played.play commands) parsed free named foundTheirs
  · intro others another again same values
    obtain ⟨source, copies, newer, newest, parses, -, reached, listed, showsAgain⟩ :=
      another.innerMarkup_eq played vacant
    cases newest.symm.trans same
    cases parsed.symm.trans parses
    unfold Forest.innerHtml
    rw [shows, showsAgain, Markup.shownAllIn_congr (fun _ =>
      ⟨fun name => (methods name).trans (listed name).symm, fun key _ => (values newer reached key).symm⟩)
      trees free]

/-- A host stands before its container. Its mount hook writes its state. -/
def counterHost : World :=
  (World.empty.play [.node (.parse "doc" "<div id=\"app\"></div>"),
    .createHost "doc"
      { name := "h", selector := "#app", initial := .object [("n", .integer 0)]
        template := "<p>{{ n }}</p>", methods := []
        hooks := [(.mount, [.state (.set "h" "n" (.integer 1))])], rendered := none }]).2

/-- The host is mounted, and its template is replaced by one that does not parse before the next write. -/
def counterSteps : List Command :=
  [.host (.mount "h"), .host (.setTemplate "h" "</p>"), .state (.increase "h" "n" 1)]

/-- The write that no template follows is shown by the bindings of the last render. -/
theorem counterHost_renders :
    ∃ template last, Deed.template? 0 (counterHost.play counterSteps).2.deeds = some template ∧
      (counterHost.play counterSteps).2.store? 0 = some last ∧
      (counterHost.play counterSteps).2.forest.innerHtml 1 = Markup.htmlIn last template ∧
      Markup.htmlIn last template = "<p>2</p>" := by
  have played : counterHost.Played := ⟨_, rfl⟩
  obtain ⟨record, found, state, container, mounted⟩ : ∃ record, counterHost.host? 0 = some record ∧
      record.state = 0 ∧ record.container = 1 ∧ record.mounted = false := by
    obtain ⟨record, found⟩ := Option.isSome_iff_exists.mp
      (show (counterHost.host? 0).isSome = true by decide +kernel)
    have fields : (counterHost.host? 0).map (fun host => (host.state, host.container, host.mounted)) =
        some (0, 1, false) := by decide +kernel
    rw [found] at fields
    obtain ⟨state, others⟩ := Prod.mk.inj (Option.some.inj fields)
    obtain ⟨container, mounted⟩ := Prod.mk.inj others
    exact ⟨record, found, state, container, mounted⟩
  obtain ⟨store, stored, alive, methods⟩ : ∃ store, counterHost.store? 0 = some store ∧
      store.alive = true ∧ store.methods.length = 0 := by
    obtain ⟨store, stored⟩ := Option.isSome_iff_exists.mp
      (show (counterHost.store? 0).isSome = true by decide +kernel)
    have fields : (counterHost.store? 0).map (fun store => (store.alive, store.methods.length)) =
        some (true, 0) := by decide +kernel
    rw [stored] at fields
    obtain ⟨alive, methods⟩ := Prod.mk.inj (Option.some.inj fields)
    exact ⟨store, stored, alive, methods⟩
  have vacant : counterHost.Vacant 0 record store := by
    refine ⟨found, mounted, state ▸ stored, alive, by decide +kernel, ?_, ?_⟩
    · rw [container]
      decide +kernel
    · rw [container]
      decide +kernel
  have deeds : (counterHost.play counterSteps).2.deeds =
      [.shown (some 2) [7, 6, 1, 0], .rendered 0 [2] [1, 0, 1, 0, 1, 0, 5], .shown (some 2) [7, 6, 5],
        .parsed 0 "<p>{{ n }}</p>", .rendered 0 [1] [1, 0, 1, 0, 2], .shown (some 1) [4, 3, 2],
        .parsed 0 "<p>{{ n }}</p>"] := by decide +kernel
  have started : counterHost.deeds = [] := by decide +kernel
  have parsed : Markup.parse "<p>{{ n }}</p>" = .ok [.element "p" [] [.text "{{ n }}"]] := by
    have scanned : Token.scan "<p>{{ n }}</p>".toList =
        [.opening ['p'] [] false, .text "{{ n }}".toList, .closing ['p']] := by decide +kernel
    rw [Markup.parse, Markup.read, scanned]
    rfl
  have peaceful : (counterHost.stage 0 record store).Peaceful (counterHost.play counterSteps).2 := by
    refine ⟨?_, ?_, ?_, ?_⟩
    · have lives : ((counterHost.play counterSteps).2.host? 0).map Host.alive = some true := by
        decide +kernel
      exact Option.map_eq_some_iff.mp lives
    · intro last name reached listed
      have none : ((counterHost.play counterSteps).2.store? 0).map (fun store => store.methods.length) =
          some 0 := by decide +kernel
      rw [show (counterHost.stage 0 record store).state = 0 from state] at reached
      rw [reached] at none
      rw [List.eq_nil_of_length_eq_zero (Option.some.inj none)] at listed
      cases listed
    · refine ⟨_, deeds.trans (by rw [World.stage, started, List.append_nil]), ?_⟩
      simp [Stage.Quiet, Stage.Respects, Deed.concerns, Deed.LeavesAlone, World.stage, Stage.effects,
        Deed.content?, container]
    · intro template trees member parses
      rw [deeds] at member
      have same : template = "<p>{{ n }}</p>" := by simpa [World.stage] using member
      rw [same, parsed] at parses
      cases parses
      have interpolated : Interpolation.isCallFree "{{ n }}" = true := by decide +kernel
      exact ⟨⟨by simp [Markup.CallFree], interpolated, trivial⟩, trivial⟩
  have performance : counterHost.Performance 0 record store counterSteps :=
    ⟨by decide +kernel, peaceful, Or.inl (by decide +kernel)⟩
  obtain ⟨template, last, latest, reached, shows, -⟩ := host_markup_renders played vacant performance
  rw [state] at reached
  rw [container] at shows
  have html : (counterHost.play counterSteps).2.forest.innerHtml 1 = "<p>2</p>" := by decide +kernel
  exact ⟨template, last, latest, reached, shows, shows.symm.trans html⟩

end LiveMarkup
