import LiveMarkup.Proofs.Displaying
import LiveMarkup.Proofs.Establishing
import LiveMarkup.Proofs.RoundTrip
import LiveMarkup.Proofs.Writes

/-
This file shows that a tree that was bound once looks, after whatever happened since, as a copy would
look that is parsed and bound anew.
-/

namespace LiveMarkup

open Live

namespace Markup

mutual

/-- Stores with the same values and names of methods show the same markup. -/
theorem shownIn_congr {first second : Store} (agrees : ∀ names, first.AgreesOn second names) :
    ∀ tree : Markup, tree.Everywhere CallFree → tree.shownIn second = tree.shownIn first
  | .text content, free => by
      unfold shownIn
      rw [Store.interpolate_stable free (agrees _)]
  | .comment content, _ => rfl
  | .element tag attributes children, free => by
      unfold shownIn
      cases source : textSource? attributes with
      | none =>
          dsimp only
          rw [shownAllIn_congr agrees children free.2]
      | some text =>
          have site := isCallFree_of_mem_spots 0 0 (.element tag attributes children) free
            ⟨0, 0, .content tag (keptAttributes tag attributes) text⟩ (by
              unfold spots
              rw [source]
              exact List.mem_singleton_self _)
          dsimp only
          rw [Store.evaluateText_stable site (agrees _)]

theorem shownAllIn_congr {first second : Store} (agrees : ∀ names, first.AgreesOn second names) :
    ∀ trees : List Markup, EverywhereAll CallFree trees →
      shownAllIn second trees = shownAllIn first trees
  | [], _ => rfl
  | tree :: rest, free => by
      unfold shownAllIn
      rw [shownIn_congr agrees tree free.1, shownAllIn_congr agrees rest free.2]

end

end Markup

namespace Display

/-- A display looks as if it were filled with the texts that its sites show. -/
theorem innerMarkup_of_shows {display : Display} {world : World} {shown : Site → String}
    (kids : display.kids = Markup.places display.start display.trees) (stands : display.Stands world)
    (shows : ∀ spot ∈ display.spots, world.forest.Shows display.limit shown spot) :
    world.forest.innerMarkup display.root =
      Markup.filledAll shown display.root display.start display.trees := by
  unfold Forest.innerMarkup
  rw [stands.children, kids]
  exact Forest.flatMap_of_shows display.root display.trees display.start _ (by omega) shows

/-- A display whose sites are up to date looks as the store says. -/
theorem innerMarkup_of_fresh {display : Display} {world : World} {store : Store}
    (kids : display.kids = Markup.places display.start display.trees) (stands : display.Stands world)
    (fresh : ∀ site, display.HasSite site → display.Fresh world site)
    (found : world.store? display.state = some store) :
    world.forest.innerMarkup display.root = Markup.shownAllIn store display.trees := by
  obtain ⟨shown, shows⟩ := stands.shows
  have seen : ∀ spot ∈ display.spots,
      world.forest.Shows display.limit (fun site => (site.seen store).2) spot := by
    intro spot member
    cases spot with
    | fixed id shape => exact shows _ member
    | bound site =>
        obtain ⟨other, known, here, -⟩ := (fresh site member).seen
        cases known.symm.trans found
        exact here
  rw [innerMarkup_of_shows kids stands seen, Markup.filledAll_seen]

variable {display : Display} {state : TargetId} {root : Nat} {trees : List Markup} {store : Store}
  {effects : List EffectId}

theorem Opens.alike {before after : World} (opens : display.Opens state root trees store effects before)
    (alike : before.Alike after) : display.Opens state root trees store effects after :=
  { opens with
    deeds := opens.deeds.trans alike.deeds.symm
    found := (alike.store? _).trans opens.found
    stands := alike.stands opens.stands
    fresh := fun site member => alike.fresh (opens.fresh site member) }

end Display

namespace World

/-- Since a binding, only its effects touched what is below a root. The state lives, has gained no
method and lost no subscription by hand, and no effect of the binding is disposed. -/
structure LeavesAlone (state : TargetId) (root : NodeId) (effects : List EffectId)
    (before after : World) : Prop where
  deeds : ∃ newer, after.deeds = newer ++ before.deeds ∧
    ∀ deed ∈ newer, deed.LeavesAlone state root (· ∈ effects)
  alive : after.isAlive state = true
  methods : ∀ first last name, before.store? state = some first → after.store? state = some last →
    last.methods.contains name = true → first.methods.contains name = true
  lasting : ∀ id ∈ effects, after.graph.isDisposed id = false

/-- Two states have the same values, and the same names of methods. -/
def Resemble (world : World) (first second : TargetId) : Prop :=
  ∃ store other, world.store? first = some store ∧ world.store? second = some other ∧
    other.values = store.values ∧
    ∀ name, other.methods.contains name = store.methods.contains name

/-- A scenario leads here, from the beginning. -/
def Played (world : World) : Prop := ∃ commands, (World.empty.play commands).2 = world

namespace Played

variable {world : World}

theorem later (played : world.Played) : World.empty.Later world := by
  obtain ⟨commands, rfl⟩ := played
  exact World.empty.later_play commands

theorem reachable (played : world.Played) : world.Reachable := played.later.reachable ⟨[], .here⟩

theorem sound (played : world.Played) : world.Sound := by
  refine played.later.sound fun id place refers => ?_
  cases place with
  | names =>
      obtain ⟨entry, member, -⟩ := refers
      cases member
  | bindings =>
      obtain ⟨entry, member, -⟩ := refers
      cases member
  | content host =>
      obtain ⟨found, looked, -⟩ := refers
      simp [host?, World.empty] at looked
  | renderer host =>
      obtain ⟨found, looked, -⟩ := refers
      simp [host?, World.empty] at looked

theorem settled (played : world.Played) : world.Settled := by
  obtain ⟨commands, rfl⟩ := played
  exact (idle_play commands rfl rfl settled_empty).2

theorem play (played : world.Played) (commands : List Command) : (world.play commands).2.Played := by
  obtain ⟨earlier, rfl⟩ := played
  refine ⟨earlier ++ commands, ?_⟩
  have append : ∀ (first : List Command) (start : World),
      (start.play (first ++ commands)).2 = ((start.play first).2.play commands).2 := by
    intro first
    induction first with
    | nil => exact fun _ => rfl
    | cons command rest inductionHypothesis =>
        intro start
        rw [List.cons_append, play_cons, play_cons]
        exact inductionHypothesis _
  exact append earlier _

theorem step (played : world.Played) (command : Command) : (world.step command).2.Played :=
  played.play [command]

end Played

/-! Single steps. -/

variable {world : World} {state : TargetId} {root : NodeId} {trees : List Markup} {source : String}

theorem start_of_performs {command : Command} {after : World} {value : Value}
    (performs : perform (runTo (world.graph.effects.size + (spareDepth - 1) + 1)) [] command world =
      .ok value after) :
    start command world = .ok value { after with holds := world.holds }.collect := by
  rw [start_apply]
  unfold ending
  rw [performs]

theorem nodeNamed_of_found {name : String} {node : NodeId}
    (found : world.names.nodes.get? name = some node) : nodeNamed name world = .ok node world := by
  unfold nodeNamed
  rw [get_bind, found]
  rfl

/-- A template that parses is planted, and a name finds it. -/
theorem step_parse (settled : world.Settled) (parsed : Markup.parse source = .ok trees) (name : String) :
    ∃ value notices, (world.step (.node (.parse name source))).1.outcome = .ok value ∧
      (world.step (.node (.parse name source))).2 =
        { world.forget with
          forest := (world.forest.plantFragment trees).2
          names := { world.names with nodes := world.names.nodes.put name world.forest.size }
          notices } := by
  obtain ⟨notices, made⟩ := parseTemplate_of_parse parsed world.forget
  let grown : World := { world.forget with
    forest := (world.forest.plantFragment trees).2
    names := { world.names with nodes := world.names.nodes.put name world.forest.size }
    notices }
  have still : grown.Settled := ⟨settled.hosts, settled.states⟩
  have performs : start (.node (.parse name source)) world.forget =
      .ok (.string (grown.describe world.forest.size)) { grown with holds := world.forget.holds }.collect :=
    start_of_performs (bind_of_ok made)
  refine ⟨.string (grown.describe world.forest.size), notices, ?_, ?_⟩
  · rw [step_eq, performs]
  · rw [step_eq, performs]
    exact collect_eq_self still

/-- A child that is found is given a name, and nodes stay as they are. -/
theorem step_child (settled : world.Settled) {parent : String} {position : Nat} {child : NodeId}
    (found : world.names.nodes.get? parent = some root)
    (listed : (world.forest.children root)[position]? = some child) (name : String) :
    (world.step (.node (.child name parent position))).2.names.nodes = world.names.nodes.put name child ∧
      (world.step (.node (.child name parent position))).2.forest = world.forest := by
  let named : World := { world.forget with
    names := { world.names with nodes := world.names.nodes.put name child } }
  have still : named.Settled := ⟨settled.hosts, settled.states⟩
  have asks : askForest parent (fun forest id => (forest.children id)[position]?) world.forget =
      .ok (some child) world.forget := by
    have finds : nodeNamed parent world.forget = .ok root world.forget := nodeNamed_of_found found
    exact (bind_of_ok finds).trans (congrArg (EStateM.Result.ok · world.forget) listed)
  have performs : start (.node (.child name parent position)) world.forget =
      .ok (.string (named.describe child)) { named with holds := world.forget.holds }.collect :=
    start_of_performs (bind_of_ok asks)
  rw [step_eq, performs]
  dsimp only
  rw [collect_eq_self (show ({ named with holds := world.forget.holds } : World).Settled from still)]
  exact ⟨rfl, rfl⟩

/-- A state that a name finds is held while bindings are made, and offered to them. -/
theorem offers_of_found (played : world.Played) {given : String}
    (known : world.stateFor? given = some state) :
    ∃ store held, world.store? state = some store ∧ stateNamed given world.forget = .ok state held ∧
      held.Offers state store (.state state) ∧ world.Undisturbed held ∧ held.forest = world.forest ∧
      held.graph = world.graph ∧ held.names = world.names := by
  obtain ⟨lives, alive⟩ := Option.filter_eq_some_iff.mp known
  obtain ⟨store, stored⟩ : ∃ store, world.store? state = some store := by
    cases stored : world.store? state with
    | none =>
        rw [isAlive, stored] at alive
        cases alive
    | some store => exact ⟨store, rfl⟩
  obtain ⟨held, holds, holding, guarded, sameForest, sameGraph, sameTargets, -⟩ :=
    gentle_hold state (.state state) world.forget
  have forgets : world.Undisturbed world.forget := .of_same rfl rfl rfl rfl
  refine ⟨store, held, stored, ?_, ⟨holding.later.reachable played.reachable,
    holding.later.sound played.sound, ?_, ?_, guarded, Or.inl rfl⟩,
    forgets.trans (undisturbed_hold _ holds), sameForest, sameGraph, holding.names⟩
  · have found : (world.forget.names.states.get? given).filter world.forget.isAlive = some state := known
    unfold stateNamed
    rw [get_bind, found]
    exact bind_of_ok holds
  · unfold store? at stored ⊢
    rwa [sameTargets]
  · unfold isAlive store? at alive ⊢
    rwa [sameTargets]

/-- A binding that returns is given a name, and the step lets go of what it held. -/
theorem step_of_bind {node given : String} {held bound : World} {bindings : Bindings}
    (found : world.names.nodes.get? node = some root)
    (finds : stateNamed given world.forget = .ok state held)
    (binds : Live.bind (runTo (world.graph.effects.size + (spareDepth - 1) + 1)) root state held =
      .ok bindings bound) (name : String) :
    ∃ value, (world.step (.host (.bind name node given))).1.outcome = .ok value ∧
      (world.step (.host (.bind name node given))).2 =
        { bound with
          names := { bound.names with bindings := bound.names.bindings.put name bindings }
          holds := world.holds }.collect := by
  let labelled : World := { bound with
    names := { bound.names with bindings := bound.names.bindings.put name bindings } }
  have looked : nodeNamed node world.forget = .ok root world.forget := nodeNamed_of_found found
  have performs : start (.host (.bind name node given)) world.forget =
      .ok (labelled.bindingsValue bindings) { labelled with holds := world.holds }.collect :=
    start_of_performs ((bind_of_ok looked).trans ((bind_of_ok finds).trans (bind_of_ok binds)))
  rw [step_eq, performs]
  exact ⟨_, rfl, rfl⟩

/-- Binding a planted tree opens a display. -/
theorem step_bind (played : world.Played) {node given : String}
    (legal : Markup.EverywhereAll Markup.Legal trees) (free : Markup.EverywhereAll Markup.CallFree trees)
    (found : world.names.nodes.get? node = some root) (planted : world.forest.Planted root trees)
    (known : world.stateFor? given = some state) (name : String) :
    ∃ value store bindings opened, world.store? state = some store ∧
      (∃ display : Display, display.Opens state root trees store bindings.effects opened) ∧
      bindings.Match trees opened ∧
      (∀ id, world.graph.effects.size ≤ id → id < opened.graph.effects.size → id ∈ bindings.effects) ∧
      opened.names = { world.names with bindings := world.names.bindings.put name bindings } ∧
      (world.step (.host (.bind name node given))).1.outcome = .ok value ∧
      (world.step (.host (.bind name node given))).2 = opened.collect := by
  obtain ⟨store, held, stored, finds, offers, -, sameForest, sameGraph, sameNames⟩ :=
    offers_of_found played known
  obtain ⟨bindings, bound, binds, gentle, ⟨display, opens, -⟩, -, -, matching, knows⟩ := Display.opens_bind
    (world.graph.effects.size + (spareDepth - 1)) legal free offers (sameForest.symm ▸ planted)
  obtain ⟨value, returns, after⟩ := step_of_bind found finds binds name
  let opened : World := { bound with
    names := { bound.names with bindings := bound.names.bindings.put name bindings }
    holds := world.holds }
  refine ⟨value, store, bindings, opened, stored, ⟨display, opens.alike ⟨rfl, rfl, rfl, rfl⟩⟩,
    ⟨matching.labels, matching.listeners⟩, ?_, ?_, returns, after⟩
  · intro id least most
    refine knows id ?_ most
    rw [sameGraph]
    exact least
  · show ({ bound.names with bindings := bound.names.bindings.put name bindings } : Names) = _
    rw [gentle.names, sameNames]

/-- The HTML below a node is asked for. -/
theorem step_innerHtml {node : String}
    (found : world.names.nodes.get? node = some root) :
    (world.step (.node (.innerHtml node))).1.outcome = .ok (.string (world.forest.innerHtml root)) := by
  have asks : askForest node Forest.innerHtml world.forget =
      .ok (world.forest.innerHtml root) world.forget := by
    have finds : nodeNamed node world.forget = .ok root world.forget := nodeNamed_of_found found
    exact (bind_of_ok finds).trans rfl
  have performs : start (.node (.innerHtml node)) world.forget =
      .ok (.string (world.forest.innerHtml root)) { world.forget with holds := world.forget.holds }.collect :=
    start_of_performs (bind_of_ok asks)
  rw [step_eq, performs]

/-- A template that is parsed anew and bound to a state shows this HTML. -/
def Renders (world : World) (source given html : String) : Prop :=
  ∀ node name, ∃ parsed bound,
    (world.play [.node (.parse node source), .host (.bind name node given),
      .node (.innerHtml node)]).1.map Step.outcome = [.ok parsed, .ok bound, .ok (.string html)]

/-- What is rendered anew is the template with the values of the state. -/
theorem renders (played : world.Played) (parsed : Markup.parse source = .ok trees)
    (free : Markup.EverywhereAll Markup.CallFree trees) {given : String}
    (known : world.stateFor? given = some state) {store : Store} (found : world.store? state = some store) :
    world.Renders source given (String.ofList (Markup.printAll (Markup.shownAllIn store trees))) := by
  intro node name
  obtain ⟨described, notices, parses, after⟩ := step_parse played.settled parsed node
  let copied := (world.step (.node (.parse node source))).2
  have planted : copied.forest.Planted world.forest.size trees := by
    show ((world.step _).2).forest.Planted _ _
    rw [after]
    exact Forest.planted_plantFragment world.forest trees
  have finds : copied.names.nodes.get? node = some world.forest.size := by
    show ((world.step _).2).names.nodes.get? _ = _
    rw [after]
    exact Assoc.get?_put _ _ _
  have stores : ∀ id, copied.store? id = world.store? id := by
    intro id
    show ((world.step _).2).store? id = _
    rw [after]
    rfl
  have given' : copied.stateFor? given = some state := by
    show ((world.step _).2).stateFor? given = _
    rw [after]
    exact known
  obtain ⟨value, copy, bindings, opened, stored, ⟨display, opens⟩, -, -, names, binds, bound⟩ :=
    step_bind (played.step _) (Markup.normal_parse parsed).legal free finds planted given' name
  cases ((stores state).symm.trans stored).symm.trans found
  have sweeps := sweeps_collect opened
  have shows : opened.collect.forest.innerMarkup world.forest.size = Markup.shownAllIn store trees := by
    rw [sweeps.forest, ← opens.root, ← opens.trees]
    exact Display.innerMarkup_of_fresh opens.kids opens.stands opens.fresh opens.found
  have lists : opened.collect.names.nodes.get? node = some world.forest.size := by
    rw [sweeps.names, names]
    exact finds
  have asks := step_innerHtml lists
  refine ⟨described, value, ?_⟩
  rw [play_cons, play_cons, play_cons]
  show [_, _, _] = _
  rw [parses, binds, bound, asks]
  unfold Forest.innerHtml
  rw [shows]

end World

namespace Display

variable {display : Display} {state : TargetId} {root : Nat} {trees : List Markup} {store : Store}
  {effects : List EffectId} {opened final : World}

/-- A display that was left alone shows the markup with the values of today. -/
theorem Opens.innerMarkup_eq (opens : display.Opens state root trees store effects opened)
    (calm : (Conduct.displaying display).calm opened.collect final)
    (alone : opened.collect.LeavesAlone state root effects final) :
    ∃ last, final.store? state = some last ∧
      final.forest.innerMarkup root = Markup.shownAllIn last trees := by
  obtain ⟨rfl, rfl, rfl⟩ : display.state = state ∧ display.root = root ∧ display.trees = trees :=
    ⟨opens.state, opens.root, opens.trees⟩
  have sweeps := World.sweeps_collect opened
  have collected := store_later (World.later_collect opened) opens.stands.store
  have kept : opened.collect.store? display.state = some store := by
    rw [sweeps.stores _ (alive_of_later calm.1 collected alone.alive)]
    exact opens.found
  have untouched : display.Untouched final := by
    refine ⟨?_, alone.alive, ?_, fun id owned => alone.lasting id ((opens.owns id).mp owned)⟩
    · obtain ⟨newer, since, allowed⟩ := alone.deeds
      refine ⟨newer, ?_, fun deed member => ?_⟩
      · rw [since, sweeps.deeds, opens.deeds]
      · have same : display.Owns = (· ∈ effects) := funext fun id => propext (opens.owns id)
        unfold Allows
        rw [same]
        exact allowed deed member
    · intro last name found listed
      rw [opens.methods]
      exact alone.methods store last name kept found listed
  obtain ⟨standing, fresh⟩ := ((Conduct.displaying display).trans
    (Displaying.calm_collect opens.formed opened) calm).2 untouched opens.stands
  obtain ⟨last, found⟩ := Option.isSome_iff_exists.mp standing.store
  exact ⟨last, found, innerMarkup_of_fresh opens.kids standing
    (fun site member => fresh site member (opens.fresh site member)) found⟩

end Display

/-- A template without calls is planted and bound to a state, and everything may happen afterwards: if
nobody else touches what was bound, and no step breaks off, then it looks as a copy of the template
that is bound anew to a state with the values of today. -/
theorem bound_markup_renders {start : World} {source node given : String} {root : NodeId}
    {state : TargetId} {trees : List Markup} (played : start.Played)
    (parsed : Markup.parse source = .ok trees) (free : Markup.EverywhereAll Markup.CallFree trees)
    (known : start.names.nodes.get? node = some root) (planted : start.forest.Planted root trees)
    (knownState : start.stateFor? given = some state) (name : String) :
    ∃ value bindings, (start.step (.host (.bind name node given))).1.outcome = .ok value ∧
      (start.step (.host (.bind name node given))).2.names.bindings.get? name = some bindings ∧
      ∀ commands : List Command,
        let bound := (start.step (.host (.bind name node given))).2
        let final := (bound.play commands).2
        (∀ step ∈ (bound.play commands).1, step.isCalm = true) →
        bound.LeavesAlone state root bindings.effects final →
        ∀ other twin, final.stateFor? other = some twin → final.Resemble state twin →
          final.Renders source other (final.forest.innerHtml root) := by
  obtain ⟨value, store, bindings, opened, stored, ⟨display, opens⟩, -, -, names, binds, after⟩ :=
    World.step_bind played (Markup.normal_parse parsed).legal free known planted knownState name
  refine ⟨value, bindings, binds, ?_, ?_⟩
  · rw [after, (World.sweeps_collect _).names, names]
    exact Assoc.get?_put _ _ _
  · intro commands
    have grown := (played.step (.host (.bind name node given))).play commands
    dsimp only
    rw [after] at grown ⊢
    intro calm alone other twin knownTwin resemble
    obtain ⟨last, found, shows⟩ := opens.innerMarkup_eq (World.play_follows (lawful_displaying opens.formed)
      (fun world => Displaying.calm_of_same opens.formed
        (.of_same rfl rfl rfl rfl (Nat.le_refl _) (List.suffix_refl _)) rfl rfl) _ commands calm) alone
    obtain ⟨mine, theirs, foundMine, foundTheirs, values, methods⟩ := resemble
    cases found.symm.trans foundMine
    have same : Markup.shownAllIn theirs trees = Markup.shownAllIn last trees :=
      Markup.shownAllIn_congr (fun _ => ⟨fun name => (methods name).symm, fun _ _ => by rw [values]⟩)
        trees free
    unfold Forest.innerHtml
    rw [shows, ← same]
    exact World.renders grown parsed free knownTwin foundTheirs

/-- A state is made, and a template is planted that shows a sum and a label. -/
def plantedSum : World :=
  (World.empty.play [.state (.createEmpty "s"),
    .node (.parse "tree" "<p>{{ sum }}<b v-text=\"label\"></b></p>")]).2

/-- An effect writes a sum, and a label if all is done, and then it runs again. -/
def sumWrites : List Command :=
  [.createEffect "adder"
      [.branch "s" "done" [.state (.set "s" "label" (.integer 7))] [],
        .state (.set "s" "sum" (.integer 2))] {},
    .state (.set "s" "done" (.bool true))]

theorem renders_of_nestedWrites :
    let bound := (plantedSum.step (.host (.bind "b" "tree" "s"))).2
    (bound.play sumWrites).2.forest.innerHtml 0 = "<p>2<b>7</b></p>" ∧
      (bound.play sumWrites).2.Renders "<p>{{ sum }}<b v-text=\"label\"></b></p>" "s"
        "<p>2<b>7</b></p>" := by
  have played : (World.empty.play [.state (.createEmpty "s")]).2.Played := ⟨_, rfl⟩
  have parsed : Markup.parse "<p>{{ sum }}<b v-text=\"label\"></b></p>" =
      .ok [.element "p" [] [.text "{{ sum }}", .element "b" [("v-text", "label")] []]] := by
    have scanned : Token.scan "<p>{{ sum }}<b v-text=\"label\"></b></p>".toList =
        [.opening ['p'] [] false, .text "{{ sum }}".toList,
          .opening ['b'] [("v-text".toList, some "label".toList)] false,
          .closing ['b'], .closing ['p']] := by
      decide +kernel
    rw [Markup.parse, Markup.read, scanned]
    rfl
  have planted : plantedSum.forest.Planted 0
      [.element "p" [] [.text "{{ sum }}", .element "b" [("v-text", "label")] []]] := by
    obtain ⟨_, _, _, after⟩ := World.step_parse played.settled parsed "tree"
    have grown := Forest.planted_plantFragment (World.empty.play [.state (.createEmpty "s")]).2.forest
      [.element "p" [] [.text "{{ sum }}", .element "b" [("v-text", "label")] []]]
    rwa [show plantedSum.forest = _ from congrArg World.forest after]
  have interpolated : Interpolation.isCallFree "{{ sum }}" = true := by decide +kernel
  have shown : ∀ entry ∈ [("v-text", "label")], Markup.isCallFreeAttribute entry = true := by
    decide +kernel
  have tree : plantedSum.names.nodes.get? "tree" = some 0 := by decide +kernel
  have state : plantedSum.stateFor? "s" = some 0 := by decide +kernel
  have started : plantedSum.Played := ⟨_, rfl⟩
  obtain ⟨-, bindings, -, found, renders⟩ := bound_markup_renders started parsed
    ⟨⟨by simp [Markup.CallFree], interpolated, ⟨shown, trivial⟩, trivial⟩, trivial⟩ tree planted state "b"
  have effects : bindings.effects = [0, 1] := by
    have counted : ((plantedSum.step (.host (.bind "b" "tree" "s"))).2.names.bindings.get? "b").map
        Bindings.effects = some [0, 1] := by decide +kernel
    rw [found] at counted
    exact Option.some.inj counted
  have html : ((plantedSum.step (.host (.bind "b" "tree" "s"))).2.play sumWrites).2.forest.innerHtml 0 =
      "<p>2<b>7</b></p>" := by decide +kernel
  refine ⟨html, html ▸ renders sumWrites (by decide +kernel) ?_ "s" 0 (by decide +kernel) ?_⟩
  · refine ⟨⟨[.shown (some 0) [2, 1, 0], .shown (some 1) [3, 1, 0], .shown (some 0) [2, 1, 0]],
      by decide +kernel, ?_⟩, by decide +kernel, ?_, ?_⟩
    · rw [effects]
      simp [Deed.LeavesAlone]
    · intro first last name _ known listed
      have none : (((plantedSum.step (.host (.bind "b" "tree" "s"))).2.play sumWrites).2.store? 0).map
          (fun store => store.methods.length) = some 0 := by decide +kernel
      rw [known] at none
      rw [List.eq_nil_of_length_eq_zero (Option.some.inj none)] at listed
      cases listed
    · rw [effects]
      decide +kernel
  · obtain ⟨store, known⟩ := Option.isSome_iff_exists.mp (show
      (((plantedSum.step (.host (.bind "b" "tree" "s"))).2.play sumWrites).2.store? 0).isSome = true by
        decide +kernel)
    exact ⟨store, store, known, known, rfl, fun _ => rfl⟩

end LiveMarkup
