import LiveMarkup.Proofs.Incremental
import LiveMarkup.Proofs.Privacy
import LiveMarkup.Proofs.Skeleton

/-
This file shows that the values of a state never become markup: whatever two states hold, trees that were
bound to them have the same elements, attributes and comments.
-/

namespace LiveMarkup

open Live

namespace World

/-- A template is planted in a world, and there is a state for it. -/
structure Prepared (world : World) (node given : String) (root : NodeId) (trees : List Markup) :
    Prop where
  played : world.Played
  named : world.names.nodes.get? node = some root
  planted : world.forest.Planted root trees
  state : ∃ state, world.stateFor? given = some state

/-- A command has bound a tree. -/
structure BindsTo (world : World) (name node given : String) (bindings : Bindings) (bound : World) :
    Prop where
  returns : ∃ value, (world.step (.host (.bind name node given))).1.outcome = .ok value
  after : (world.step (.host (.bind name node given))).2 = bound
  found : bound.names.bindings.get? name = some bindings

/-- Since a binding, nobody but its effects touched what hangs below its root. -/
def KeepsOut (root : NodeId) (effects : List EffectId) (before after : World) : Prop :=
  ∃ newer, after.deeds = newer ++ before.deeds ∧ ∀ deed ∈ newer, deed.StaysOut root (· ∈ effects)

/-- What was bound is left to its effects: nobody else touches it, or there were no effects before and
states are only written. -/
def LeavesBound (root : NodeId) (effects : List EffectId) (before bound : World)
    (commands : List Command) : Prop :=
  bound.KeepsOut root effects (bound.play commands).2 ∨
    (before.graph.effects.size = 0 ∧ ∀ command ∈ commands, command.isWrite = true)

/-- The HTML below a node parses, and has this skeleton. -/
def HasSkeleton (world : World) (root : NodeId) (skeleton : List Markup) : Prop :=
  ∃ trees, Markup.parse (world.forest.innerHtml root) = .ok trees ∧ Markup.skeletonAll trees = skeleton

end World

namespace Display

variable {display : Display} {state : TargetId} {root : Nat} {trees : List Markup} {store : Store}
  {effects : List EffectId} {opened final : World}

/-- A display that stands has the skeleton of its template. -/
theorem Opens.hasSkeleton (opens : display.Opens state root trees store effects opened)
    (legal : Markup.EverywhereAll Markup.Legal trees) (stands : display.Stands final) :
    final.HasSkeleton root (Markup.outlineAll trees) := by
  obtain ⟨rfl, rfl⟩ : display.root = root ∧ display.trees = trees := ⟨opens.root, opens.trees⟩
  obtain ⟨shown, shows⟩ := stands.shows
  unfold World.HasSkeleton Forest.innerHtml
  rw [innerMarkup_of_shows opens.kids stands shows]
  exact Markup.parse_filledAll shown legal display.root display.start

/-- As long as nobody else touches it, a display stands. -/
theorem Opens.stands_of_keepsOut (opens : display.Opens state root trees store effects opened)
    (shelters : display.Shelters opened.collect final)
    (keeps : opened.collect.KeepsOut root effects final) : display.Stands final := by
  have sweeps := World.sweeps_collect opened
  have standing := opens.stands.shelter opens.formed (World.later_collect opened)
    (sweeps.forest ▸ .refl _ _)
  refine shelters.2 ?_ standing
  obtain ⟨newer, since, out⟩ := keeps
  have same : display.Owns = (· ∈ effects) := funext fun id => propext (opens.owns id)
  refine ⟨newer, by rw [since, sweeps.deeds, opens.deeds], fun deed member => ?_⟩
  rw [same, opens.root]
  exact out deed member

/-- Where there were no effects before, a display stands alone. -/
theorem Opens.private (opens : display.Opens state root trees store effects opened)
    (all : ∀ id < opened.graph.effects.size, id ∈ effects) : display.Private opened.collect where
  stands := opens.stands.shelter opens.formed (World.later_collect opened)
    ((World.sweeps_collect opened).forest ▸ .refl _ _)
  secluded := ⟨[], by rw [(World.sweeps_collect opened).deeds, opens.deeds]; rfl,
    fun _ impossible => by cases impossible⟩
  owned id below := (opens.owns id).mpr (all id ((World.sweeps_collect opened).effects ▸ below))

end Display

namespace World

variable {world : World} {source node given : String} {root : NodeId} {trees : List Markup}

/-- A template that is bound to a state tells the effects, the listeners and the skeleton. -/
theorem Prepared.outline (prepared : world.Prepared node given root trees)
    (legal : Markup.EverywhereAll Markup.Legal trees)
    (free : Markup.EverywhereAll Markup.CallFree trees) (name : String) :
    ∃ bindings bound, world.BindsTo name node given bindings bound ∧ bindings.Match trees bound ∧
      ∀ commands, world.LeavesBound root bindings.effects bound commands →
        (bound.play commands).2.HasSkeleton root (Markup.outlineAll trees) := by
  obtain ⟨state, known⟩ := prepared.state
  obtain ⟨value, store, bindings, opened, stored, ⟨display, opens⟩, matching, all, names, returns, after⟩ :=
    step_bind prepared.played legal free prepared.named prepared.planted known name
  refine ⟨bindings, opened.collect, ⟨⟨value, returns⟩, after, ?_⟩, matching.later (later_collect opened),
    ?_⟩
  · rw [(sweeps_collect _).names, names]
    exact Assoc.get?_put _ _ _
  · intro commands leaves
    apply opens.hasSkeleton legal
    rcases leaves with keeps | ⟨none, writes⟩
    · refine opens.stands_of_keepsOut ?_ keeps
      exact play_follows_always (lawful_standing opens.formed)
        (fun world => Standing.calm_of_forest opens.formed (later_forget world) rfl) _ commands
    · have alone := opens.private fun id below => all id (none ▸ Nat.zero_le id) below
      exact (Privacy.play_of_isWrite opens.formed writes alone).stands

/-! Pages. -/

/-- A state is made from some values, and a template is planted. -/
def page (source : String) (fields : Dictionary Value) : World :=
  (World.empty.play [.state (.create "s" (.object fields)), .node (.parse "tree" source)]).2

/-- There is a state with a handle, and nothing else. -/
theorem step_create (fields : Dictionary Value) :
    ∃ notices, (World.empty.step (.state (.create "s" (.object fields)))).2 =
      { World.empty with
        targets := #[some { values := fields.erase reservedKey }]
        names := { World.empty.names with states := [("s", 0)], handles := [("s", 0)] }
        notices } := by
  let made (notices : List Notice) : World :=
    { World.empty with
      targets := #[some { values := fields.erase reservedKey }]
      names := { World.empty.names with states := [("s", 0)], handles := [("s", 0)] }
      notices }
  have settled : ∀ notices, (made notices).Settled := fun notices =>
    { hosts := fun id alive => by
        have none : (made notices).host? id = none := rfl
        rw [none] at alive
        cases alive
      states := fun id alive => by
        have first : id = 0 := by
          cases id with
          | zero => rfl
          | succ id => cases alive
        exact Or.inl (first ▸ List.mem_singleton_self 0) }
  have performs : ∃ notices, perform (runTo (World.empty.graph.effects.size + (spareDepth - 1) + 1)) []
      (.state (.create "s" (.object fields))) World.empty.forget =
        .ok .null { made notices with holds := [.state 0] } := by
    by_cases reserved : fields.contains reservedKey = true
    · refine ⟨[.reservedInitial], ?_⟩
      have creates : createState fields World.empty.forget = .ok 0
          { World.empty with
            targets := #[some { values := fields.erase reservedKey }]
            holds := [.state 0]
            notices := [.reservedInitial] } := by
        unfold createState
        rw [if_pos reserved]
        rfl
      exact (bind_of_ok creates).trans rfl
    · refine ⟨[], ?_⟩
      have creates : createState fields World.empty.forget = .ok 0
          { World.empty with
            targets := #[some { values := fields.erase reservedKey }]
            holds := [.state 0] } := by
        unfold createState
        rw [if_neg reserved]
        rfl
      exact (bind_of_ok creates).trans rfl
  obtain ⟨notices, performs⟩ := performs
  refine ⟨notices, ?_⟩
  have started : start (.state (.create "s" (.object fields))) World.empty.forget =
      .ok .null (made notices).collect := start_of_performs performs
  rw [step_eq, started]
  exact collect_eq_self (settled notices)

/-- Any template and any values make a page, on which nothing is bound yet. -/
theorem prepared_page (parsed : Markup.parse source = .ok trees) (fields : Dictionary Value) :
    (page source fields).Prepared "tree" "s" 0 trees ∧ (page source fields).graph.effects.size = 0 := by
  obtain ⟨notices, made⟩ := step_create fields
  have played : (World.empty.step (.state (.create "s" (.object fields)))).2.Played :=
    ⟨[.state (.create "s" (.object fields))], rfl⟩
  obtain ⟨_, told, -, after⟩ := step_parse played.settled parsed "tree"
  have same : page source fields =
      ((World.empty.step (.state (.create "s" (.object fields)))).2.step
        (.node (.parse "tree" source))).2 := rfl
  rw [after, made] at same
  refine ⟨⟨⟨_, rfl⟩, ?_, ?_, 0, ?_⟩, ?_⟩
  · rw [same]
    exact Assoc.get?_put _ _ _
  · rw [same]
    exact Forest.planted_plantFragment World.empty.forest trees
  · rw [same]
    rfl
  · rw [same]
    rfl

end World

open World in
/-- A template without calls may be bound to any state, at once or after anything else happened. The
template alone tells the labels of the effects, the number of the listeners, and the elements, attributes
and comments of what is shown at any later time, so that these are the same for any two states. In
particular this holds for pages that are made of any values, and for all writes to them. -/
theorem bound_values_inject_nothing {source : String} {trees : List Markup}
    (parsed : Markup.parse source = .ok trees) (free : Markup.EverywhereAll Markup.CallFree trees) :
    (∀ fields, (page source fields).Prepared "tree" "s" 0 trees ∧
      (page source fields).graph.effects.size = 0) ∧
    ∀ (first second : World) (node other given twin : String) (root base : NodeId),
      first.Prepared node given root trees → second.Prepared other twin base trees →
      ∀ name title : String, ∃ bindings bound bindingsToo boundToo,
        first.BindsTo name node given bindings bound ∧
        second.BindsTo title other twin bindingsToo boundToo ∧
        (∃ labels : List String, bindings.effects.map bound.labelOf? = labels.map some ∧
          bindingsToo.effects.map boundToo.labelOf? = labels.map some) ∧
        bindings.listeners = bindingsToo.listeners ∧
        ∀ commands others : List Command,
          first.LeavesBound root bindings.effects bound commands →
          second.LeavesBound base bindingsToo.effects boundToo others →
          ∃ shown shownToo,
            Markup.parse ((bound.play commands).2.forest.innerHtml root) = .ok shown ∧
            Markup.parse ((boundToo.play others).2.forest.innerHtml base) = .ok shownToo ∧
            Markup.skeletonAll shown = Markup.skeletonAll shownToo := by
  have legal := (Markup.normal_parse parsed).legal
  refine ⟨prepared_page parsed, ?_⟩
  intro first second node other given twin root base prepared preparedToo name title
  obtain ⟨bindings, bound, binds, matching, outlines⟩ := prepared.outline legal free name
  obtain ⟨bindingsToo, boundToo, bindsToo, matchingToo, outlinesToo⟩ :=
    preparedToo.outline legal free title
  refine ⟨bindings, bound, bindingsToo, boundToo, binds, bindsToo,
    ⟨Markup.labelsAll trees, matching.labels, matchingToo.labels⟩,
    matching.listeners.trans matchingToo.listeners.symm, ?_⟩
  intro commands others leaves leavesToo
  obtain ⟨shown, parses, outline⟩ := outlines commands leaves
  obtain ⟨shownToo, parsesToo, outlineToo⟩ := outlinesToo others leavesToo
  exact ⟨shown, shownToo, parses, parsesToo, outline.trans outlineToo.symm⟩

/-- This template shows a value as a text, as the content of an element and in an input. -/
def markedTemplate : String := "<p>{{ a }}<b v-text=\"b\"></b><input v-model=\"a\"></p>"

/-- These values look like elements, comments, spans and directives. -/
def markedFields : Dictionary Value :=
  [("a", .string "<img src=x>{{ b }}"), ("b", .string "--> v-text=\"a\" &lt;")]

/-- A value that closes an element and opens a comment is written. -/
def markedWrites : List Command := [.state (.set "s" "b" (.string "</b><i><!--"))]

/-- A value that looks like nothing is written. -/
def plainWrites : List Command := [.state (.set "s" "a" (.integer 1))]

/-- The page is bound, and then it is written to. -/
def markedPage (fields : Dictionary Value) (writes : List Command) : World :=
  (((World.page markedTemplate fields).step (.host (.bind "b" "tree" "s"))).2.play writes).2

theorem sameSkeleton_of_markedFields : ∃ shown shownToo,
    Markup.parse ((markedPage markedFields markedWrites).forest.innerHtml 0) = .ok shown ∧
    Markup.parse ((markedPage [] plainWrites).forest.innerHtml 0) = .ok shownToo ∧
    Markup.skeletonAll shown = Markup.skeletonAll shownToo := by
  have parsed : Markup.parse markedTemplate =
      .ok [.element "p" [] [.text "{{ a }}", .element "b" [("v-text", "b")] [],
        .element "input" [("v-model", "a")] []]] := by
    have scanned : Token.scan markedTemplate.toList =
        [.opening ['p'] [] false, .text "{{ a }}".toList,
          .opening ['b'] [("v-text".toList, some "b".toList)] false, .closing ['b'],
          .opening "input".toList [("v-model".toList, some "a".toList)] false, .closing ['p']] := by
      decide +kernel
    rw [Markup.parse, Markup.read, scanned]
    rfl
  have span : Interpolation.isCallFree "{{ a }}" = true := by decide +kernel
  have text : ∀ entry ∈ [("v-text", "b")], Markup.isCallFreeAttribute entry = true := by decide +kernel
  have model : ∀ entry ∈ [("v-model", "a")], Markup.isCallFreeAttribute entry = true := by decide +kernel
  obtain ⟨pages, binds⟩ := bound_values_inject_nothing parsed
    ⟨⟨by simp [Markup.CallFree], span, ⟨text, trivial⟩, ⟨model, trivial⟩, trivial⟩, trivial⟩
  obtain ⟨ready, none⟩ := pages markedFields
  obtain ⟨readyToo, noneToo⟩ := pages []
  obtain ⟨bindings, bound, bindingsToo, boundToo, marked, plain, -, -, same⟩ :=
    binds _ _ _ _ _ _ _ _ ready readyToo "b" "b"
  have writes : ∀ command ∈ markedWrites, command.isWrite = true := fun command member =>
    List.mem_singleton.mp member ▸ rfl
  have writesToo : ∀ command ∈ plainWrites, command.isWrite = true := fun command member =>
    List.mem_singleton.mp member ▸ rfl
  obtain ⟨shown, shownToo, parses, parsesToo, skeleton⟩ :=
    same markedWrites plainWrites (Or.inr ⟨none, writes⟩) (Or.inr ⟨noneToo, writesToo⟩)
  unfold markedPage
  rw [marked.after, plain.after]
  exact ⟨shown, shownToo, parses, parsesToo, skeleton⟩

end LiveMarkup
