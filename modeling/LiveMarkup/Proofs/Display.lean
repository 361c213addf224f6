import LiveMarkup.Proofs.Displays
import LiveMarkup.Proofs.Refreshing

/-
This file says when a display of bound markup stands in a world, and when its sites are up to date.
-/

namespace LiveMarkup

namespace World

/-- An effect gives an input its value, and calls no method for it. -/
def HasInput (world : World) (state : TargetId) (id : EffectId) : Prop :=
  ∃ node source, world.HasTask id (.valueBinding state node source) ∧
    Expr.isCallFreeSource source = true

theorem HasInput.later {before after : World} {state : TargetId} {id : EffectId}
    (has : before.HasInput state id) (later : before.Later after) : after.HasInput state id := by
  obtain ⟨node, source, task, free⟩ := has
  exact ⟨node, source, later.hasTask task, free⟩

end World

/-- Nobody but some effects edits what is below a root, nobody presets or releases the state, and no
panic is caught. -/
def Deed.LeavesAlone (state : TargetId) (root : NodeId) (owns : EffectId → Prop) : Deed → Prop
  | .edited holders => root ∉ holders
  | .shown effect holders => root ∈ holders → ∃ id, effect = some id ∧ owns id
  | .preset other => other ≠ state
  | .released target => target ≠ state
  | .parsed _ _ => True
  | .rendered _ _ holders => root ∉ holders
  | .destroyed _ holders => root ∉ holders
  | .recovered _ => False
  | .strayed _ => True

/-- What all deeds of a time are like, the deeds of a part of it are like. -/
theorem Deed.forall_of_suffix {kind : Deed → Prop} {base older newer deeds : List Deed}
    (all : ∃ later, newer = later ++ base ∧ ∀ deed ∈ later, kind deed)
    (since : newer = deeds ++ older) (suffix : base <:+ older) :
    (∀ deed ∈ deeds, kind deed) ∧ ∃ early, older = early ++ base ∧ ∀ deed ∈ early, kind deed := by
  obtain ⟨later, whole, held⟩ := all
  obtain ⟨early, same⟩ := suffix
  have parts : later = deeds ++ early := by
    refine (List.append_left_inj base).mp ?_
    rw [← whole, since, ← same, List.append_assoc]
  refine ⟨fun deed member => held deed ?_, early, same.symm, fun deed member => held deed ?_⟩
  · rw [parts]
    exact List.mem_append_left _ member
  · rw [parts]
    exact List.mem_append_right _ member

/-- Markup was bound below a root, whose children are known. The nodes are numbered from the start, and
the effect of a site is known by its node. Other effects give inputs their values. The deeds and the
names of the methods are those of that time. -/
structure Display where
  state : TargetId
  root : Nat
  start : Nat
  kids : List Nat
  trees : List Markup
  effectAt : Nat → EffectId
  inputs : List EffectId
  deeds : List Deed
  methods : String → Bool

namespace Display

variable {display : Display} {before after world : World} {site : Site}

/-- The nodes of the markup come before this number. -/
def limit (display : Display) : Nat := display.start + Markup.countAll display.trees

def spots (display : Display) : List Spot :=
  Markup.spotsAll display.root display.start display.trees

/-- These are the places where an expression is shown. -/
def HasSite (display : Display) (site : Site) : Prop := .bound site ∈ display.spots

/-- An effect may belong to a site of the display, or to an input. -/
def Owns (display : Display) (id : EffectId) : Prop :=
  (∃ site, display.HasSite site ∧ display.effectAt site.node = id) ∨ id ∈ display.inputs

/-- The markup contains no call, and its root is older than its nodes. -/
structure Formed (display : Display) : Prop where
  older : display.root < display.start
  near : ∀ child ∈ display.kids, child < display.limit
  free : ∀ site, display.HasSite site → site.isCallFree = true

/-- The display is left alone, except by its own effects. -/
def Allows (display : Display) : Deed → Prop :=
  Deed.LeavesAlone display.state display.root display.Owns

/-- The display has been left to itself: the state lives and gained no methods, no effect of the
display is disposed, and all deeds are allowed. -/
structure Untouched (display : Display) (world : World) : Prop where
  deeds : ∃ newer, world.deeds = newer ++ display.deeds ∧ ∀ deed ∈ newer, display.Allows deed
  alive : world.isAlive display.state = true
  methods : ∀ store name, world.store? display.state = some store →
    store.methods.contains name = true → display.methods name = true
  lasting : ∀ id, display.Owns id → world.graph.isDisposed id = false

/-- All nodes are in their places, and the effects of the display wait. -/
structure Stands (display : Display) (world : World) : Prop where
  reachable : world.Reachable
  deeds : display.deeds <:+ world.deeds
  store : (world.store? display.state).isSome = true
  methods : ∀ store name, world.store? display.state = some store → display.methods name = true →
    store.methods.contains name = true
  tasks : ∀ site, display.HasSite site →
    world.HasTask (display.effectAt site.node) (site.task display.state)
  inputs : ∀ id ∈ display.inputs, world.HasInput display.state id
  idle : ∀ id, display.Owns id → some id ∉ world.graph.stack
  size : display.limit ≤ world.forest.size
  children : world.forest.children display.root = display.kids
  shows : ∃ shown, ∀ spot ∈ display.spots, world.forest.Shows display.limit shown spot

/-- A site shows what its store says, and its effect depends on all that was read for it. -/
structure Fresh (display : Display) (world : World) (site : Site) : Prop where
  intro ::
  seen : ∃ store, world.store? display.state = some store ∧
    world.forest.ShowsText display.limit site (site.seen store).2 ∧
    ∀ name ∈ (site.seen store).1,
      world.Depends (display.effectAt site.node) ⟨display.state, .named name⟩

theorem store_later (later : before.Later after) {state : TargetId}
    (found : (before.store? state).isSome = true) : (after.store? state).isSome = true := by
  obtain ⟨store, known⟩ := Option.isSome_iff_exists.mp found
  obtain ⟨newer, reached, -⟩ := later.stores state store known
  rw [reached]
  rfl

theorem alive_of_later (later : before.Later after) {state : TargetId}
    (found : (before.store? state).isSome = true) (alive : after.isAlive state = true) :
    before.isAlive state = true := by
  obtain ⟨store, known⟩ := Option.isSome_iff_exists.mp found
  obtain ⟨newer, reached, lives, -⟩ := later.stores state store known
  unfold World.isAlive at alive ⊢
  rw [reached] at alive
  rw [known]
  exact lives alive

/-- A display that is untouched was so before. -/
theorem Untouched.earlier (untouched : display.Untouched after) (later : before.Later after)
    (deeds : display.deeds <:+ before.deeds)
    (store : (before.store? display.state).isSome = true) : display.Untouched before where
  deeds := by
    obtain ⟨newer, since⟩ := later.deeds
    exact (Deed.forall_of_suffix untouched.deeds since.symm deeds).2
  alive := alive_of_later later store untouched.alive
  methods store name found known := by
    obtain ⟨newer, reached, -, kept⟩ := later.stores _ store found
    exact untouched.methods newer name reached (kept name known)
  lasting id owned := by
    cases disposed : before.graph.isDisposed id with
    | false => rfl
    | true =>
        have gone := later.isDisposed disposed
        rw [untouched.lasting id owned] at gone
        cases gone

/-- A deed that was done since is allowed. -/
theorem Untouched.allows (untouched : display.Untouched after) {newer : List Deed}
    (since : after.deeds = newer ++ before.deeds) (stands : display.Stands before) {deed : Deed}
    (done : deed ∈ newer) : display.Allows deed :=
  (Deed.forall_of_suffix untouched.deeds since stands.deeds).1 deed done

theorem Untouched.not_frees (untouched : display.Untouched after) (stands : display.Stands before) :
    ¬ before.Frees after display.state := by
  rintro (⟨newer, since, released⟩ | ⟨store, found, gone⟩)
  · exact untouched.allows since stands released rfl
  · have alive := untouched.alive
    unfold World.isAlive at alive
    rw [found, Option.any_some, gone] at alive
    cases alive

/-- The spots hang below the root. -/
theorem hangs_of_stands (formed : display.Formed) (stands : display.Stands world) {spot : Spot}
    (member : spot ∈ display.spots) : world.forest.Hangs display.root spot.node := by
  obtain ⟨shown, shows⟩ := stands.shows
  exact Forest.hangsAll_of_shows display.trees display.root display.start formed.older
    (Or.inl rfl) shows spot member

theorem root_lt_size (formed : display.Formed) (stands : display.Stands world) :
    display.root < world.forest.size :=
  Nat.lt_of_lt_of_le formed.older (Nat.le_trans (Nat.le_add_right _ _) stands.size)

/-- A display stands as long as its nodes do. -/
theorem Stands.later (stands : display.Stands before) (later : before.Later after)
    (children : after.forest.children display.root = before.forest.children display.root)
    (shows : ∃ shown, ∀ spot ∈ display.spots, after.forest.Shows display.limit shown spot) :
    display.Stands after where
  reachable := later.reachable stands.reachable
  deeds := stands.deeds.trans later.deeds
  store := store_later later stands.store
  methods store name found known := by
    obtain ⟨older, looked⟩ := Option.isSome_iff_exists.mp stands.store
    obtain ⟨newer, reached, -, kept⟩ := later.stores _ older looked
    cases found.symm.trans reached
    exact kept name (stands.methods older name looked known)
  tasks site member := later.hasTask (stands.tasks site member)
  inputs id member := (stands.inputs id member).later later
  idle id owned := by
    rw [later.stack]
    exact stands.idle id owned
  size := Nat.le_trans stands.size later.nodes
  children := children.trans stands.children
  shows := shows

/-- A display stands while another effect runs. -/
theorem Stands.entered (stands : display.Stands world) {frame : Option EffectId}
    (allowed : world.graph.Allows (.entered frame))
    (foreign : ∀ id, frame = some id → ¬ display.Owns id) :
    display.Stands (world.entered frame) where
  reachable := by
    obtain ⟨moves, path⟩ := stands.reachable
    exact ⟨_, path.step (.entered frame) allowed⟩
  deeds := stands.deeds
  store := stands.store
  methods := stands.methods
  tasks site member := (stands.tasks site member).entered allowed
  inputs id member := by
    obtain ⟨node, source, task, free⟩ := stands.inputs id member
    exact ⟨node, source, task.entered allowed, free⟩
  idle id owned := by
    have same : (world.entered frame).graph.stack = frame :: world.graph.stack :=
      Graph.stack_moved world.graph (.entered frame)
    rw [same]
    intro member
    rcases List.mem_cons.mp member with here | below
    · exact foreign id here.symm owned
    · exact stands.idle id owned below
  size := stands.size
  children := stands.children
  shows := stands.shows

/-- The methods of a state that gained none are the same. -/
theorem methods_same (stands : display.Stands before) (later : before.Later after)
    (untouched : display.Untouched after) {older newer : Store}
    (known : before.store? display.state = some older)
    (reached : after.store? display.state = some newer) (name : String) :
    older.methods.contains name = newer.methods.contains name := by
  obtain ⟨found, looked, -, kept⟩ := later.stores _ older known
  cases reached.symm.trans looked
  rw [Bool.eq_iff_iff]
  constructor
  · exact kept name
  · exact fun listed => stands.methods older name known (untouched.methods newer name reached listed)

/-- A site stays up to date as long as it shows the same, and the values that it read stay. -/
theorem Fresh.later (fresh : display.Fresh before site) (formed : display.Formed)
    (member : display.HasSite site) (stands : display.Stands before) (later : before.Later after)
    (untouched : display.Untouched after)
    (shows : ∀ text, before.forest.ShowsText display.limit site text →
      after.forest.ShowsText display.limit site text)
    (values : ∀ older newer, before.store? display.state = some older →
      after.store? display.state = some newer → ∀ name ∈ (site.seen older).1,
        Assoc.get? older.values name = Assoc.get? newer.values name) :
    display.Fresh after site := by
  obtain ⟨store, known, shown, depends⟩ := fresh.seen
  obtain ⟨newer, reached, -⟩ := later.stores _ store known
  have agrees : store.AgreesOn newer (site.seen store).1 :=
    ⟨methods_same stands later untouched known reached, values store newer known reached⟩
  have same := Site.seen_stable (formed.free site member) agrees
  refine ⟨newer, reached, ?_, ?_⟩
  · rw [same]
    exact shows _ shown
  · intro name listed
    rw [same] at listed
    exact later.depends (depends name listed) (untouched.not_frees stands)

/-- All that hangs below the root is kept, and the values of the state are. -/
theorem Stands.kept (stands : display.Stands before) (formed : display.Formed)
    (later : before.Later after) (untouched : display.Untouched after)
    (keeps : Forest.Keeps display.root before.forest after.forest)
    (values : ∀ older newer, before.store? display.state = some older →
      after.store? display.state = some newer → newer.values = older.values) :
    display.Stands after ∧
      ∀ site, display.HasSite site → display.Fresh before site → display.Fresh after site := by
  constructor
  · apply stands.later later keeps.children
    obtain ⟨shown, shows⟩ := stands.shows
    exact ⟨shown, fun spot member =>
      keeps.shows (hangs_of_stands formed stands member) (shows spot member)⟩
  · intro site member fresh
    apply fresh.later formed member stands later untouched
    · intro text shows
      have spot : before.forest.Shows display.limit (fun _ => text) (.bound site) := shows
      exact keeps.shows (hangs_of_stands formed stands member) spot
    · intro older newer known reached name _
      rw [values older newer known reached]

/-- The nodes of a display are numbered from its start up to its limit. -/
theorem node_lt_limit {spot : Spot} (member : spot ∈ display.spots) : spot.node < display.limit :=
  (Markup.bounds_of_mem_spotsAll display.root display.start display.trees spot member).2

theorem start_le_node {spot : Spot} (member : spot ∈ display.spots) : display.start ≤ spot.node :=
  (Markup.bounds_of_mem_spotsAll display.root display.start display.trees spot member).1

/-- A new text at a site leaves all other sites as they are. -/
theorem Stands.rewritten (stands : display.Stands before) (formed : display.Formed)
    (member : display.HasSite site) (later : before.Later after) {text : String}
    (forest : after.forest = before.forest.setTextContent site.node text) :
    display.Stands after ∧ after.forest.ShowsText display.limit site text ∧
      ∀ other, display.HasSite other → other.node ≠ site.node → ∀ old,
        before.forest.ShowsText display.limit other old →
          after.forest.ShowsText display.limit other old := by
  obtain ⟨shown, shows⟩ := stands.shows
  obtain ⟨here, kept, others⟩ := Forest.shows_setTextContent (shows _ member) (node_lt_limit member)
    stands.size text
  rw [← forest] at here kept others
  have root : display.root ≠ site.node :=
    Nat.ne_of_lt (Nat.lt_of_lt_of_le formed.older (start_le_node member))
  have rootSmall : display.root < display.limit :=
    Nat.lt_of_lt_of_le formed.older (Nat.le_add_right _ _)
  refine ⟨stands.later later ?_ ?_, here, ?_⟩
  · rw [Forest.children_eq_shape?, Forest.children_eq_shape?, kept _ root rootSmall]
  · refine ⟨fun other => if other.node = site.node then text else shown other, ?_⟩
    intro spot listed
    by_cases same : spot.node = site.node
    · have equal := Markup.eq_of_node listed member same
      subst equal
      show after.forest.ShowsText display.limit site (if site.node = site.node then _ else _)
      rw [if_pos rfl]
      exact here
    · have old := others shown spot same (node_lt_limit listed) (shows spot listed)
      cases spot with
      | fixed id shape => exact old
      | bound other =>
          have apart : other.node ≠ site.node := same
          show after.forest.ShowsText display.limit other (if other.node = site.node then _ else _)
          rw [if_neg apart]
          exact old
  · exact fun other listed apart old present =>
      others (fun _ => old) (.bound other) apart (node_lt_limit listed) present

/-- The effect of a site brings it up to date, and leaves all others as they are. -/
theorem Stands.refreshed (stands : display.Stands before) (formed : display.Formed)
    (member : display.HasSite site) {store : Store} (known : before.store? display.state = some store)
    (untouched : display.Untouched after)
    (refreshed : before.Refreshed display.state (display.effectAt site.node) (site.seen store).1
      (·.setTextContent site.node (site.seen store).2) after) :
    display.Stands after ∧ display.Fresh after site ∧
      ∀ other, display.HasSite other → display.Fresh before other → display.Fresh after other := by
  have later := refreshed.gentle.later
  obtain ⟨standing, here, others⟩ := stands.rewritten formed member later refreshed.forest
  have still : after.store? display.state = some store :=
    (refreshed.gentle.store untouched.alive).trans known
  have fresh : display.Fresh after site :=
    ⟨store, still, here, refreshed.depends untouched.alive⟩
  refine ⟨standing, fresh, fun other listed old => ?_⟩
  by_cases same : other.node = site.node
  · have equal := Markup.eq_of_node listed member same
    injection equal with equal
    rw [equal]
    exact fresh
  · apply old.later formed listed stands later untouched (fun text => others other listed same text)
    intro older newer looked reached name _
    rw [known] at looked
    rw [still] at reached
    cases looked
    cases reached
    rfl

end Display

end LiveMarkup
