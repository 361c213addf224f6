import LiveMarkup.Proofs.Climbing
import LiveMarkup.Proofs.Directives
import LiveMarkup.Proofs.Normal

/-
This file shows that the walk of a binding reaches all nodes of planted markup, and that all sites show
afterwards what the store says.
-/

namespace LiveMarkup

open Live

namespace Markup

/-- The expressions of a node contain no call, unless they belong to events. -/
def CallFree : Markup → Prop
  | .text content => Interpolation.isCallFree content = true
  | .comment _ => True
  | .element _ attributes _ => ∀ entry ∈ attributes, isCallFreeAttribute entry = true

/-- The site of an element is that of its text, if it has one. -/
theorem filterMap_siteOf? {attributes : List (String × String)}
    (distinct : (attributes.map Prod.fst).Nodup) (id parent : Nat) (tag : String)
    (kept : List (String × String)) :
    attributes.filterMap (siteOf? id parent tag kept) =
      match textSource? attributes with
      | some source => [⟨id, parent, .content tag kept source⟩]
      | none => [] := by
  induction attributes with
  | nil => rfl
  | cons entry rest inductionHypothesis =>
      obtain ⟨new, others⟩ := List.nodup_cons.mp distinct
      by_cases text : Directive.ofName? entry.1 = some .text
      · have none : rest.filterMap (siteOf? id parent tag kept) = [] := by
          rw [List.filterMap_eq_nil_iff]
          intro other member
          refine if_neg fun again => new ?_
          rw [Directive.ofName?_eq_text.mp text, ← Directive.ofName?_eq_text.mp again]
          exact List.mem_map_of_mem member
        have source : textSource? (entry :: rest) = some entry.2 := by
          unfold textSource?
          rw [List.find?_cons_of_pos (by simpa using text)]
          rfl
        rw [List.filterMap_cons, none, source, siteOf?, if_pos text]
      · have source : textSource? (entry :: rest) = textSource? rest := by
          unfold textSource?
          rw [List.find?_cons_of_neg (by simpa using text)]
        rw [List.filterMap_cons, siteOf?, if_neg text, source]
        exact inductionHypothesis others

mutual

/-- These are the wires of a tree. The children of an element whose text is bound are not reached. -/
def wires (id : Nat) : Markup → List Wire
  | .text _ => []
  | .comment _ => []
  | .element tag attributes children =>
      attributes.filterMap (wireOf? id tag (keptAttributes tag attributes)) ++
        if (textSource? attributes).isSome then [] else wiresAll (id + 1) children

def wiresAll (id : Nat) : List Markup → List Wire
  | [] => []
  | first :: rest => first.wires id ++ wiresAll (id + first.count) rest

end

/-- This is what a tree contributes to a binding. -/
def yield (parent id : Nat) (tree : Markup) : Yield :=
  ⟨(tree.spots parent id).filterMap Spot.site?, tree.labels, tree.listeners, tree.wires id⟩

def yieldAll (parent id : Nat) (trees : List Markup) : Yield :=
  ⟨(spotsAll parent id trees).filterMap Spot.site?, labelsAll trees, listenersAll trees, wiresAll id trees⟩

theorem yieldAll_cons (parent id : Nat) (first : Markup) (rest : List Markup) :
    yieldAll parent id (first :: rest) =
      (first.yield parent id).add (yieldAll parent (id + first.count) rest) := by
  simp only [yieldAll, yield, Yield.add, spotsAll, List.filterMap_append, labelsAll, listenersAll, wiresAll]

theorem yield_text (content : String) (parent id : Nat) :
    (text content).yield parent id =
      if Interpolation.hasSpan content then
        ⟨[⟨id, parent, .interpolation content⟩],
          ["\x7b\x7b \x7d\x7d in " ++ Text.quoted (Text.trimString content)], 0, []⟩
      else .none := by
  unfold yield spots labels listeners wires
  split <;> rfl

/-- The children of an element whose text is bound contribute nothing. -/
theorem yield_element (tag : String) {attributes : List (String × String)}
    (distinct : (attributes.map Prod.fst).Nodup) (parent id : Nat) (children : List Markup) :
    (element tag attributes children).yield parent id =
      (yieldOfAll id parent tag (keptAttributes tag attributes) attributes).add
        (if (textSource? attributes).isSome then .none else yieldAll id (id + 1) children) := by
  unfold yield yieldOfAll yieldAll Yield.add spots labels listeners wires
  rw [filterMap_siteOf? distinct]
  cases textSource? attributes with
  | some source => rfl
  | none => rfl

theorem ownsChildren_eq (attributes : List (String × String)) :
    ownsChildren attributes = (textSource? attributes).isSome := by
  unfold ownsChildren textSource?
  rw [Option.isSome_map, Bool.eq_iff_iff, List.any_eq_true, List.find?_isSome]

theorem ofName?_ne_text {attributes : List (String × String)} (none : textSource? attributes = none) :
    ∀ entry ∈ attributes, Directive.ofName? entry.1 ≠ some .text := by
  unfold textSource? at none
  rw [Option.map_eq_none_iff, List.find?_eq_none] at none
  exact fun entry member text => none entry member (decide_eq_true text)

theorem bounds_of_mem_places (start : Nat) (trees : List Markup) :
    ∀ child : Nat, child ∈ places start trees → start ≤ child ∧ child < start + countAll trees := by
  induction trees generalizing start with
  | nil => exact fun _ impossible => by cases impossible
  | cons first rest inductionHypothesis =>
      intro child member
      unfold countAll
      have some := count_pos first
      rcases List.mem_cons.mp member with rfl | later
      · omega
      · have bounds := inductionHypothesis (start + first.count) child later
        omega

end Markup

namespace Forest

variable {forest : Forest Handler} {limit parent id : Nat} {shown : Site → String}

/-- The first spot of a tree tells its parent. -/
theorem parent?_of_shows {tree : Markup}
    (shows : ∀ spot ∈ tree.spots parent id, forest.Shows limit shown spot) :
    forest.parent? id = some parent := by
  cases tree with
  | text content =>
      unfold Markup.spots at shows
      split at shows
      · exact parent?_of_shape? (shows _ (List.mem_singleton_self _))
      · exact parent?_of_shape? (shows _ (List.mem_singleton_self _))
  | comment content => exact parent?_of_shape? (shows _ (List.mem_singleton_self _))
  | element tag attributes children =>
      unfold Markup.spots at shows
      split at shows
      · obtain ⟨_, -, found⟩ := shows _ (List.mem_singleton_self _)
        exact parent?_of_shape? found
      · exact parent?_of_shape? (shows _ List.mem_cons_self)

/-- Behind a node without children the walk goes on as if it skipped them. -/
theorem next?_of_leaf {root : NodeId} (leaf : forest.children id = []) :
    forest.next? root id = forest.nextSkipping? root id := by
  rw [next?_eq_onward, leaf]
  rfl

end Forest

namespace World

variable {state : TargetId} {store : Store} {guard : Hold} {limit low high : Nat} {yield : Yield}
  {bindings bound : Bindings} {before after : World}

/-- Fixed nodes outside of the range keep their shape. -/
theorem Binds.shape (binds : before.Binds state store limit low high yield bindings bound after)
    {id : Nat} {shape : Node Handler} (found : before.forest.shape? id = some shape) (small : id < limit)
    (away : id < low ∨ high ≤ id) : after.forest.shape? id = some shape :=
  binds.keeps (fun _ => "") (.fixed id shape) small away found

/-- What hung below a root before the range still does. -/
theorem Binds.hangs (binds : before.Binds state store limit low high yield bindings bound after)
    {root id : Nat} (hangs : before.forest.Hangs root id) (early : id < low) (fits : low ≤ limit) :
    after.forest.Hangs root id := by
  have parents : ∀ {child above : Nat}, before.forest.parent? child = some above → child < low →
      after.forest.parent? child = some above := by
    intro child above found less
    have known := Forest.lt_size_of_parent? found
    rw [Forest.parent?_eq_shape?] at found ⊢
    obtain ⟨shape, here, same⟩ := Option.bind_eq_some_iff.mp found
    rw [binds.shape here (Nat.lt_of_lt_of_le less fits) (Or.inl less), Option.bind_some, same]
  induction hangs with
  | child found older => exact .child (parents found early) older
  | under found older _ inductionHypothesis =>
      exact .under (parents found early) older (inductionHypothesis (Nat.lt_trans older early))

/-- One step of a walk binds a node and looks up where to go on. -/
theorem bindFrom_succ {run : Runner} {root id : NodeId} {owned : Bool} (limit : Nat)
    (binds : bindNode run state id bindings before = .ok (bound, owned) after) :
    bindFrom run state root (limit + 1) (some id) bindings before =
      bindFrom run state root limit
        (if owned then after.forest.nextSkipping? root id else after.forest.next? root id) bound
        after := bind_of_ok binds

theorem Binds.has {trees : List (Nat × Node Handler)}
    (binds : before.Binds state store limit low high yield bindings bound after)
    (has : before.forest.Has trees)
    (away : ∀ spot ∈ trees, spot.1 < limit ∧ (spot.1 < low ∨ high ≤ spot.1)) : after.forest.Has trees :=
  fun spot member => binds.shape (has spot member) (away spot member).1 (away spot member).2

variable (depth : Nat) {world : World} {parent id : Nat} (bindings : Bindings)

/-- A text is a site if it has an expression in it. -/
theorem binds_textNode {content : String} (offers : world.Offers state store guard)
    (small : id < limit) (free : Interpolation.isCallFree content = true)
    (found : world.forest.shape? id = some { content := .text content, parent := some parent }) :
    ∃ bound after,
      bindNode (runTo (depth + 1)) state id bindings world = .ok (bound, false) after ∧
      world.Binds state store limit id (id + 1) ((Markup.text content).yield parent id) bindings bound
        after ∧
      (∀ spot ∈ (Markup.text content).spots parent id,
        after.forest.Shows limit (fun site => (site.seen store).2) spot) ∧
      after.forest.children id = [] := by
  obtain ⟨known, here, plainly⟩ := Forest.content?_of_shape? found
  cases known <;> cases plainly
  have text : world.forest.textContent id = content := by
    unfold Forest.textContent
    rw [here]
  have binds : bindNode (runTo (depth + 1)) state id bindings world =
      (do let bound ← bindInterpolation (runTo (depth + 1)) state id bindings; pure (bound, false)
        : Live (Bindings × Bool)) world := by
    unfold bindNode
    rw [get_bind, here]
  rw [binds, Markup.yield_text]
  unfold bindInterpolation Markup.spots
  by_cases span : Interpolation.hasSpan content = true
  · rw [if_pos span, if_pos span]
    let site : Site := ⟨id, parent, .interpolation content⟩
    obtain ⟨after, registers, registered⟩ := registered_site depth site free
      ("\x7b\x7b \x7d\x7d in " ++ Text.quoted (Text.trimString content)) offers
    obtain ⟨shown, others⟩ := Forest.setTextContent_text found (site.seen store).2
    rw [← registered.forest] at shown others
    have alive := (offers.later registered.gentle).guarded.alive
    refine ⟨bindings.addEffect world.graph.effects.size, after, ?_, ?_, ?_, ?_⟩
    · refine bind_of_ok ?_
      rw [get_bind]
      dsimp only
      rw [text, if_pos span]
      exact bind_of_ok registers
    · refine .of_shapes (fun node => node = id) registered.gentle (fun other _ => others other)
        ?_ small ⟨[⟨world.graph.effects.size, _, some site⟩], rfl, rfl, rfl, ?_⟩ rfl
        (fun _ => Binds.mem_addEffect bindings registered.effects) (.of_site registered)
      · rintro node rfl
        exact ⟨Nat.le_refl _, Nat.lt_succ_self _⟩
      · intro charge member
        cases List.mem_singleton.mp member
        refine ⟨⟨registered.endures, registered.label, ?_, ?_, ?_⟩, Nat.le_refl _⟩
        · intro impossible
          cases impossible
        · intro served same
          cases same
          exact registered.task
        · intro served same
          cases same
          exact registered.depends alive
    · intro spot member
      cases List.mem_singleton.mp member
      exact shown
    · exact Forest.children_of_shape? shown
  · rw [if_neg span, if_neg span]
    refine ⟨bindings, world, ?_, .refl world, ?_, Forest.children_of_shape? found⟩
    · refine bind_of_ok ?_
      rw [get_bind]
      dsimp only
      rw [text, if_neg span]
      rfl
    · intro spot member
      cases List.mem_singleton.mp member
      exact found

/-- The attributes of an element are bound, and its text if it has one. -/
theorem binds_element {tag : String} {attributes : List (String × String)} {children : List NodeId}
    (offers : world.Offers state store guard) (known : limit ≤ world.forest.size)
    (within : (Markup.textSource? attributes).isSome = true → ∀ child ∈ children, id < child ∧ child < high)
    (below : id < high) (small : high ≤ limit) (distinct : (attributes.map Prod.fst).Nodup)
    (free : ∀ entry ∈ attributes, Markup.isCallFreeAttribute entry = true)
    (found : world.forest.shape? id =
      some { content := .element { tag, attributes }, parent := some parent, children }) :
    ∃ bound after,
      bindNode (runTo (depth + 1)) state id bindings world =
        .ok (bound, (Markup.textSource? attributes).isSome) after ∧
      world.Binds state store limit id high
        (Markup.yieldOfAll id parent tag (Markup.keptAttributes tag attributes) attributes)
        bindings bound after ∧
      after.forest.Carries limit store id parent tag children attributes [] := by
  obtain ⟨element, here, -, same⟩ := Forest.content?_of_element found
  have carries : world.forest.Carries limit store id parent tag children [] attributes :=
    ⟨children, found, rfl⟩
  have managed : ∀ entry ∈ attributes, Directive.ofName? entry.1 = some .text →
      ∀ child ∈ children, id < child ∧ child < high := by
    intro entry member text
    apply within
    rw [Option.isSome_iff_ne_none]
    exact fun none => Markup.ofName?_ne_text none entry member text
  have typed : Assoc.get? ([] ++ attributes) "type" =
      Assoc.get? (Markup.keptAttributes tag attributes) "type" := by
    have same := Markup.get?_keptAttributes tag attributes []
      (show Directive.ofName? "type" = none by decide)
    rw [List.append_nil, List.append_nil] at same
    exact same.symm
  obtain ⟨bound, after, binds, whole, carried⟩ := binds_attributes depth bindings offers
    known managed below small carries distinct free typed
  refine ⟨bound, after, ?_, whole, carried⟩
  unfold bindNode
  rw [get_bind, here]
  dsimp only
  rw [same, bind_of_ok binds, Markup.ownsChildren_eq]
  rfl

/-- A tree is in its place below a root, and the nodes of the tree come before a limit. -/
structure Awaits (world : World) (root limit parent : Nat) (nodes : List (Nat × Node Handler)) :
    Prop where
  has : world.forest.Has nodes
  reached : parent = root ∨ world.forest.Hangs root parent
  known : limit ≤ world.forest.size

/-- A walk bound nodes from one number to another one, and it goes on elsewhere. It had enough steps. -/
def Walks (run : Runner) (state : TargetId) (store : Store) (root limit low high : Nat)
    (spots : List Spot) (yield : Yield) (steps : Nat) (start : Option NodeId) (goal : Forest Handler → Option NodeId)
    (bindings : Bindings) (before : World) : Prop :=
  ∃ rest bound after, steps ≤ rest + (high - low) ∧
    bindFrom run state root steps start bindings before =
      bindFrom run state root rest (goal after.forest) bound after ∧
    before.Binds state store limit low high yield bindings bound after ∧
    ∀ spot ∈ spots, after.forest.Shows limit (fun site => (site.seen store).2) spot

variable {root : Nat}

mutual

/-- The walk over a tree binds all of its nodes. -/
theorem walks_tree : ∀ (tree : Markup) (parent id steps : Nat) (bindings : Bindings) (world : World),
    tree.Everywhere Markup.Legal → tree.Everywhere Markup.CallFree →
    world.Offers state store guard → world.Awaits root limit parent (tree.planted parent id) →
    root < id → parent < id → id + tree.count ≤ limit → tree.count ≤ steps →
    world.Walks (runTo (depth + 1)) state store root limit id (id + tree.count) (tree.spots parent id)
      (tree.yield parent id) steps (some id) (·.nextSkipping? root id) bindings
  | .text content, parent, id, steps, bindings, world, _, free, offers, awaits, _, _, fits, enough => by
      unfold Markup.count at fits enough ⊢
      obtain ⟨more, rfl⟩ : ∃ more, steps = more + 1 := ⟨steps - 1, by omega⟩
      obtain ⟨bound, after, here, binds, shows, leaf⟩ := binds_textNode depth bindings offers
        (Nat.lt_of_succ_le fits) free (awaits.has _ (List.mem_singleton_self _))
      refine ⟨more, bound, after, by omega, ?_, binds, shows⟩
      rw [bindFrom_succ more here]
      exact congrArg (bindFrom _ _ _ _ · _ _) (Forest.next?_of_leaf leaf)
  | .comment content, parent, id, steps, bindings, world, _, _, _, awaits, _, _, fits, enough => by
      unfold Markup.count at fits enough ⊢
      obtain ⟨more, rfl⟩ : ∃ more, steps = more + 1 := ⟨steps - 1, by omega⟩
      have found := awaits.has _ (List.mem_singleton_self _)
      obtain ⟨known, looked, plainly⟩ := Forest.content?_of_shape? found
      cases known <;> cases plainly
      have here : bindNode (runTo (depth + 1)) state id bindings world = .ok (bindings, false) world := by
        unfold bindNode
        rw [get_bind, looked]
        rfl
      refine ⟨more, bindings, world, by omega, ?_, .refl world, ?_⟩
      · rw [bindFrom_succ more here]
        exact congrArg (bindFrom _ _ _ _ · _ _) (Forest.next?_of_leaf (Forest.children_of_shape? found))
      · intro spot member
        cases List.mem_singleton.mp member
        exact found
  | .element tag attributes children, parent, id, steps, bindings, world, legal, free, offers, awaits,
      older, above, fits, enough => by
      unfold Markup.count at fits enough ⊢
      obtain ⟨more, rfl⟩ : ∃ more, steps = more + 1 := ⟨steps - 1, by omega⟩
      have found := awaits.has _ List.mem_cons_self
      unfold Markup.spots
      cases source : Markup.textSource? attributes with
      | some text =>
          have within : (Markup.textSource? attributes).isSome = true →
              ∀ child ∈ Markup.places (id + 1) children,
                id < child ∧ child < id + (1 + Markup.countAll children) := by
            intro _ child member
            have bounds := Markup.bounds_of_mem_places (id + 1) children child member
            exact ⟨bounds.1, Nat.lt_of_lt_of_eq bounds.2 (Nat.add_assoc id 1 _)⟩
          obtain ⟨bound, after, here, binds, now, shaped, holds⟩ := binds_element depth bindings offers
            awaits.known within (by omega) fits legal.1.distinct free.1 found
          have yields := Markup.yield_element tag legal.1.distinct parent id children
          rw [source, Option.isSome_some, if_pos rfl, Yield.add_none] at yields
          rw [← yields] at binds
          rw [source] at here holds
          refine ⟨more, bound, after, by omega, bindFrom_succ more here, binds, ?_⟩
          intro spot member
          cases List.mem_singleton.mp member
          rw [List.append_nil] at shaped
          exact ⟨now, holds, shaped⟩
      | none =>
          have within : (Markup.textSource? attributes).isSome = true →
              ∀ child ∈ Markup.places (id + 1) children, id < child ∧ child < id + 1 := by
            rw [source]
            exact fun impossible => by cases impossible
          obtain ⟨middle, between, here, binds, now, shaped, same⟩ := binds_element depth bindings offers
            awaits.known within (Nat.lt_succ_self id) (by omega) legal.1.distinct free.1 found
          rw [source] at here same
          rw [List.append_nil, same] at shaped
          have inner : between.Awaits root limit id
              (Markup.plantedAll id (id + 1) children) := by
            refine ⟨binds.has (fun spot member => awaits.has spot (List.mem_cons_of_mem _ member)) ?_,
              Or.inr ?_, Nat.le_trans awaits.known binds.gentle.later.nodes⟩
            · intro spot member
              have bounds := Markup.bounds_of_mem_plantedAll id (id + 1) children spot member
              omega
            · exact Forest.hangs_of_parent (Forest.parent?_of_shape? shaped) above
                (awaits.reached.imp_right fun hangs => binds.hangs hangs above (by omega))
          obtain ⟨rest, bound, after, spent, walks, late, shows⟩ := walks_trees children id (id + 1) more
            middle between [] legal.2 free.2 (offers.later binds.gentle) inner
            (Forest.children_of_shape? shaped) (fun _ impossible => by cases impossible)
            (Nat.lt_succ_of_lt older) (Nat.lt_succ_self id) (by omega) (by omega)
          refine ⟨rest, bound, after, by omega, ?_, ?_, ?_⟩
          · rw [bindFrom_succ more here, ← walks, if_neg (by simp), Forest.next?_eq_onward,
              Forest.children_of_shape? shaped]
          · have yields := Markup.yield_element tag legal.1.distinct parent id children
            rw [source, Option.isSome_none, if_neg Bool.false_ne_true] at yields
            rw [yields]
            exact (binds.widen (Nat.le_refl _) (by omega)).trans (late.widen (by omega) (by omega))
              (offers.later binds.gentle)
          · intro spot member
            rcases List.mem_cons.mp member with rfl | below
            · exact late.shape shaped (by omega) (Or.inl (Nat.lt_succ_self id))
            · exact shows spot below

/-- The walk over neighbouring trees goes on behind their parent. -/
theorem walks_trees : ∀ (trees : List Markup) (parent id steps : Nat) (bindings : Bindings)
    (world : World) (early : List NodeId),
    Markup.EverywhereAll Markup.Legal trees → Markup.EverywhereAll Markup.CallFree trees →
    world.Offers state store guard → world.Awaits root limit parent (Markup.plantedAll parent id trees) →
    world.forest.children parent = early ++ Markup.places id trees →
    (∀ earlier : Nat, earlier ∈ early → earlier < id) →
    root < id → parent < id → id + Markup.countAll trees ≤ limit → Markup.countAll trees ≤ steps →
    world.Walks (runTo (depth + 1)) state store root limit id (id + Markup.countAll trees)
      (Markup.spotsAll parent id trees) (Markup.yieldAll parent id trees) steps
      (world.forest.onward root parent (Markup.places id trees)) (·.nextSkipping? root parent) bindings
  | [], parent, id, steps, bindings, world, early, _, _, _, _, _, _, _, _, _, _ =>
      ⟨steps, bindings, world, by omega, rfl, .refl world, fun _ impossible => by cases impossible⟩
  | first :: rest, parent, id, steps, bindings, world, early, legal, free, offers, awaits, children,
      before, older, above, fits, enough => by
      unfold Markup.countAll at fits enough ⊢
      unfold Markup.plantedAll at awaits
      have positive := Markup.count_pos first
      obtain ⟨left, middle, between, spent, walks, binds, shows⟩ := walks_tree first parent id steps
        bindings world legal.1 free.1 offers
        ⟨fun spot member => awaits.has spot (List.mem_append_left _ member), awaits.reached, awaits.known⟩
        older above (by omega) (by omega)
      obtain ⟨shape, looked, linked⟩ : ∃ shape, world.forest.shape? parent = some shape ∧
          shape.children = early ++ Markup.places id (first :: rest) := by
        cases looked : world.forest.shape? parent with
        | none =>
            rw [Forest.children_eq_shape?, looked, Markup.places] at children
            simp at children
        | some shape => exact ⟨shape, rfl, (Forest.children_of_shape? looked).symm.trans children⟩
      have kept := binds.shape looked (by omega) (Or.inl above)
      have siblings : between.forest.children parent =
          early ++ id :: Markup.places (id + first.count) rest :=
        (Forest.children_of_shape? kept).trans linked
      have reached : parent = root ∨ between.forest.Hangs root parent :=
        awaits.reached.imp_right fun hangs => binds.hangs hangs above (by omega)
      have goesOn : between.forest.nextSkipping? root id =
          between.forest.onward root parent (Markup.places (id + first.count) rest) := by
        apply Forest.nextSkipping?_eq_onward (Forest.parent?_of_shows shows) (Nat.ne_of_gt older) siblings
          (fun again => absurd (before id again) (Nat.lt_irrefl id)) reached
        exact Forest.lt_size_of_shape? kept
      obtain ⟨last, bound, after, spentToo, walksOn, late, showsToo⟩ := walks_trees rest parent
        (id + first.count) left middle between (early ++ [id]) legal.2 free.2 (offers.later binds.gentle)
        ⟨binds.has (fun spot member => awaits.has spot (List.mem_append_right _ member)) fun spot member => by
            have bounds := Markup.bounds_of_mem_plantedAll parent (id + first.count) rest spot member
            omega,
          reached, Nat.le_trans awaits.known binds.gentle.later.nodes⟩
        (by rw [siblings, List.append_assoc]; rfl)
        (fun earlier member => by
          rcases List.mem_append.mp member with old | new
          · exact Nat.lt_of_lt_of_le (before earlier old) (Nat.le_add_right _ _)
          · cases List.mem_singleton.mp new
            exact Nat.lt_add_of_pos_right positive)
        (by omega) (by omega) (by omega) (by omega)
      refine ⟨last, bound, after, by omega, ?_, ?_, ?_⟩
      · rw [← walksOn, ← goesOn, ← walks]
        rfl
      · rw [Markup.yieldAll_cons]
        exact (binds.widen (Nat.le_refl _) (by omega)).trans (late.widen (by omega) (by omega))
          (offers.later binds.gentle)
      · intro spot member
        rcases List.mem_append.mp member with here | later
        · have bounds := Markup.bounds_of_mem_spots parent id first spot here
          exact late.keeps _ spot (by omega) (Or.inl bounds.2) (shows spot here)
        · exact showsToo spot later

end

end World

end LiveMarkup
