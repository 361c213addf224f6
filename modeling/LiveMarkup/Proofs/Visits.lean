import LiveMarkup.Proofs.Directives
import LiveMarkup.Proofs.Harmless

/-
This file binds one node of a tree: what is registered for it is what a survey finds there, and what it gives
up is what it was bound to.
-/

namespace LiveMarkup

open Live

namespace Markup

variable {tag name : String} {attributes done : List (String × String)} {entry : String × String}

/-- These attributes are left when some directives have been bound. -/
def remaining (tag : String) (done attributes : List (String × String)) : List (String × String) :=
  attributes.filter fun entry =>
    !done.any fun other => other.1 == entry.1 && (Directive.ofName? other.1).any (·.leaves tag)

theorem remaining_nil (tag : String) (attributes : List (String × String)) :
    remaining tag [] attributes = attributes := List.filter_eq_self.mpr fun _ _ => rfl

/-- An attribute that binds nothing stays. -/
theorem remaining_stays (stays : (Directive.ofName? entry.1).any (·.leaves tag) = false) :
    remaining tag (done ++ [entry]) attributes = remaining tag done attributes := by
  unfold remaining
  refine List.filter_congr fun other _ => ?_
  rw [List.any_append, List.any_cons, stays, Bool.and_false, List.any_nil, Bool.or_false, Bool.or_false]

/-- An attribute that binds something leaves with all attributes of its name. -/
theorem remaining_leaves (leaves : (Directive.ofName? entry.1).any (·.leaves tag) = true) :
    remaining tag (done ++ [entry]) attributes = Assoc.erase (remaining tag done attributes) entry.1 := by
  unfold remaining Assoc.erase
  rw [List.filter_filter]
  refine List.filter_congr fun other _ => ?_
  rw [List.any_append, List.any_cons, leaves, Bool.and_true, List.any_nil, Bool.or_false, Bool.not_or,
    Bool.and_comm]
  by_cases same : other.1 = entry.1
  · simp [same]
  · have different : entry.1 ≠ other.1 := fun again => same again.symm
    simp [same, different]

/-- When all attributes have been bound, no directive that binds something is left. -/
theorem remaining_self (tag : String) (attributes : List (String × String)) :
    remaining tag attributes attributes = keptAttributes tag attributes := by
  unfold remaining keptAttributes
  refine List.filter_congr fun entry member => congrArg (!·) ?_
  rw [Bool.eq_iff_iff, List.any_eq_true]
  constructor
  · rintro ⟨other, -, both⟩
    obtain ⟨same, leaves⟩ := (Bool.and_eq_true _ _).mp both
    rwa [← beq_iff_eq.mp same]
  · exact fun leaves => ⟨entry, member, by rw [leaves, beq_self_eq_true]; rfl⟩

/-- What is no directive is found as before. -/
theorem get?_remaining (plain : Directive.ofName? name = none) :
    Assoc.get? (remaining tag done attributes) name = Assoc.get? attributes name := by
  induction attributes with
  | nil => rfl
  | cons first rest inductionHypothesis =>
      unfold remaining at inductionHypothesis ⊢
      rw [List.filter_cons]
      by_cases same : first.1 = name
      · have stays : (done.any fun other => other.1 == first.1 &&
            (Directive.ofName? other.1).any (·.leaves tag)) = false := by
          rw [List.any_eq_false]
          intro other _ both
          obtain ⟨equal, leaves⟩ := (Bool.and_eq_true _ _).mp both
          rw [beq_iff_eq.mp equal, same, plain] at leaves
          cases leaves
        rw [stays, Bool.not_false, if_pos rfl, Assoc.get?, Assoc.get?, if_pos same, if_pos same]
      · split
        · rw [Assoc.get?, Assoc.get?, if_neg same, if_neg same, inductionHypothesis]
        · rw [Assoc.get?, if_neg same, inductionHypothesis]

end Markup

namespace World

/-- Nodes below a limit were bound, and effects and listeners were registered for what was found there. Other
nodes keep their links, and nodes that were not visited keep what they hold. -/
structure Scans (limit : Nat) (own visited : List NodeId) (findings : List Finding)
    (bindings bound : Bindings) (before after : World) : Prop where
  later : before.Later after
  others : ∀ id : Nat, id < limit → id ∉ own → after.forest.node? id = before.forest.node? id
  contents : ∀ id : Nat, id < limit → id ∉ visited → after.forest.content? id = before.forest.content? id
  charges : ∃ charges : List (EffectId × String × Task),
    bound.effects = bindings.effects ++ charges.map Prod.fst ∧
    charges.map Prod.snd = findings.filterMap Finding.effect? ∧
    (charges.map Prod.fst).Pairwise (· < ·) ∧
    ∀ charge ∈ charges, before.graph.effects.size ≤ charge.1 ∧
      after.labelOf? charge.1 = some charge.2.1 ∧ after.HasTask charge.1 charge.2.2
  listeners : bound.listeners = bindings.listeners + findings.countP Finding.isListener

namespace Scans

variable {limit : Nat} {own visited : List NodeId} {found more : List Finding}
  {bindings middle bound : Bindings} {first second third world after : World}

theorem refl (world : World) : world.Scans limit own visited [] bindings bindings world where
  later := .refl world
  others _ _ _ := rfl
  contents _ _ _ := rfl
  charges := ⟨[], (List.append_nil _).symm, rfl, .nil, fun _ impossible => by cases impossible⟩
  listeners := rfl

theorem widen {wider all : List NodeId} (scans : first.Scans limit own visited found bindings bound second)
    (links : ∀ id ∈ own, id ∈ wider) (nodes : ∀ id ∈ visited, id ∈ all) :
    first.Scans limit wider all found bindings bound second where
  later := scans.later
  others id below outside := scans.others id below fun member => outside (links id member)
  contents id below outside := scans.contents id below fun member => outside (nodes id member)
  charges := scans.charges
  listeners := scans.listeners

theorem trans (early : first.Scans limit own visited found bindings middle second)
    (late : second.Scans limit own visited more middle bound third) :
    first.Scans limit own visited (found ++ more) bindings bound third where
  later := early.later.trans late.later
  others id below outside := (late.others id below outside).trans (early.others id below outside)
  contents id below outside := (late.contents id below outside).trans (early.contents id below outside)
  charges := by
    obtain ⟨charges, added, serve, ascend, facts⟩ := early.charges
    obtain ⟨others, appended, serveToo, ascendToo, factsToo⟩ := late.charges
    refine ⟨charges ++ others, ?_, ?_, ?_, ?_⟩
    · rw [appended, added, List.map_append, List.append_assoc]
    · rw [List.map_append, serve, serveToo, List.filterMap_append]
    · rw [List.map_append, List.pairwise_append]
      refine ⟨ascend, ascendToo, fun older memberOld newer memberNew => ?_⟩
      obtain ⟨old, listed, rfl⟩ := List.mem_map.mp memberOld
      obtain ⟨new, listedToo, rfl⟩ := List.mem_map.mp memberNew
      exact Nat.lt_of_lt_of_le (facts old listed).2.2.lt_size (factsToo new listedToo).1
    · intro charge member
      rcases List.mem_append.mp member with old | new
      · obtain ⟨recent, label, task⟩ := facts charge old
        exact ⟨recent, late.later.labelOf? label, late.later.hasTask task⟩
      · obtain ⟨recent, label, task⟩ := factsToo charge new
        exact ⟨Nat.le_trans early.later.effects recent, label, task⟩
  listeners := by rw [late.listeners, early.listeners, List.countP_append, Nat.add_assoc]

/-- A change without effects may add a listener. -/
theorem quietly (later : world.Later after)
    (others : ∀ id : Nat, id < limit → id ∉ own → after.forest.node? id = world.forest.node? id)
    (contents : ∀ id : Nat, id < limit → id ∉ visited →
      after.forest.content? id = world.forest.content? id)
    (same : bound.effects = bindings.effects) (none : found.filterMap Finding.effect? = [])
    (added : bound.listeners = bindings.listeners + found.countP Finding.isListener) :
    world.Scans limit own visited found bindings bound after where
  later := later
  others := others
  contents := contents
  charges := ⟨[], by rw [same]; exact (List.append_nil _).symm, none.symm, .nil,
    fun _ impossible => by cases impossible⟩
  listeners := added

/-- One effect was registered, and it is the latest one so far. -/
theorem registered {label : String} {task : Task} (later : (world.withEffect label task []).Later after)
    (others : ∀ id : Nat, id < limit → id ∉ own → after.forest.node? id = world.forest.node? id)
    (contents : ∀ id : Nat, id < limit → id ∉ visited →
      after.forest.content? id = world.forest.content? id)
    (same : bound.effects = bindings.effects ++ [world.graph.effects.size])
    (one : found.filterMap Finding.effect? = [(label, task)])
    (added : bound.listeners = bindings.listeners + found.countP Finding.isListener) :
    world.Scans limit own visited found bindings bound after where
  later := (Lasting.later_withEffect label task [] world).trans later
  others := others
  contents := contents
  charges := by
    refine ⟨[(world.graph.effects.size, label, task)], same, one.symm, List.pairwise_singleton _ _, ?_⟩
    intro charge member
    cases List.mem_singleton.mp member
    have labelled : (world.withEffect label task []).labelOf? world.graph.effects.size = some label :=
      Option.map_eq_some_iff.mpr ⟨_, effect?_withEffect world label task, rfl⟩
    exact ⟨Nat.le_refl _, later.labelOf? labelled,
      later.hasTask (hasTask_withEffect world label task [])⟩
  listeners := added

end Scans

end World

/-- An element has been bound to some of its attributes. -/
structure Element.Partly (state : TargetId) (id : NodeId) (element : Element Handler)
    (done : List (String × String)) (now : Element Handler) : Prop where
  tag : now.tag = element.tag
  attributes : now.attributes = Markup.remaining element.tag done element.attributes
  listeners : now.listeners = element.listeners ++
    (done.flatMap (element.findings state id)).filterMap (Finding.handlerAt? id)
  value : now.value = element.value ∨ ∃ entry ∈ done, Directive.ofName? entry.1 = some .model

namespace Element.Partly

variable {state : TargetId} {id : NodeId} {element now : Element Handler} {done : List (String × String)}
  {entry : String × String}

theorem start (state : TargetId) (id : NodeId) (element : Element Handler) :
    element.Partly state id [] element where
  tag := rfl
  attributes := (Markup.remaining_nil _ _).symm
  listeners := (List.append_nil _).symm
  value := Or.inl rfl

/-- An attribute that binds nothing is passed over. -/
theorem stays (partly : element.Partly state id done now)
    (stays : (Directive.ofName? entry.1).any (·.leaves element.tag) = false)
    (none : element.findings state id entry = []) : element.Partly state id (done ++ [entry]) now where
  tag := partly.tag
  attributes := partly.attributes.trans (Markup.remaining_stays stays).symm
  listeners := by
    rw [partly.listeners, List.flatMap_append, List.flatMap_singleton, none, List.append_nil]
  value := partly.value.imp_right fun ⟨other, member, model⟩ =>
    ⟨other, List.mem_append_left _ member, model⟩

/-- An attribute that binds something leaves, and the element hears what is to be heard. -/
theorem leaves {value : Option String} (partly : element.Partly state id done now)
    (leaves : (Directive.ofName? entry.1).any (·.leaves element.tag) = true)
    (valued : value = now.value ∨ Directive.ofName? entry.1 = some .model) :
    element.Partly state id (done ++ [entry]) {
      tag := now.tag
      attributes := now.attributes.erase entry.1
      value
      listeners := now.listeners ++
        (element.findings state id entry).filterMap (Finding.handlerAt? id) } where
  tag := partly.tag
  attributes := by
    rw [Markup.remaining_leaves leaves, partly.attributes]
  listeners := by
    rw [partly.listeners, List.flatMap_append, List.flatMap_singleton, List.filterMap_append,
      List.append_assoc]
  value := by
    rcases valued with same | model
    · rw [same]
      exact partly.value.imp_right fun ⟨other, member, model⟩ =>
        ⟨other, List.mem_append_left _ member, model⟩
    · exact Or.inr ⟨entry, List.mem_append_right _ (List.mem_singleton_self _), model⟩

end Element.Partly

namespace Forest

/-- An element below a limit has been bound to some of its attributes. It lets its children go for its text
only. -/
def Wears (forest : Forest Handler) (limit : Nat) (state : TargetId) (id : NodeId)
    (parent : Option NodeId) (children : List NodeId) (element : Element Handler)
    (done : List (String × String)) : Prop :=
  ∃ now inner, forest.node? id = some { content := .element now, parent, children := inner } ∧
    element.Partly state id done now ∧ (∀ child ∈ inner, child ∈ children ∨ limit ≤ child) ∧
    ((∀ entry ∈ done, Directive.ofName? entry.1 ≠ some .text) → inner = children)

/-- A node gets a text, unless it stays as it was. -/
def Shown (id : NodeId) (before after : Forest Handler) : Prop :=
  after = before ∨ ∃ text, after = before.setTextContent id text

/-- An element gets a value, unless it stays as it was. -/
def Valued (id : NodeId) (before after : Forest Handler) : Prop :=
  after = before ∨ ∃ text, after = before.setValue id text

variable {before after forest : Forest Handler} {id : NodeId} {parent : Option NodeId} {children inner own : List NodeId}
  {element now : Element Handler} {limit : Nat} {state : TargetId} {done : List (String × String)}
  {entry : String × String}

/-- An attribute that binds nothing is passed over. -/
theorem Wears.stays (wears : forest.Wears limit state id parent children element done)
    (stays : (Directive.ofName? entry.1).any (·.leaves element.tag) = false)
    (none : element.findings state id entry = []) :
    forest.Wears limit state id parent children element (done ++ [entry]) := by
  obtain ⟨now, inner, found, partly, bounded, silence⟩ := wears
  refine ⟨now, inner, found, partly.stays stays none, bounded, fun silent => silence fun other member => ?_⟩
  exact silent other (List.mem_append_left _ member)

/-- An attribute by which the element hears something leaves. -/
theorem Wears.hears {value : Option String} {kind : String} {handler : Handler}
    (partly : element.Partly state id done now) (bounded : ∀ child ∈ inner, child ∈ children ∨ limit ≤ child)
    (silence : (∀ entry ∈ done, Directive.ofName? entry.1 ≠ some .text) → inner = children)
    (found : forest.node? id = some { content := .element {
      tag := now.tag
      attributes := now.attributes.erase entry.1
      value
      listeners := now.listeners ++ [(kind, handler)] }, parent, children := inner })
    (leaves : (Directive.ofName? entry.1).any (·.leaves element.tag) = true)
    (valued : value = now.value ∨ Directive.ofName? entry.1 = some .model)
    (heard : (element.findings state id entry).filterMap (Finding.handlerAt? id) = [(kind, handler)]) :
    forest.Wears limit state id parent children element (done ++ [entry]) := by
  have worn := partly.leaves leaves valued
  rw [heard] at worn
  refine ⟨_, inner, found, worn, bounded, fun silent => silence fun other member => ?_⟩
  exact silent other (List.mem_append_left _ member)

theorem Shown.keeps (shown : before.Shown id after)
    (found : before.node? id = some { content := .element element, parent, children })
    (apart : id ∉ children) :
    (∃ inner, after.node? id = some { content := .element element, parent, children := inner } ∧
      ∀ child ∈ inner, child ∈ children ∨ before.size ≤ child) ∧
    (∀ other : Nat, other < before.size → other ≠ id → other ∉ children →
      after.node? other = before.node? other) ∧
    ∀ other : Nat, other < before.size → after.content? other = before.content? other := by
  rcases shown with rfl | ⟨text, rfl⟩
  · exact ⟨⟨children, found, fun _ member => Or.inl member⟩, fun _ _ _ _ => rfl, fun _ _ => rfl⟩
  · obtain ⟨⟨inner, here, new⟩, others⟩ := node?_setTextContent_element found apart text
    exact ⟨⟨inner, here, fun child member => Or.inr (new child member)⟩, others,
      fun other known => content?_setTextContent_element found known text⟩

theorem Shown.text {old : String} (shown : before.Shown id after)
    (found : before.node? id = some { content := .text old, parent, children }) :
    (∃ text, after.node? id = some { content := .text text, parent, children }) ∧
    ∀ other, other ≠ id → after.node? other = before.node? other := by
  rcases shown with rfl | ⟨text, rfl⟩
  · exact ⟨⟨old, found⟩, fun _ _ => rfl⟩
  · obtain ⟨here, others⟩ := node?_setTextContent_text found text
    exact ⟨⟨text, here⟩, others⟩

theorem Valued.keeps (valued : before.Valued id after)
    (found : before.node? id = some { content := .element element, parent, children }) :
    (∃ value, after.node? id =
      some { content := .element { element with value }, parent, children }) ∧
    ∀ other, other ≠ id → after.node? other = before.node? other := by
  rcases valued with rfl | ⟨text, rfl⟩
  · exact ⟨⟨element.value, found⟩, fun _ _ => rfl⟩
  · obtain ⟨here, others⟩ := node?_modifyElement found fun element => { element with value := some text }
    exact ⟨⟨some text, here⟩, others⟩

theorem content?_of_node?_eq {other : NodeId} (same : after.node? other = before.node? other) :
    after.content? other = before.content? other := by
  unfold content?
  rw [same]

/-- Only one node was changed. -/
theorem kept_apart (kept : ∀ other, other ≠ id → after.node? other = before.node? other) (self : id ∈ own) :
    (∀ other : Nat, other < limit → other ∉ own → after.node? other = before.node? other) ∧
      ∀ other : Nat, other < limit → other ∉ [id] → after.content? other = before.content? other :=
  ⟨fun other _ away => kept other fun same => away (same ▸ self), fun other _ away =>
    content?_of_node?_eq (kept other fun same => away (same ▸ List.mem_singleton_self _))⟩

end Forest

namespace World

variable {run : Runner} {state : TargetId} {findings : List Finding} {origin world : World}

/-- A directive that leaves changes its element only. -/
theorem Comes.drops (comes : origin.Comes run state findings world) (id : NodeId) (name : String) :
    ∃ after, dropDirective id name world = .ok () after ∧ origin.Comes run state findings after ∧
      world.Later after ∧ after.forest = world.forest.removeAttribute id name := by
  refine ⟨_, rfl, comes.turned _ _ _ _, ?_, rfl⟩
  exact .of_same rfl rfl rfl rfl
    (Nat.le_of_eq (Forest.size_removeAttribute world.forest id name).symm) (List.suffix_cons _ _)

/-- An element hears something before the directive leaves that says so. -/
theorem Comes.hears (comes : origin.Comes run state findings world) {id : NodeId}
    {parent : Option NodeId} {children : List NodeId} {element : Element Handler}
    (found : world.forest.node? id = some { content := .element element, parent, children })
    (kind name : String) (handler : Handler) :
    ∃ heard after, modifyForest (·.listen id kind handler) world = .ok () heard ∧
      dropDirective id name heard = .ok () after ∧
      origin.Comes run state findings after ∧ world.Later after ∧
      after.forest.node? id = some { content := .element { element with
        attributes := element.attributes.erase name
        listeners := element.listeners ++ [(kind, handler)] }, parent, children } ∧
      ∀ other, other ≠ id → after.forest.node? other = world.forest.node? other := by
  obtain ⟨after, drops, final, dropping, forest⟩ :=
    (comes.turned (world.forest.listen id kind handler) world.holds world.notices world.deeds).drops
      id name
  have listening : world.Later { world with forest := world.forest.listen id kind handler } :=
    .of_forest world _ (Nat.le_of_eq (Forest.size_listen world.forest id kind handler).symm)
  obtain ⟨heard, others⟩ := Forest.node?_modifyElement found
    fun element => { element with listeners := element.listeners ++ [(kind, handler)] }
  obtain ⟨bared, rest⟩ := Forest.node?_modifyElement heard
    fun element => { element with attributes := element.attributes.erase name }
  refine ⟨_, after, rfl, drops, final, listening.trans dropping, ?_, fun other different => ?_⟩
  · rw [forest]
    exact bared
  · rw [forest]
    exact (rest other different).trans (others other different)

section Attributes

variable {depth limit : Nat} {id : NodeId} {parent : Option NodeId} {children own : List NodeId}
  {element : Element Handler} {done : List (String × String)} {entry : String × String}
  (harmless : origin.Harmless (runTo depth) state findings)
  (comes : origin.Comes (runTo depth) state findings world) (reachable : world.Reachable)
  (known : limit ≤ world.forest.size) (below : id < limit) (self : id ∈ own)
  (listed : ∀ finding ∈ element.findings state id entry, finding ∈ findings)
  (wears : world.forest.Wears limit state id parent children element done) (bindings : Bindings)
include harmless comes reachable known below self listed wears

/-- The effect of a text shows it before the directive leaves. -/
theorem scans_text (text : Directive.ofName? entry.1 = some .text) (apart : id ∉ children)
    (managed : ∀ child ∈ children, child ∈ own) :
    ∃ bound after, bindText (runTo (depth + 1)) state id entry.2 bindings world = .ok bound after ∧
      origin.Comes (runTo depth) state findings after ∧
      world.Scans limit own [id] (element.findings state id entry) bindings bound after ∧
      after.forest.Wears limit state id parent children element (done ++ [entry]) := by
  have finds : element.findings state id entry =
      [.effect ("v-text=\"" ++ entry.2 ++ "\"") (.textBinding state id entry.2)] := by
    unfold Element.findings
    rw [text]
  have member : .effect ("v-text=\"" ++ entry.2 ++ "\"") (.textBinding state id entry.2) ∈ findings :=
    listed _ (finds ▸ List.mem_singleton_self _)
  have source : entry.2 ∈ findings.flatMap Finding.sources :=
    List.mem_flatMap.mpr ⟨_, member, List.mem_singleton_self _⟩
  obtain ⟨shown, registers, reached, shows, later⟩ := shows_registerBinding (world.forest.Shown id) comes
    reachable member rfl (fun held holding guarded => harmless.evaluateText holding guarded source) (Or.inl rfl)
    fun value after evaluated same =>
      ⟨(), _, rfl, evaluated.turned _ _ _ _, Or.inr ⟨value, congrArg (·.setTextContent id value) same⟩⟩
  obtain ⟨now, inner, found, partly, bounded, -⟩ := wears
  have outside : id ∉ inner := fun member => (bounded id member).elim apart
    fun least => absurd below (Nat.not_lt.mpr least)
  obtain ⟨⟨held, here, new⟩, others, contents⟩ := shows.keeps found outside
  obtain ⟨after, drops, final, dropping, forest⟩ := reached.drops id "v-text"
  have named := Directive.ofName?_eq_text.mp text
  obtain ⟨bared, rest⟩ := Forest.node?_modifyElement here
    fun element => { element with attributes := element.attributes.erase "v-text" }
  have last : after.forest.node? id = some { content := .element { now with
      attributes := now.attributes.erase "v-text" }, parent, children := held } := by
    rw [forest]
    exact bared
  have dropped : ∀ other, other ≠ id → after.forest.node? other = shown.forest.node? other := by
    rw [forest]
    exact rest
  refine ⟨bindings.addEffect world.graph.effects.size, after, ?_, final, ?_, ?_⟩
  · exact (bind_of_ok registers).trans (bind_of_ok drops)
  · refine .registered (later.trans dropping) ?_ ?_ rfl (by rw [finds]; rfl) (by rw [finds]; rfl)
    · intro other small away
      have different : other ≠ id := fun same => away (same ▸ self)
      refine (dropped other different).trans (others other (Nat.lt_of_lt_of_le small known) different ?_)
      exact fun member => (bounded other member).elim (fun child => away (managed other child))
        fun least => absurd small (Nat.not_lt.mpr least)
    · intro other small away
      have different : other ≠ id := fun same => away (same ▸ List.mem_singleton_self _)
      exact (Forest.content?_of_node?_eq (dropped other different)).trans
        (contents other (Nat.lt_of_lt_of_le small known))
  · have leaves : (Directive.ofName? entry.1).any (·.leaves element.tag) = true := by
      rw [text]
      rfl
    have worn := partly.leaves leaves (Or.inl (rfl : now.value = now.value))
    have none : (element.findings state id entry).filterMap (Finding.handlerAt? id) = [] := by
      rw [finds]
      rfl
    rw [none, List.append_nil, named] at worn
    refine ⟨_, held, last, worn, ?_, fun silent => ?_⟩
    · intro child member
      rcases new child member with old | least
      · exact bounded child old
      · exact Or.inr (Nat.le_trans known least)
    · exact absurd text (silent entry (List.mem_append_right _ (List.mem_singleton_self _)))

omit harmless reachable known below listed self in
/-- A model is left alone on an element without a value. -/
theorem scans_valueless (model : Directive.ofName? entry.1 = some .model)
    (bearing : world.forest.isValueBearing id = valueTags.contains element.tag)
    (bears : ¬ valueTags.contains element.tag = true) :
    ∃ bound after, bindModel (runTo (depth + 1)) state id entry.2 bindings world = .ok bound after ∧
      origin.Comes (runTo depth) state findings after ∧
      world.Scans limit own [id] (element.findings state id entry) bindings bound after ∧
      after.forest.Wears limit state id parent children element (done ++ [entry]) := by
  have none : element.findings state id entry = [] := by
    unfold Element.findings
    rw [model]
    exact if_neg bears
  have stays : (Directive.ofName? entry.1).any (·.leaves element.tag) = false := by
    rw [model]
    exact Bool.eq_false_iff.mpr bears
  refine ⟨bindings, world.note (.modelWithoutValue entry.2 ((world.forest.tag? id).getD "")), ?_,
    comes.turned _ _ _ _, ?_, wears.stays stays none⟩
  · unfold bindModel
    rw [get_bind]
    dsimp only
    rw [bearing, if_neg bears]
    rfl
  · rw [none]
    exact .quietly (World.later_note world _) (fun _ _ _ => rfl) (fun _ _ _ => rfl) rfl rfl rfl

omit known below in
/-- The effect of a model gives its element a value before the element listens. -/
theorem scans_valued (model : Directive.ofName? entry.1 = some .model)
    (bearing : world.forest.isValueBearing id = valueTags.contains element.tag)
    (bears : valueTags.contains element.tag = true) :
    ∃ bound after, bindModel (runTo (depth + 1)) state id entry.2 bindings world = .ok bound after ∧
      origin.Comes (runTo depth) state findings after ∧
      world.Scans limit own [id] (element.findings state id entry) bindings bound after ∧
      after.forest.Wears limit state id parent children element (done ++ [entry]) := by
  let key := Text.trimString entry.2
  let numeric := isNumericType (element.attributes.get? "type")
  have finds : element.findings state id entry =
      [.effect ("v-model=\"" ++ key ++ "\"") (.valueBinding state id key),
        .listener id "input" (.storeInput state key numeric)] := by
    unfold Element.findings
    rw [model]
    exact if_pos bears
  have member : .effect ("v-model=\"" ++ key ++ "\"") (.valueBinding state id key) ∈ findings :=
    listed _ (finds ▸ List.mem_cons_self)
  have source : key ∈ findings.flatMap Finding.sources :=
    List.mem_flatMap.mpr ⟨_, member, List.mem_singleton_self _⟩
  obtain ⟨shown, registers, reached, shows, later⟩ := shows_registerBinding (world.forest.Valued id) comes
    reachable member rfl (fun held holding guarded => harmless.evaluateText holding guarded source) (Or.inl rfl)
    fun value after evaluated same => Returns.asks (by
      split
      · exact ⟨(), _, rfl, evaluated.turned _ _ _ _, Or.inr ⟨value, congrArg (·.setValue id value) same⟩⟩
      · exact .pure ⟨evaluated, Or.inl same⟩)
  obtain ⟨now, inner, found, partly, bounded, silence⟩ := wears
  obtain ⟨⟨value, valued⟩, others⟩ := shows.keeps found
  obtain ⟨listening, after, listens, drops, final, dropping, last, rest⟩ :=
    reached.hears valued "input" "v-model" (.storeInput state key numeric)
  have typed : isNumericType (shown.forest.attribute? id "type") = numeric := by
    have plain : Directive.ofName? "type" = none := by decide
    have attributes : shown.forest.attributes id = now.attributes := by
      unfold Forest.attributes
      rw [Forest.element?_of_node? valued]
      rfl
    unfold Forest.attribute?
    rw [attributes, partly.attributes]
    exact congrArg isNumericType (Markup.get?_remaining plain)
  have kept : ∀ other, other ≠ id → after.forest.node? other = world.forest.node? other :=
    fun other different => (rest other different).trans (others other different)
  obtain ⟨links, contents⟩ := Forest.kept_apart kept self
  refine ⟨(bindings.addEffect world.graph.effects.size).addListener, after, ?_, final, ?_, ?_⟩
  · unfold bindModel
    rw [get_bind]
    dsimp only
    rw [bearing, if_pos bears, bind_of_ok registers, get_bind, typed, bind_of_ok listens]
    exact bind_of_ok drops
  · exact .registered (later.trans dropping) links contents rfl (by rw [finds]; rfl) (by rw [finds]; rfl)
  · have leaves : (Directive.ofName? entry.1).any (·.leaves element.tag) = true := by
      rw [model]
      exact bears
    have heard : (element.findings state id entry).filterMap (Finding.handlerAt? id) =
        [("input", .storeInput state key numeric)] := by
      rw [finds]
      exact congrArg Option.toList (if_pos rfl)
    rw [← Directive.eq_of_ofName?_model model] at last
    exact .hears partly bounded silence last leaves (Or.inr model) heard

omit known below in
theorem scans_model (model : Directive.ofName? entry.1 = some .model) :
    ∃ bound after, bindModel (runTo (depth + 1)) state id entry.2 bindings world = .ok bound after ∧
      origin.Comes (runTo depth) state findings after ∧
      world.Scans limit own [id] (element.findings state id entry) bindings bound after ∧
      after.forest.Wears limit state id parent children element (done ++ [entry]) := by
  have bearing : world.forest.isValueBearing id = valueTags.contains element.tag := by
    obtain ⟨now, inner, found, partly, -⟩ := wears
    have here : world.forest.element? id = some now := Forest.element?_of_node? found
    unfold Forest.isValueBearing Forest.tag?
    rw [here, ← partly.tag]
    rfl
  by_cases bears : valueTags.contains element.tag = true
  · exact scans_valued harmless comes reachable self listed wears bindings model bearing bears
  · exact scans_valueless comes wears bindings model bearing bears

omit harmless reachable known below listed in
/-- An event without a name is left alone. -/
theorem scans_event {kind : String} (event : Directive.ofName? entry.1 = some (.event kind)) :
    ∃ bound after, bindEvent state id entry.1 kind entry.2 bindings world = .ok bound after ∧
      origin.Comes (runTo depth) state findings after ∧
      world.Scans limit own [id] (element.findings state id entry) bindings bound after ∧
      after.forest.Wears limit state id parent children element (done ++ [entry]) := by
  by_cases empty : kind = ""
  · have none : element.findings state id entry = [] := by
      unfold Element.findings
      rw [event]
      exact if_pos empty
    have stays : (Directive.ofName? entry.1).any (·.leaves element.tag) = false := by
      rw [event, empty]
      rfl
    refine ⟨bindings, world.note (.eventNameMissing entry.1), ?_, comes.turned _ _ _ _, ?_, wears.stays stays none⟩
    · unfold bindEvent
      rw [if_pos empty]
      rfl
    · rw [none]
      exact .quietly (World.later_note world _) (fun _ _ _ => rfl) (fun _ _ _ => rfl) rfl rfl rfl
  · have finds : element.findings state id entry = [.listener id kind (.evaluate state entry.2)] := by
      unfold Element.findings
      rw [event]
      exact if_neg empty
    obtain ⟨now, inner, found, partly, bounded, silence⟩ := wears
    obtain ⟨listening, after, listens, drops, final, dropping, last, rest⟩ :=
      comes.hears found kind entry.1 (.evaluate state entry.2)
    obtain ⟨links, contents⟩ := Forest.kept_apart rest self
    refine ⟨bindings.addListener, after, ?_, final, ?_, ?_⟩
    · unfold bindEvent
      rw [if_neg empty, bind_of_ok listens]
      exact bind_of_ok drops
    · exact .quietly dropping links contents rfl (by rw [finds]; rfl) (by rw [finds]; rfl)
    · have leaves : (Directive.ofName? entry.1).any (·.leaves element.tag) = true := by
        rw [event]
        exact bne_iff_ne.mpr empty
      have heard : (element.findings state id entry).filterMap (Finding.handlerAt? id) =
          [(kind, .evaluate state entry.2)] := by
        rw [finds]
        exact congrArg Option.toList (if_pos rfl)
      exact .hears partly bounded silence last leaves (Or.inl rfl) heard

/-- One more attribute has been bound. -/
theorem scans_attribute (apart : id ∉ children)
    (managed : Directive.ofName? entry.1 = some .text → ∀ child ∈ children, child ∈ own) :
    ∃ bound after,
      bindAttribute (runTo (depth + 1)) state id entry.1 entry.2 bindings world = .ok bound after ∧
      origin.Comes (runTo depth) state findings after ∧
      world.Scans limit own [id] (element.findings state id entry) bindings bound after ∧
      after.forest.Wears limit state id parent children element (done ++ [entry]) := by
  unfold bindAttribute
  cases directive : Directive.ofName? entry.1 with
  | none =>
      have none : element.findings state id entry = [] := by
        unfold Element.findings
        rw [directive]
      exact ⟨bindings, world, rfl, comes, none ▸ .refl world, wears.stays (by rw [directive]; rfl) none⟩
  | some directed =>
      cases directed with
      | text =>
          exact scans_text harmless comes reachable known below self listed wears bindings directive apart
            (managed directive)
      | model => exact scans_model harmless comes reachable self listed wears bindings directive
      | event kind => exact scans_event comes self wears bindings directive

omit listed wears in
/-- All attributes of an element are bound in order. -/
theorem scans_attributes {rest : List (String × String)} (apart : id ∉ children)
    (managed : ∀ entry ∈ rest, Directive.ofName? entry.1 = some .text → ∀ child ∈ children, child ∈ own)
    (listed : ∀ entry ∈ rest, ∀ finding ∈ element.findings state id entry, finding ∈ findings)
    (wears : world.forest.Wears limit state id parent children element done) :
    ∃ bound after, bindAttributes (runTo (depth + 1)) state id rest bindings world = .ok bound after ∧
      origin.Comes (runTo depth) state findings after ∧
      world.Scans limit own [id] (rest.flatMap (element.findings state id)) bindings bound after ∧
      after.forest.Wears limit state id parent children element (done ++ rest) := by
  induction rest generalizing done bindings world with
  | nil => exact ⟨bindings, world, rfl, comes, .refl world, (List.append_nil done).symm ▸ wears⟩
  | cons entry rest inductionHypothesis =>
      obtain ⟨middle, between, first, reached, early, worn⟩ := scans_attribute harmless comes reachable
        known below self (listed entry List.mem_cons_self) wears bindings apart
        (managed entry List.mem_cons_self)
      obtain ⟨bound, after, others, final, late, all⟩ := inductionHypothesis reached
        (early.later.reachable reachable) (Nat.le_trans known early.later.nodes) middle
        (fun other member => managed other (List.mem_cons_of_mem _ member))
        (fun other member => listed other (List.mem_cons_of_mem _ member)) worn
      refine ⟨bound, after, (bind_of_ok first).trans others, final, ?_, ?_⟩
      · rw [List.flatMap_cons]
        exact early.trans late
      · rwa [List.append_assoc] at all

end Attributes

/-- A text was bound if there is something to interpolate. -/
theorem scans_textNode {depth limit : Nat} {id : NodeId} {parent : Option NodeId} {children own : List NodeId}
    {old : String} (harmless : origin.Harmless (runTo depth) state findings)
    (comes : origin.Comes (runTo depth) state findings world) (reachable : world.Reachable) (self : id ∈ own)
    (listed : ∀ finding ∈ (Content.text old).findings state id, finding ∈ findings)
    (found : world.forest.node? id = some { content := .text old, parent, children }) (bindings : Bindings) :
    ∃ bound after, bindInterpolation (runTo (depth + 1)) state id bindings world = .ok bound after ∧
      origin.Comes (runTo depth) state findings after ∧
      world.Scans limit own [id] ((Content.text old).findings state id) bindings bound after ∧
      ∃ now, after.forest.node? id = some { content := now, parent, children } ∧
        (Content.text old).Bound state id now := by
  let label := "\x7b\x7b \x7d\x7d in " ++ Text.quoted (Text.trimString old)
  have here : world.forest.textContent id = old := by
    unfold Forest.textContent Forest.content?
    rw [found]
    rfl
  have unbound : bindInterpolation (runTo (depth + 1)) state id bindings world =
      (if Interpolation.hasSpan old then do
        let effect ← Live.registerEffect (runTo (depth + 1)) label (.interpolation state id old) []
        Pure.pure (bindings.addEffect effect)
      else Pure.pure bindings : Live Bindings) world := by
    unfold bindInterpolation
    rw [get_bind]
    dsimp only
    rw [here]
  by_cases span : Interpolation.hasSpan old = true
  · rw [if_pos span] at unbound
    have finds : (Content.text old).findings state id = [.effect label (.interpolation state id old)] := if_pos span
    have member : .effect label (.interpolation state id old) ∈ findings :=
      listed _ (finds ▸ List.mem_singleton_self _)
    have sources : ∀ source, .expression source ∈ Interpolation.segments old.toList →
        String.ofList source ∈ findings.flatMap Finding.sources := fun source segment =>
      List.mem_flatMap.mpr ⟨_, member, List.mem_filterMap.mpr ⟨_, segment, rfl⟩⟩
    obtain ⟨after, registers, final, shows, later⟩ := shows_registerBinding (world.forest.Shown id) comes
      reachable member rfl (fun held holding guarded => harmless.interpolate sources holding guarded) (Or.inl rfl)
      fun value after evaluated same =>
        ⟨(), _, rfl, evaluated.turned _ _ _ _, Or.inr ⟨value, congrArg (·.setTextContent id value) same⟩⟩
    obtain ⟨⟨new, last⟩, others⟩ := shows.text found
    obtain ⟨links, contents⟩ := Forest.kept_apart others self
    refine ⟨bindings.addEffect world.graph.effects.size, after, unbound.trans (bind_of_ok registers), final, ?_,
      _, last, .shown old new span⟩
    exact .registered later links contents rfl (by rw [finds]; rfl) (by rw [finds]; rfl)
  · rw [if_neg span] at unbound
    have none : (Content.text old).findings state id = [] := if_neg span
    exact ⟨bindings, world, unbound, comes, none ▸ .refl world, _, found, .text old (Bool.eq_false_iff.mpr span)⟩

/-- One node was bound. It keeps its parent, and its children unless it has let them go for its text. -/
theorem scans_node {depth limit : Nat} {id : NodeId} {parent : Option NodeId} {children own : List NodeId}
    {content : Content Handler} (harmless : origin.Harmless (runTo depth) state findings)
    (comes : origin.Comes (runTo depth) state findings world) (reachable : world.Reachable)
    (known : limit ≤ world.forest.size) (below : id < limit) (self : id ∈ own) (apart : id ∉ children)
    (managed : content.owns = true → ∀ child ∈ children, child ∈ own)
    (listed : ∀ finding ∈ content.findings state id, finding ∈ findings)
    (found : world.forest.node? id = some { content, parent, children }) (bindings : Bindings) :
    ∃ bound after, bindNode (runTo (depth + 1)) state id bindings world = .ok (bound, content.owns) after ∧
      origin.Comes (runTo depth) state findings after ∧
      world.Scans limit own [id] (content.findings state id) bindings bound after ∧
      ∃ now inner, after.forest.node? id = some { content := now, parent, children := inner } ∧
        content.Bound state id now ∧ (content.owns = false → inner = children) := by
  have here : world.forest.content? id = some content := by
    unfold Forest.content?
    rw [found]
    rfl
  unfold bindNode
  rw [get_bind, here]
  cases content with
  | element element =>
      have silent : ∀ entry ∈ element.attributes, Directive.ofName? entry.1 = some .text →
          (Content.element element).owns = true := fun entry member text =>
        List.any_eq_true.mpr ⟨entry, member, decide_eq_true text⟩
      obtain ⟨bound, after, binds, final, scans, worn⟩ := scans_attributes harmless comes reachable known below
        self bindings apart (fun entry member text => managed (silent entry member text))
        (fun entry member finding finds => listed finding (List.mem_flatMap.mpr ⟨entry, member, finds⟩))
        ⟨element, children, found, .start state id element, fun _ member => Or.inl member, fun _ => rfl⟩
      obtain ⟨now, inner, last, partly, -, silence⟩ := worn
      refine ⟨bound, after, bind_of_ok binds, final, scans, _, inner, last, ?_, fun free => ?_⟩
      · have bared := partly.attributes
        rw [List.nil_append, Markup.remaining_self] at bared
        have same : now = ⟨now.tag, now.attributes, now.value, now.listeners⟩ := rfl
        rw [same, partly.tag, bared, partly.listeners]
        exact .element element now.value partly.value
      · refine silence fun entry member text => ?_
        rw [silent entry member text] at free
        cases free
  | text old =>
      obtain ⟨bound, after, binds, final, scans, now, last, content⟩ :=
        scans_textNode harmless comes reachable self listed found bindings
      exact ⟨bound, after, bind_of_ok binds, final, scans, now, children, last, content, fun _ => rfl⟩
  | comment old => exact ⟨bindings, world, rfl, comes, .refl world, _, children, found, .comment old, fun _ => rfl⟩
  | fragment => exact ⟨bindings, world, rfl, comes, .refl world, _, children, found, .fragment, fun _ => rfl⟩

end World

end LiveMarkup
