import LiveMarkup.Proofs.Display
import LiveMarkup.Proofs.Wiring

/-
This file says what it means that a part of a tree was bound, and shows it for the attributes of an
element: directives leave the element, and the effects that they register serve its site and its input.
-/

namespace LiveMarkup

open Live

namespace Spot

def site? : Spot → Option Site
  | .fixed _ _ => none
  | .bound site => some site

end Spot

/-- An effect that was registered by a binding serves a site, or else an input. -/
structure Charge where
  effect : EffectId
  label : String
  site : Option Site

/-- A binding serves these sites by effects with these labels, adds so many listeners, and wires elements
to its state. -/
structure Yield where
  sites : List Site
  labels : List String
  listeners : Nat
  wires : List Wire

namespace Yield

def none : Yield := ⟨[], [], 0, []⟩

def add (first second : Yield) : Yield :=
  ⟨first.sites ++ second.sites, first.labels ++ second.labels, first.listeners + second.listeners,
    first.wires ++ second.wires⟩

theorem add_none (yield : Yield) : yield.add .none = yield := by
  simp only [add, none, List.append_nil, Nat.add_zero]

end Yield

namespace World

/-- An effect endures, has its label, and depends on all that its site reads. -/
structure Fulfils (world : World) (state : TargetId) (store : Store) (charge : Charge) : Prop where
  endures : world.Endures charge.effect
  label : world.labelOf? charge.effect = some charge.label
  input : charge.site = none → world.HasInput state charge.effect
  task : ∀ site, charge.site = some site → world.HasTask charge.effect (site.task state)
  depends : ∀ site, charge.site = some site → ∀ name ∈ (site.seen store).1,
    world.Depends charge.effect ⟨state, .named name⟩

/-- Nodes from one number up to another one were bound. Effects were registered for their sites and
inputs and for nothing else, and other spots show what they showed. -/
structure Binds (state : TargetId) (store : Store) (limit low high : Nat) (yield : Yield)
    (bindings bound : Bindings) (before after : World) : Prop where
  gentle : before.Gentle state after
  keeps : ∀ shown (spot : Spot), spot.node < limit → spot.node < low ∨ high ≤ spot.node →
    before.forest.Shows limit shown spot → after.forest.Shows limit shown spot
  charges : ∃ charges : List Charge, bound.effects = bindings.effects ++ charges.map Charge.effect ∧
    charges.filterMap Charge.site = yield.sites ∧ charges.map Charge.label = yield.labels ∧
    ∀ charge ∈ charges,
      after.Fulfils state store charge ∧ before.graph.effects.size ≤ charge.effect
  listeners : bound.listeners = bindings.listeners + yield.listeners
  known : ∀ id, before.graph.effects.size ≤ id → id < after.graph.effects.size → id ∈ bound.effects
  wired : before.Wired state store yield.wires after

variable {state : TargetId} {store : Store} {guard : Hold} {limit low high : Nat}
  {yield more : Yield} {bindings middle bound : Bindings} {first second third : World}

theorem Fulfils.later {charge : Charge} (fulfils : first.Fulfils state store charge)
    (gentle : first.Gentle state second) (alive : second.isAlive state = true) :
    second.Fulfils state store charge where
  endures := fulfils.endures.later gentle
  label := gentle.later.labelOf? fulfils.label
  input none := (fulfils.input none).later gentle.later
  task site serves := gentle.later.hasTask (fulfils.task site serves)
  depends site serves name listed := gentle.depends (fulfils.depends site serves name listed) alive

namespace Binds

theorem refl (world : World) : world.Binds state store limit low high .none bindings bindings world where
  gentle := .refl state world
  keeps _ _ _ _ shows := shows
  charges := ⟨[], (List.append_nil _).symm, rfl, rfl, fun _ impossible => by cases impossible⟩
  listeners := rfl
  known _ least most := absurd (Nat.lt_of_lt_of_le most least) (Nat.lt_irrefl _)
  wired := .refl world

theorem widen {lower higher : Nat} (binds : first.Binds state store limit low high yield bindings bound second)
    (below : lower ≤ low) (beyond : high ≤ higher) :
    first.Binds state store limit lower higher yield bindings bound second where
  gentle := binds.gentle
  keeps shown spot small away := binds.keeps shown spot small
    (away.imp (fun less => Nat.lt_of_lt_of_le less below) fun more => Nat.le_trans beyond more)
  charges := binds.charges
  listeners := binds.listeners
  known := binds.known
  wired := binds.wired

theorem trans (early : first.Binds state store limit low high yield bindings middle second)
    (late : second.Binds state store limit low high more middle bound third)
    (offers : second.Offers state store guard) :
    first.Binds state store limit low high (yield.add more) bindings bound third where
  gentle := early.gentle.trans late.gentle
  keeps shown spot small away shows := late.keeps shown spot small away
    (early.keeps shown spot small away shows)
  charges := by
    have alive := (offers.later late.gentle).guarded.alive
    obtain ⟨charges, added, serve, labelled, fulfil⟩ := early.charges
    obtain ⟨others, appended, serveToo, labelledToo, fulfilToo⟩ := late.charges
    refine ⟨charges ++ others, ?_, ?_, ?_, ?_⟩
    · rw [appended, added, List.map_append, List.append_assoc]
    · rw [List.filterMap_append, serve, serveToo]
      rfl
    · rw [List.map_append, labelled, labelledToo]
      rfl
    · intro charge member
      rcases List.mem_append.mp member with old | new
      · obtain ⟨fulfils, recent⟩ := fulfil charge old
        exact ⟨fulfils.later late.gentle alive, recent⟩
      · obtain ⟨fulfils, recent⟩ := fulfilToo charge new
        exact ⟨fulfils, Nat.le_trans early.gentle.later.effects recent⟩
  listeners := by
    rw [late.listeners, early.listeners, Nat.add_assoc]
    rfl
  known id least most := by
    by_cases old : id < second.graph.effects.size
    · obtain ⟨others, appended, -⟩ := late.charges
      rw [appended]
      exact List.mem_append_left _ (early.known id least old)
    · exact late.known id (Nat.le_of_not_lt old) most
  wired := early.wired.trans late.wired early.gentle late.gentle (offers.later late.gentle).guarded.alive

/-- A change of nodes that belong to the range concerns no other spot. -/
theorem of_shapes (own : NodeId → Prop) (gentle : first.Gentle state second)
    (others : ∀ other : Nat, other < first.forest.size → ¬ own other →
      second.forest.shape? other = first.forest.shape? other)
    (within : ∀ node : Nat, own node → low ≤ node ∧ node < high) (small : high ≤ limit)
    (charges : ∃ charges : List Charge,
      bound.effects = bindings.effects ++ charges.map Charge.effect ∧
      charges.filterMap Charge.site = yield.sites ∧ charges.map Charge.label = yield.labels ∧
      ∀ charge ∈ charges,
        second.Fulfils state store charge ∧ first.graph.effects.size ≤ charge.effect)
    (listeners : bound.listeners = bindings.listeners + yield.listeners)
    (known : ∀ id, first.graph.effects.size ≤ id → id < second.graph.effects.size → id ∈ bound.effects)
    (wired : first.Wired state store yield.wires second) :
    first.Binds state store limit low high yield bindings bound second where
  gentle := gentle
  charges := charges
  listeners := listeners
  known := known
  wired := wired
  keeps shown spot inside away shows := by
    have known : spot.node < first.forest.size := by
      cases spot with
      | fixed id shape => exact Forest.lt_size_of_shape? shows
      | bound site =>
          obtain ⟨id, parent, form⟩ := site
          cases form with
          | interpolation source => exact Forest.lt_size_of_shape? shows
          | content tag attributes source =>
              obtain ⟨_, -, found⟩ := shows
              exact Forest.lt_size_of_shape? found
    apply Forest.shows_of_shapes (others spot.node known _) _ shows
    · intro owned
      obtain ⟨least, most⟩ := within _ owned
      omega
    · intro child parented _ late
      refine others child (Forest.lt_size_of_parent? parented) fun owned => ?_
      have most := (within _ owned).2
      exact absurd (Nat.lt_of_lt_of_le most small) (Nat.not_lt.mpr late)

/-- A change without effects may add listeners. -/
theorem quietly {listeners : Nat} {wires : List Wire} (own : NodeId → Prop) (gentle : first.Gentle state second)
    (others : ∀ other : Nat, other < first.forest.size → ¬ own other →
      second.forest.shape? other = first.forest.shape? other)
    (within : ∀ node : Nat, own node → low ≤ node ∧ node < high) (small : high ≤ limit)
    (same : bound.effects = bindings.effects) (added : bound.listeners = bindings.listeners + listeners)
    (none : second.graph.effects.size = first.graph.effects.size)
    (wired : first.Wired state store wires second) :
    first.Binds state store limit low high ⟨[], [], listeners, wires⟩ bindings bound second :=
  of_shapes own gentle others within small
    ⟨[], by rw [same]; exact (List.append_nil _).symm, rfl, rfl, fun _ impossible => by cases impossible⟩
    added (fun _ least most => absurd (Nat.lt_of_lt_of_le (none ▸ most) least) (Nat.lt_irrefl _)) wired

/-- One new effect is added to the bindings. -/
theorem mem_addEffect (bindings : Bindings) {id : EffectId}
    (new : second.graph.effects.size = first.graph.effects.size + 1)
    (least : first.graph.effects.size ≤ id) (most : id < second.graph.effects.size) :
    id ∈ (bindings.addEffect first.graph.effects.size).effects := by
  rw [new] at most
  have same : id = first.graph.effects.size := Nat.le_antisymm (Nat.le_of_lt_succ most) least
  rw [same]
  exact List.mem_append_right _ (List.mem_singleton_self _)

end Binds

end World

namespace Forest

variable {forest : Forest Handler} {id parent : Nat} {tag : String}
  {attributes : Dictionary String} {children : List NodeId}

theorem content?_of_element (found : forest.shape? id =
      some { content := .element { tag, attributes }, parent := some parent, children }) :
    ∃ element, forest.content? id = some (.element element) ∧ element.tag = tag ∧
      element.attributes = attributes := by
  obtain ⟨content, known, plainly⟩ := content?_of_shape? found
  cases content with
  | element element =>
      injection plainly with plainly
      injection plainly with sameTag sameAttributes
      exact ⟨element, known, sameTag, sameAttributes⟩
  | fragment => cases plainly
  | text content => cases plainly
  | comment content => cases plainly

theorem attribute?_of_shape? (found : forest.shape? id =
      some { content := .element { tag, attributes }, parent := some parent, children })
    (name : String) : forest.attribute? id name = Assoc.get? attributes name := by
  obtain ⟨element, known, -, same⟩ := content?_of_element found
  unfold attribute? Forest.attributes element?
  rw [known, ← same]
  rfl

theorem isValueBearing_of_shape? (found : forest.shape? id =
      some { content := .element { tag, attributes }, parent := some parent, children }) :
    forest.isValueBearing id = valueTags.contains tag := by
  obtain ⟨element, known, sameTag, -⟩ := content?_of_element found
  unfold isValueBearing tag? element?
  rw [known, ← sameTag, Option.bind_some, Content.element?, Option.map_some, Option.any_some]

/-! Listeners and values show nowhere. -/

theorem shape?_listen (forest : Forest Handler) (id other : NodeId) (kind : String) (handler : Handler) :
    (forest.listen id kind handler).shape? other = forest.shape? other :=
  shape?_modifyElement (fun _ => rfl) (fun _ => rfl)

theorem shape?_refreshValue (forest : Forest Handler) (id other : NodeId) (text : String) :
    (forest.refreshValue id text).shape? other = forest.shape? other := by
  unfold refreshValue
  split
  · exact shape?_modifyElement (fun _ => rfl) (fun _ => rfl)
  · rfl

/-- An attribute that is removed shows at its element only. -/
theorem shape?_removeAttribute (found : forest.shape? id =
      some { content := .element { tag, attributes }, parent := some parent, children })
    (name : String) :
    (forest.removeAttribute id name).shape? id =
        some { content := .element { tag, attributes := attributes.erase name },
               parent := some parent, children } ∧
      ∀ other, other ≠ id → (forest.removeAttribute id name).shape? other = forest.shape? other := by
  obtain ⟨element, known, sameTag, sameAttributes⟩ := content?_of_element found
  constructor
  · have here : forest.element? id = some element := by
      unfold element?
      rw [known]
      rfl
    unfold removeAttribute modifyElement
    rw [here]
    dsimp only
    rw [shape?_setContent_self, found, ← sameTag, ← sameAttributes]
    rfl
  · intro other apart
    exact shape?_modifyElement_of_ne (Ne.symm apart)

/-- The value of an input is no directive, so that directives may be removed. -/
theorem value_removeAttribute {name : String} (directive : Directive.ofName? name ≠ none) (other : NodeId) :
    (forest.removeAttribute id name).value other = forest.value other := by
  have different : "value" ≠ name := by
    rintro rfl
    exact directive (by decide)
  exact value_modifyElement (fun _ => rfl) fun element => Assoc.get?_erase_of_ne element.attributes different

end Forest

namespace Directive

theorem ofName?_eq_text {name : String} : ofName? name = some .text ↔ name = "v-text" := by
  unfold ofName?
  constructor
  · intro found
    split at found
    · assumption
    · split at found
      · cases found
      · split at found <;> cases found
  · exact fun same => if_pos same

theorem eq_of_ofName?_model {name : String} (model : ofName? name = some .model) : name = "v-model" := by
  unfold ofName? at model
  split at model
  · cases model
  · split at model
    · assumption
    · split at model <;> cases model

end Directive

namespace Markup

/-- The expression of a directive contains no call, unless it belongs to an event. -/
def isCallFreeAttribute (entry : String × String) : Bool :=
  match Directive.ofName? entry.1 with
  | some .text => Expr.isCallFreeSource entry.2
  | some .model => Expr.isCallFreeSource (Text.trimString entry.2)
  | _ => true

variable {tag : String} {done rest : List (String × String)} {entry : String × String}

theorem keptAttributes_concat (tag : String) (done : List (String × String)) (entry : String × String) :
    keptAttributes tag (done ++ [entry]) =
      keptAttributes tag done ++
        if (Directive.ofName? entry.1).any (·.leaves tag) then [] else [entry] := by
  unfold keptAttributes
  rw [List.filter_append]
  cases leaves : (Directive.ofName? entry.1).any (·.leaves tag) <;> simp [leaves]

theorem textSource?_concat (done : List (String × String)) (entry : String × String) :
    textSource? (done ++ [entry]) =
      (textSource? done).or (if Directive.ofName? entry.1 = some .text then some entry.2 else none) := by
  unfold textSource?
  rw [List.find?_append]
  cases (done.find? fun entry => Directive.ofName? entry.1 = some .text) with
  | some found => rfl
  | none =>
      by_cases text : Directive.ofName? entry.1 = some .text <;> simp [text]

/-- Attributes that are no directives stay. -/
theorem get?_keptAttributes (tag : String) (done rest : List (String × String)) {name : String}
    (plain : Directive.ofName? name = none) :
    Assoc.get? (keptAttributes tag done ++ rest) name = Assoc.get? (done ++ rest) name := by
  induction done with
  | nil => rfl
  | cons first done inductionHypothesis =>
      have step : keptAttributes tag (first :: done) =
          if (Directive.ofName? first.1).any (·.leaves tag) then keptAttributes tag done
          else first :: keptAttributes tag done := by
        unfold keptAttributes
        cases leaves : (Directive.ofName? first.1).any (·.leaves tag) <;> simp [leaves]
      by_cases leaves : (Directive.ofName? first.1).any (·.leaves tag) = true
      · have different : first.1 ≠ name := by
          rintro rfl
          rw [plain] at leaves
          cases leaves
        rw [step, if_pos leaves, inductionHypothesis, List.cons_append, Assoc.get?, if_neg different]
      · rw [step, if_neg leaves, List.cons_append, List.cons_append, Assoc.get?, Assoc.get?,
          inductionHypothesis]

/-- A name that is used once is removed at its place. -/
theorem erase_kept (distinct : ((done ++ entry :: rest).map Prod.fst).Nodup) :
    Assoc.erase (keptAttributes tag done ++ entry :: rest) entry.1 = keptAttributes tag done ++ rest := by
  rw [List.map_append, List.map_cons] at distinct
  obtain ⟨-, later, apart⟩ := List.nodup_append.mp distinct
  have early : ∀ other ∈ keptAttributes tag done, other.1 ≠ entry.1 := fun other member =>
    apart _ (List.mem_map_of_mem (List.mem_filter.mp member).1) _ List.mem_cons_self
  have late : ∀ other ∈ rest, other.1 ≠ entry.1 := by
    intro other member same
    exact (List.nodup_cons.mp later).1 (same ▸ List.mem_map_of_mem member)
  unfold Assoc.erase
  rw [List.filter_append, List.filter_cons_of_neg (by simp),
    List.filter_eq_self.mpr fun other member => by simpa using early other member,
    List.filter_eq_self.mpr fun other member => by simpa using late other member]

/-- An element has at most one text. -/
theorem textSource?_eq_none (distinct : ((done ++ entry :: rest).map Prod.fst).Nodup)
    (text : Directive.ofName? entry.1 = some .text) : textSource? done = none := by
  rw [List.map_append, List.map_cons] at distinct
  obtain ⟨-, -, apart⟩ := List.nodup_append.mp distinct
  unfold textSource?
  rw [Option.map_eq_none_iff, List.find?_eq_none]
  intro other member again
  apply apart _ (List.mem_map_of_mem member) _ List.mem_cons_self
  rw [Directive.ofName?_eq_text.mp text]
  exact Directive.ofName?_eq_text.mp (of_decide_eq_true again)

end Markup

namespace Forest

variable {forest : Forest Handler} {limit id parent : Nat} {store : Store} {tag : String}
  {children : List NodeId} {done rest : List (String × String)} {entry : String × String}

/-- Some attributes of an element have been bound, and the others are still to come. The children give
way to the text as soon as the text is bound. -/
def Carries (forest : Forest Handler) (limit : Nat) (store : Store) (id parent : Nat) (tag : String)
    (children : List NodeId) (done rest : List (String × String)) : Prop :=
  ∃ now, forest.shape? id = some
      { content := .element { tag, attributes := Markup.keptAttributes tag done ++ rest },
        parent := some parent, children := now } ∧
    match Markup.textSource? done with
    | none => now = children
    | some source => forest.HoldsText limit id now (store.evaluateText source).2

namespace Carries

theorem of_shapes {after : Forest Handler}
    (carries : forest.Carries limit store id parent tag children done rest)
    (same : ∀ other, after.shape? other = forest.shape? other) :
    after.Carries limit store id parent tag children done rest := by
  obtain ⟨now, found, holds⟩ := carries
  refine ⟨now, (same id).trans found, ?_⟩
  split
  · rename_i none
    rwa [none] at holds
  · rename_i source some
    rw [some] at holds
    rcases holds with empty | ⟨child, present, older, late, single, here⟩
    · exact Or.inl empty
    · exact Or.inr ⟨child, present, older, late, single, (same child).trans here⟩

/-- What is no directive here, or an incomplete one, stays. -/
theorem kept (carries : forest.Carries limit store id parent tag children done (entry :: rest))
    (stays : (Directive.ofName? entry.1).any (·.leaves tag) = false) :
    forest.Carries limit store id parent tag children (done ++ [entry]) rest := by
  obtain ⟨now, found, holds⟩ := carries
  have plain : Directive.ofName? entry.1 ≠ some .text := by
    intro text
    rw [text] at stays
    cases stays
  refine ⟨now, ?_, ?_⟩
  · rw [Markup.keptAttributes_concat, stays, found, List.append_assoc]
    rfl
  · rw [Markup.textSource?_concat, if_neg plain, Option.or_none]
    exact holds

/-- A directive other than a text is removed and changes nothing else that is shown. -/
theorem dropped (carries : forest.Carries limit store id parent tag children done (entry :: rest))
    (distinct : ((done ++ entry :: rest).map Prod.fst).Nodup)
    (leaves : (Directive.ofName? entry.1).any (·.leaves tag) = true)
    (plain : Directive.ofName? entry.1 ≠ some .text) :
    (forest.removeAttribute id entry.1).Carries limit store id parent tag children (done ++ [entry])
      rest := by
  obtain ⟨now, found, holds⟩ := carries
  obtain ⟨here, others⟩ := shape?_removeAttribute found entry.1
  refine ⟨now, ?_, ?_⟩
  · rw [here, Markup.keptAttributes_concat, leaves, if_pos rfl, List.append_nil,
      Markup.erase_kept distinct]
  · rw [Markup.textSource?_concat, if_neg plain, Option.or_none]
    split
    · rename_i none
      rwa [none] at holds
    · rename_i source some
      rw [some] at holds
      rcases holds with empty | ⟨child, present, older, late, single, inner⟩
      · exact Or.inl empty
      · exact Or.inr ⟨child, present, older, late, single,
          (others child (Nat.ne_of_gt older)).trans inner⟩

/-- A text takes the place of the children, and its directive is removed. -/
theorem replaced (carries : forest.Carries limit store id parent tag children done (entry :: rest))
    (distinct : ((done ++ entry :: rest).map Prod.fst).Nodup)
    (text : Directive.ofName? entry.1 = some .text) (apart : id ∉ children)
    (old : limit ≤ forest.size) :
    let set := forest.setTextContent id (store.evaluateText entry.2).2
    (set.removeAttribute id entry.1).Carries limit store id parent tag children (done ++ [entry]) rest ∧
      ∀ other, other < forest.size → other ≠ id → other ∉ children →
        (set.removeAttribute id entry.1).shape? other = forest.shape? other := by
  obtain ⟨now, found, holds⟩ := carries
  rw [Markup.textSource?_eq_none distinct text] at holds
  cases holds
  obtain ⟨⟨inner, holds, set⟩, around⟩ := setTextContent_element found apart old
    (store.evaluateText entry.2).2
  obtain ⟨here, others⟩ := shape?_removeAttribute set entry.1
  refine ⟨⟨inner, ?_, ?_⟩, fun other known different free =>
    (others other different).trans (around other known different free)⟩
  · have leaves : (Directive.ofName? entry.1).any (·.leaves tag) = true := by
      rw [text]
      rfl
    rw [here, Markup.keptAttributes_concat, leaves, if_pos rfl, List.append_nil,
      Markup.erase_kept distinct]
  · rw [Markup.textSource?_concat, Markup.textSource?_eq_none distinct text, if_pos text]
    rcases holds with empty | ⟨child, present, older, late, single, inside⟩
    · exact Or.inl empty
    · exact Or.inr ⟨child, present, older, late, single,
        (others child (Nat.ne_of_gt older)).trans inside⟩

end Carries

end Forest

namespace Markup

/-- A text directive makes its element a site. The attributes are those that the element keeps. -/
def siteOf? (id parent : Nat) (tag : String) (attributes : List (String × String))
    (entry : String × String) : Option Site :=
  if Directive.ofName? entry.1 = some .text then some ⟨id, parent, .content tag attributes entry.2⟩
  else none

/-- A directive that listens wires its element. The attributes are those that the element keeps. -/
def wireOf? (id : Nat) (tag : String) (attributes : List (String × String))
    (entry : String × String) : Option Wire :=
  (Hearing.ofAttribute? tag attributes entry).map (Wire.mk id)

/-- This is what an attribute contributes to a binding. -/
def yieldOf (id parent : Nat) (tag : String) (kept : List (String × String))
    (entry : String × String) : Yield :=
  ⟨(siteOf? id parent tag kept entry).toList, attributeLabels tag entry, attributeListeners tag entry,
    (wireOf? id tag kept entry).toList⟩

def yieldOfAll (id parent : Nat) (tag : String) (kept : List (String × String))
    (attributes : List (String × String)) : Yield :=
  ⟨attributes.filterMap (siteOf? id parent tag kept), attributes.flatMap (attributeLabels tag),
    attributes.foldr (fun entry total => attributeListeners tag entry + total) 0,
    attributes.filterMap (wireOf? id tag kept)⟩

theorem yieldOfAll_cons (id parent : Nat) (tag : String) (kept : List (String × String))
    (entry : String × String) (rest : List (String × String)) :
    yieldOfAll id parent tag kept (entry :: rest) =
      (yieldOf id parent tag kept entry).add (yieldOfAll id parent tag kept rest) := by
  have sites : (entry :: rest).filterMap (siteOf? id parent tag kept) =
      (siteOf? id parent tag kept entry).toList ++ rest.filterMap (siteOf? id parent tag kept) := by
    rw [List.filterMap_cons]
    cases siteOf? id parent tag kept entry <;> rfl
  have wires : (entry :: rest).filterMap (wireOf? id tag kept) =
      (wireOf? id tag kept entry).toList ++ rest.filterMap (wireOf? id tag kept) := by
    rw [List.filterMap_cons]
    cases wireOf? id tag kept entry <;> rfl
  simp only [yieldOfAll, yieldOf, Yield.add, sites, wires, List.flatMap_cons, List.foldr_cons]

end Markup

namespace World

variable {state : TargetId} {world : World}

theorem dropDirective_eq (state : TargetId) (node : NodeId) (name : String) (world : World) :
    ∃ after, dropDirective node name world = .ok () after ∧ world.Gentle state after ∧
      after.forest = world.forest.removeAttribute node name ∧ after.graph = world.graph := by
  refine ⟨_, rfl, ?_, rfl, rfl⟩
  have attested : world.Gentle state (world.attest (.edited (world.forest.above node))) :=
    .attest world _ rfl
  exact attested.trans (.forest _ (Nat.le_of_eq (Forest.size_removeAttribute world.forest node name).symm))

/-- A directive that is removed was neither a handler nor a value. -/
theorem wired_dropDirective {store : Store} {after : World} {node : NodeId} {name : String}
    (drops : dropDirective node name world = .ok () after) (directive : Directive.ofName? name ≠ none) :
    world.Wired state store [] after := by
  have drop : EStateM.Result.ok () { world.attest (.edited (world.forest.above node)) with
      forest := world.forest.removeAttribute node name } = EStateM.Result.ok () after := drops
  cases drop
  refine .quietly rfl rfl rfl rfl ?_ ?_
    (fun _ => Forest.parent?_modifyElement _) ?_
  · intro id _
    rw [List.filter_nil, List.map_nil, List.append_nil]
    exact Forest.handlersAt_modifyElement fun _ => rfl
  · exact fun id _ => Forest.value_removeAttribute directive id
  · exact fun _ impossible => by cases impossible

section Attributes

variable (depth : Nat) {store : Store} {guard : Hold} {limit high id parent : Nat} {tag : String}
  {children : List NodeId} {done rest : List (String × String)} {entry : String × String}
  (bindings : Bindings)

/-- The effect of a text shows it before the directive is removed. -/
theorem binds_text (offers : world.Offers state store guard) (known : limit ≤ world.forest.size)
    (within : ∀ child ∈ children, id < child ∧ child < high) (below : id < high) (small : high ≤ limit)
    (carries : world.forest.Carries limit store id parent tag children done (entry :: rest))
    (distinct : ((done ++ entry :: rest).map Prod.fst).Nodup)
    (text : Directive.ofName? entry.1 = some .text)
    (free : Expr.isCallFreeSource entry.2 = true) (kept : List (String × String)) :
    ∃ bound after, bindText (runTo (depth + 1)) state id entry.2 bindings world = .ok bound after ∧
      world.Binds state store limit id high
        ⟨[⟨id, parent, .content tag kept entry.2⟩], ["v-text=\"" ++ entry.2 ++ "\""], 0, []⟩ bindings bound
        after ∧
      after.forest.Carries limit store id parent tag children (done ++ [entry]) rest := by
  let site : Site := ⟨id, parent, .content tag kept entry.2⟩
  obtain ⟨shown, registers, registered⟩ := registered_site depth site free
    ("v-text=\"" ++ entry.2 ++ "\"") offers
  obtain ⟨after, drops, dropping, forest, graph⟩ := dropDirective_eq state id "v-text" shown
  have gentle := registered.gentle.trans dropping
  have alive := (offers.later gentle).guarded.alive
  have apart : id ∉ children := fun member => absurd (within id member).1 (Nat.lt_irrefl _)
  obtain ⟨carried, others⟩ := carries.replaced distinct text apart known
  have same : after.forest =
      (world.forest.setTextContent id (store.evaluateText entry.2).2).removeAttribute id entry.1 := by
    rw [forest, registered.forest, Directive.ofName?_eq_text.mp text]
    rfl
  refine ⟨bindings.addEffect world.graph.effects.size, after, ?_, ?_, same ▸ carried⟩
  · exact (bind_of_ok registers).trans (bind_of_ok drops)
  · refine .of_shapes (fun node => node = id ∨ node ∈ children) gentle ?_ ?_ small
      ⟨[⟨world.graph.effects.size, _, some site⟩], rfl, rfl, rfl, ?_⟩ rfl
      (fun _ => Binds.mem_addEffect bindings (graph ▸ registered.effects)) ?_
    · intro other inside foreign
      obtain ⟨different, away⟩ := not_or.mp foreign
      rw [same]
      exact others other inside different away
    · rintro node (rfl | member)
      · exact ⟨Nat.le_refl _, below⟩
      · exact ⟨Nat.le_of_lt (within node member).1, (within node member).2⟩
    · intro charge member
      cases List.mem_singleton.mp member
      refine ⟨⟨registered.endures.later dropping, dropping.later.labelOf? registered.label, ?_, ?_, ?_⟩,
        Nat.le_refl _⟩
      · intro impossible
        cases impossible
      · intro served same
        cases same
        exact dropping.later.hasTask registered.task
      · intro served same name listed
        cases same
        exact dropping.depends (registered.depends (dropping.alive alive) name listed) alive
    · exact (Wired.of_site registered).trans (wired_dropDirective drops (by decide))
        registered.gentle dropping alive

/-- An input gets its value, and stores what is put in. -/
theorem binds_model (offers : world.Offers state store guard) (below : id < high) (small : high ≤ limit)
    (carries : world.forest.Carries limit store id parent tag children done (entry :: rest))
    (distinct : ((done ++ entry :: rest).map Prod.fst).Nodup)
    (model : Directive.ofName? entry.1 = some .model)
    (free : Expr.isCallFreeSource (Text.trimString entry.2) = true) {kept : List (String × String)}
    (typed : Assoc.get? (done ++ entry :: rest) "type" = Assoc.get? kept "type") :
    ∃ bound after, bindModel (runTo (depth + 1)) state id entry.2 bindings world = .ok bound after ∧
      world.Binds state store limit id high
        ⟨[], Directive.model.labels tag entry.2, Directive.model.listeners tag,
          (Markup.wireOf? id tag kept entry).toList⟩ bindings bound after ∧
      after.forest.Carries limit store id parent tag children (done ++ [entry]) rest := by
  have bearing : world.forest.isValueBearing id = valueTags.contains tag := by
    obtain ⟨now, found, -⟩ := carries
    exact Forest.isValueBearing_of_shape? found
  by_cases bears : valueTags.contains tag = true
  · let source := Text.trimString entry.2
    obtain ⟨shown, registers, registered⟩ := registered_input depth free id
      ("v-model=\"" ++ source ++ "\"") offers
    let numeric := isNumericType (shown.forest.attribute? id "type")
    let heard : World := { shown with
      forest := shown.forest.listen id "input" (.storeInput state source numeric) }
    have hearing : shown.Gentle state heard :=
      .forest shown (Nat.le_of_eq (Forest.size_listen shown.forest id "input" _).symm)
    obtain ⟨after, drops, dropping, forest, graph⟩ := dropDirective_eq state id "v-model" heard
    have settles := hearing.trans dropping
    have gentle := registered.gentle.trans settles
    have unchanged : ∀ other, heard.forest.shape? other = world.forest.shape? other := by
      intro other
      show (shown.forest.listen id "input" _).shape? other = _
      rw [Forest.shape?_listen, registered.forest]
      exact Forest.shape?_refreshValue world.forest id other _
    have named := Directive.eq_of_ofName?_model model
    have carried := (carries.of_shapes unchanged).dropped distinct (by rw [model]; exact bears)
      (by rw [model]; exact fun impossible => by cases impossible)
    rw [named, ← forest] at carried
    obtain ⟨now, shaped, -⟩ := carries
    have numericType : numeric = isNumericType (Assoc.get? kept "type") := by
      have same : shown.forest.shape? id = world.forest.shape? id := by
        rw [registered.forest]
        exact Forest.shape?_refreshValue world.forest id id _
      show isNumericType (shown.forest.attribute? id "type") = _
      rw [Forest.attribute?_of_shape? (same.trans shaped),
        Markup.get?_keptAttributes tag done (entry :: rest) (by decide), typed]
    have wire : (Markup.wireOf? id tag kept entry).toList = [⟨id, .input source numeric⟩] := by
      simp only [Markup.wireOf?, Hearing.ofAttribute?, model, if_pos bears, Option.map_some,
        Option.toList_some, numericType]
      rfl
    refine ⟨(bindings.addEffect world.graph.effects.size).addListener, after, ?_, ?_, carried⟩
    · unfold bindModel
      rw [get_bind]
      dsimp only
      rw [bearing, if_pos bears, bind_of_ok registers]
      show (do
        dropDirective id "v-model"
        pure (bindings.addEffect world.graph.effects.size).addListener : Live Bindings) heard = _
      exact bind_of_ok drops
    · refine .of_shapes (fun node => node = id) gentle ?_ ?_ small
        ⟨[⟨world.graph.effects.size, "v-model=\"" ++ source ++ "\"", none⟩], rfl, rfl,
          (if_pos bears).symm, ?_⟩ (congrArg (bindings.listeners + ·) (if_pos bears).symm)
        (fun _ => Binds.mem_addEffect bindings (graph ▸ registered.effects)) ?_
      · intro other _ different
        rw [forest, Forest.removeAttribute, Forest.shape?_modifyElement_of_ne (Ne.symm different),
          unchanged]
      · rintro node rfl
        exact ⟨Nat.le_refl _, below⟩
      · intro charge member
        cases List.mem_singleton.mp member
        refine ⟨⟨registered.endures.later settles, settles.later.labelOf? registered.label, fun _ => ?_, ?_,
          ?_⟩, Nat.le_refl _⟩
        · exact ⟨id, source, settles.later.hasTask registered.task, free⟩
        · intro served impossible
          cases impossible
        · intro served impossible
          cases impossible
      · obtain ⟨element, content, -, -⟩ := Forest.content?_of_element shaped
        have here : world.forest.element? id = some element := by
          unfold Forest.element?
          rw [content]
          rfl
        have alive := (offers.later gentle).guarded.alive
        have heardAlive : heard.isAlive state = true := dropping.alive alive
        dsimp only
        rw [wire]
        exact (Wired.of_input numeric here registered heardAlive).trans
          (wired_dropDirective drops (by decide)) (registered.gentle.trans hearing) dropping alive
  · have stays : (Directive.ofName? entry.1).any (·.leaves tag) = false := by
      rw [model]
      exact Bool.eq_false_iff.mpr bears
    refine ⟨bindings, world.note (.modelWithoutValue entry.2 ((world.forest.tag? id).getD "")), ?_, ?_,
      carries.kept stays⟩
    · unfold bindModel
      rw [get_bind]
      dsimp only
      rw [bearing, if_neg bears]
      rfl
    · have quiet : world.Binds state store limit id high ⟨[], [], 0, []⟩ bindings bindings
          (world.note (.modelWithoutValue entry.2 ((world.forest.tag? id).getD ""))) :=
        .quietly (fun _ => False) (.note world _) (fun _ _ _ => rfl)
          (fun _ impossible => impossible.elim) small rfl rfl rfl
          (.quietly rfl rfl rfl rfl
            (fun _ _ => (List.append_nil _).symm) (fun _ _ => rfl) (fun _ => rfl)
            fun _ impossible => by cases impossible)
      have yields : (⟨[], Directive.model.labels tag entry.2, Directive.model.listeners tag,
          (Markup.wireOf? id tag kept entry).toList⟩ : Yield) = ⟨[], [], 0, []⟩ := by
        simp only [Directive.labels, Directive.listeners, Markup.wireOf?, Hearing.ofAttribute?, model,
          if_neg bears, Option.map_none, Option.toList_none]
      exact yields ▸ quiet

/-- An event without a name is left alone. -/
theorem binds_event (offers : world.Offers state store guard) (below : id < high) (small : high ≤ limit)
    (carries : world.forest.Carries limit store id parent tag children done (entry :: rest))
    (distinct : ((done ++ entry :: rest).map Prod.fst).Nodup) {kind : String}
    (event : Directive.ofName? entry.1 = some (.event kind)) (kept : List (String × String)) :
    ∃ bound after, bindEvent state id entry.1 kind entry.2 bindings world = .ok bound after ∧
      world.Binds state store limit id high ⟨[], [], (Directive.event kind).listeners tag,
        (Markup.wireOf? id tag kept entry).toList⟩ bindings bound after ∧
      after.forest.Carries limit store id parent tag children (done ++ [entry]) rest := by
  by_cases empty : kind = ""
  · have stays : (Directive.ofName? entry.1).any (·.leaves tag) = false := by
      rw [event, Option.any_some, empty]
      rfl
    refine ⟨bindings, world.note (.eventNameMissing entry.1), ?_, ?_, carries.kept stays⟩
    · unfold bindEvent
      rw [if_pos empty]
      rfl
    · have wires : (Markup.wireOf? id tag kept entry).toList = [] := by
        simp only [Markup.wireOf?, Hearing.ofAttribute?, event, if_pos empty, Option.map_none,
          Option.toList_none]
      exact .quietly (fun _ => False) (.note world _) (fun _ _ _ => rfl)
        (fun _ impossible => impossible.elim) small rfl
        (by simp only [Directive.listeners, if_pos empty, Nat.add_zero]) rfl
        (wires ▸ .quietly rfl rfl rfl rfl
          (fun _ _ => (List.append_nil _).symm) (fun _ _ => rfl) (fun _ => rfl)
          fun _ impossible => by cases impossible)
  · let heard : World := { world with forest := world.forest.listen id kind (.evaluate state entry.2) }
    have hearing : world.Gentle state heard :=
      .forest world (Nat.le_of_eq (Forest.size_listen world.forest id kind _).symm)
    obtain ⟨after, drops, dropping, forest, graph⟩ := dropDirective_eq state id entry.1 heard
    have unchanged : ∀ other, heard.forest.shape? other = world.forest.shape? other := fun other =>
      Forest.shape?_listen world.forest id other kind _
    have leaves : (Directive.ofName? entry.1).any (·.leaves tag) = true := by
      rw [event, Option.any_some]
      exact bne_iff_ne.mpr empty
    have carried := (carries.of_shapes unchanged).dropped distinct leaves
      (by rw [event]; exact fun impossible => by cases impossible)
    rw [← forest] at carried
    refine ⟨bindings.addListener, after, ?_, ?_, carried⟩
    · unfold bindEvent
      rw [if_neg empty]
      show (do dropDirective id entry.1; pure bindings.addListener : Live Bindings) heard = _
      exact bind_of_ok drops
    · refine .quietly (fun node => node = id) (hearing.trans dropping) ?_ ?_ small rfl
        (by simp only [Directive.listeners, if_neg empty]; rfl) (congrArg (·.effects.size) graph) ?_
      · intro other _ different
        rw [forest, Forest.removeAttribute, Forest.shape?_modifyElement_of_ne (Ne.symm different),
          unchanged]
      · rintro node rfl
        exact ⟨Nat.le_refl _, below⟩
      · have wires : (Markup.wireOf? id tag kept entry).toList = [⟨id, .event kind entry.2⟩] := by
          simp only [Markup.wireOf?, Hearing.ofAttribute?, event, if_neg empty, Option.map_some,
            Option.toList_some]
        obtain ⟨now, shaped, -⟩ := carries
        obtain ⟨element, content, -, -⟩ := Forest.content?_of_element shaped
        have here : world.forest.element? id = some element := by
          unfold Forest.element?
          rw [content]
          rfl
        have alive := (offers.later (hearing.trans dropping)).guarded.alive
        have listens : world.Wired state store [⟨id, .event kind entry.2⟩] heard := by
          refine .quietly (show heard.graph = world.graph from rfl) rfl rfl rfl ?_ ?_
            (fun _ => Forest.parent?_modifyElement _) ?_
          · intro other _
            show (world.forest.listen id kind _).handlersAt other = _
            rw [Forest.handlersAt_listen here, Wired.handlers_single]
            rfl
          · exact fun other _ => Forest.value_modifyElement (fun _ => rfl) fun _ => rfl
          · intro wire member
            cases List.mem_singleton.mp member
            exact ⟨kind, entry.2, rfl⟩
        rw [wires]
        exact listens.trans (wired_dropDirective drops (by rw [event]; exact Option.some_ne_none _))
          hearing dropping alive

/-- One more attribute has been bound. -/
theorem binds_attribute (offers : world.Offers state store guard) (known : limit ≤ world.forest.size)
    (within : Directive.ofName? entry.1 = some .text → ∀ child ∈ children, id < child ∧ child < high)
    (below : id < high) (small : high ≤ limit)
    (carries : world.forest.Carries limit store id parent tag children done (entry :: rest))
    (distinct : ((done ++ entry :: rest).map Prod.fst).Nodup)
    (free : Markup.isCallFreeAttribute entry = true) {kept : List (String × String)}
    (typed : Assoc.get? (done ++ entry :: rest) "type" = Assoc.get? kept "type") :
    ∃ bound after,
      bindAttribute (runTo (depth + 1)) state id entry.1 entry.2 bindings world = .ok bound after ∧
      world.Binds state store limit id high (Markup.yieldOf id parent tag kept entry) bindings bound
        after ∧
      after.forest.Carries limit store id parent tag children (done ++ [entry]) rest := by
  unfold Markup.isCallFreeAttribute at free
  unfold bindAttribute Markup.yieldOf Markup.siteOf? Markup.attributeLabels Markup.attributeListeners
  cases directive : Directive.ofName? entry.1 with
  | none =>
      have wires : Markup.wireOf? id tag kept entry = none := by
        simp only [Markup.wireOf?, Hearing.ofAttribute?, directive, Option.map_none]
      rw [wires]
      refine ⟨bindings, world, rfl, .refl world, carries.kept ?_⟩
      rw [directive]
      rfl
  | some directed =>
      rw [directive] at free
      cases directed with
      | text =>
          have wires : Markup.wireOf? id tag kept entry = none := by
            simp only [Markup.wireOf?, Hearing.ofAttribute?, directive, Option.map_none]
          rw [wires]
          exact binds_text depth bindings offers known (within directive) below small carries distinct directive
            free kept
      | model =>
          exact binds_model depth bindings offers below small carries distinct directive free typed
      | event kind => exact binds_event bindings offers below small carries distinct directive kept

/-- All attributes of an element are bound in order. -/
theorem binds_attributes (offers : world.Offers state store guard) (known : limit ≤ world.forest.size)
    (within : ∀ entry ∈ rest, Directive.ofName? entry.1 = some .text →
      ∀ child ∈ children, id < child ∧ child < high)
    (below : id < high) (small : high ≤ limit)
    (carries : world.forest.Carries limit store id parent tag children done rest)
    (distinct : ((done ++ rest).map Prod.fst).Nodup)
    (free : ∀ entry ∈ rest, Markup.isCallFreeAttribute entry = true) {kept : List (String × String)}
    (typed : Assoc.get? (done ++ rest) "type" = Assoc.get? kept "type") :
    ∃ bound after, bindAttributes (runTo (depth + 1)) state id rest bindings world = .ok bound after ∧
      world.Binds state store limit id high (Markup.yieldOfAll id parent tag kept rest) bindings bound
        after ∧
      after.forest.Carries limit store id parent tag children (done ++ rest) [] := by
  induction rest generalizing done bindings world with
  | nil =>
      refine ⟨bindings, world, rfl, .refl world, ?_⟩
      rw [List.append_nil]
      exact carries
  | cons entry rest inductionHypothesis =>
      obtain ⟨middle, between, first, early, carried⟩ := binds_attribute depth bindings offers
        known (within entry List.mem_cons_self) below small carries distinct
        (free entry List.mem_cons_self) typed
      have whole : done ++ entry :: rest = (done ++ [entry]) ++ rest := by
        rw [List.append_assoc]
        rfl
      obtain ⟨bound, after, others, late, done⟩ := inductionHypothesis middle
        (offers.later early.gentle) (Nat.le_trans known early.gentle.later.nodes)
        (fun entry member => within entry (List.mem_cons_of_mem _ member)) carried (whole ▸ distinct)
        (fun entry member => free entry (List.mem_cons_of_mem _ member)) (whole ▸ typed)
      refine ⟨bound, after, ?_, ?_, whole ▸ done⟩
      · unfold bindAttributes
        rw [bind_of_ok first]
        exact others
      · rw [Markup.yieldOfAll_cons]
        exact early.trans late (offers.later early.gentle)

end Attributes

end World

end LiveMarkup
