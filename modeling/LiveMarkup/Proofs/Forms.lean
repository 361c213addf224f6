import LiveMarkup.Proofs.Fields

/-
This file shows that inputs which a template ties to a key of a state are fields of the key once the
template is bound, and that they stay in step with the key.
-/

namespace LiveMarkup

open Live

/-- The wire of an input that is tied to a key makes its element a field. -/
def Wire.field? (key : String) (wire : Wire) : Option Field :=
  match wire.hearing with
  | .input name numeric => if name = key then some ⟨wire.node, numeric⟩ else none
  | .event _ _ => none

theorem Wire.field?_eq_some {key : String} {wire : Wire} {field : Field}
    (found : wire.field? key = some field) : wire = ⟨field.node, .input key field.numeric⟩ := by
  obtain ⟨node, hearing⟩ := wire
  unfold field? at found
  cases hearing with
  | event kind source => cases found
  | input name numeric =>
      dsimp only at found
      split at found
      · rename_i same
        cases found
        rw [same]
      · cases found

/-- Wires of other nodes are left out. -/
theorem Wire.filter_of_away {wires : List Wire} {id : Nat} (away : ∀ wire ∈ wires, wire.node ≠ id) :
    (wires.filter fun wire => wire.node = id) = [] :=
  List.filter_eq_nil_iff.mpr fun wire member same => away wire member (of_decide_eq_true same)

namespace Markup

/-- These directives make an element hear what is put in. -/
def inputs (tag : String) (attributes : List (String × String)) : List Hearing :=
  (attributes.filterMap (Hearing.ofAttribute? tag (keptAttributes tag attributes))).filter
    (·.kind = "input")

/-- These are the fields of a key. -/
def fields (key : String) (id : Nat) (tree : Markup) : List Field :=
  (tree.wires id).filterMap (Wire.field? key)

def fieldsAll (key : String) (id : Nat) (trees : List Markup) : List Field :=
  (wiresAll id trees).filterMap (Wire.field? key)

mutual

/-- A field of a key hears of its own input only once, and no element above a field hears of it. -/
def isUnnested (key : String) (id : Nat) : Markup → Bool
  | .text _ => true
  | .comment _ => true
  | .element tag attributes children =>
      decide (∀ numeric, Hearing.input key numeric ∈ inputs tag attributes →
        inputs tag attributes = [.input key numeric]) &&
      ((textSource? attributes).isSome ||
        ((inputs tag attributes).isEmpty || (fieldsAll key (id + 1) children).isEmpty) &&
          isUnnestedAll key (id + 1) children)

def isUnnestedAll (key : String) (id : Nat) : List Markup → Bool
  | [] => true
  | first :: rest => isUnnested key id first && isUnnestedAll key (id + first.count) rest

end

mutual

/-- The wires of a tree lead from its nodes. -/
theorem bounds_of_mem_wires (id : Nat) :
    ∀ tree : Markup, ∀ wire ∈ tree.wires id, id ≤ wire.node ∧ wire.node < id + tree.count
  | .text _, wire, member => by cases member
  | .comment _, wire, member => by cases member
  | .element tag attributes children, wire, member => by
      unfold wires at member
      unfold count
      rcases List.mem_append.mp member with own | below
      · obtain ⟨entry, -, found⟩ := List.mem_filterMap.mp own
        obtain ⟨hearing, -, rfl⟩ := Option.map_eq_some_iff.mp found
        dsimp only
        omega
      · split at below
        · cases below
        · have bounds := bounds_of_mem_wiresAll (id + 1) children wire below
          omega

theorem bounds_of_mem_wiresAll (id : Nat) :
    ∀ trees : List Markup, ∀ wire ∈ wiresAll id trees, id ≤ wire.node ∧ wire.node < id + countAll trees
  | [], wire, member => by cases member
  | first :: rest, wire, member => by
      unfold countAll
      rcases List.mem_append.mp member with here | later
      · have bounds := bounds_of_mem_wires id first wire here
        omega
      · have bounds := bounds_of_mem_wiresAll (id + first.count) rest wire later
        omega

end

end Markup

namespace Forest

variable {forest : Forest Handler} {state : TargetId} {id low high limit : Nat} {key : String}
  {shown : Site → String}

/-- The elements of a range hear what they are wired to. -/
def Hears (forest : Forest Handler) (state : TargetId) (low high : Nat) (wires : List Wire) : Prop :=
  ∀ id : Nat, low ≤ id → id < high →
    forest.handlersAt id = (wires.filter fun wire => wire.node = id).map (Wire.entry state)

/-- Neither a node nor what is above it hears of inputs. -/
def Still (forest : Forest Handler) (id : Nat) : Prop :=
  forest.listenersFor id "input" = [] ∧ forest.Quiet "input" id

/-- Inputs are told to those who are wired to them. -/
theorem Hears.listenersFor {wires : List Wire} (hears : forest.Hears state low high wires) (least : low ≤ id)
    (most : id < high) :
    forest.listenersFor id "input" =
      ((wires.filter fun wire => wire.node = id).filter fun wire => wire.hearing.kind = "input").map
        fun wire => wire.hearing.handler state := by
  rw [listenersFor_eq, hears id least most, List.filter_map, List.map_map]
  rfl

theorem Hears.mono {wires fewer : List Wire} {lower higher : Nat}
    (hears : forest.Hears state lower higher wires) (above : lower ≤ low) (below : high ≤ higher)
    (same : ∀ id, low ≤ id → id < high →
      (wires.filter fun wire => wire.node = id) = fewer.filter fun wire => wire.node = id) :
    forest.Hears state low high fewer := fun id least most => by
  rw [hears id (Nat.le_trans above least) (Nat.lt_of_lt_of_le most below), same id least most]

/-- A field is told of inputs and stores them, and nobody above it is told. -/
def Ties (forest : Forest Handler) (state : TargetId) (key : String) (field : Field) : Prop :=
  forest.listenersFor field.node "input" = [field.handler state key] ∧
    forest.Quiet "input" field.node

/-- An element hears of inputs because of its own directives. -/
theorem listenersFor_of_hears {tag : String} {attributes : List (String × String)}
    {rest : List Wire}
    (hears : forest.Hears state id high
      (attributes.filterMap (Markup.wireOf? id tag (Markup.keptAttributes tag attributes)) ++ rest))
    (known : id < high) (away : ∀ wire ∈ rest, wire.node ≠ id) :
    forest.listenersFor id "input" = (Markup.inputs tag attributes).map (Hearing.handler state) := by
  have own : attributes.filterMap (Markup.wireOf? id tag (Markup.keptAttributes tag attributes)) =
      (attributes.filterMap (Hearing.ofAttribute? tag (Markup.keptAttributes tag attributes))).map
        (Wire.mk id) := List.map_filterMap.symm
  have here : ∀ hearings : List Hearing,
      ((hearings.map (Wire.mk id)).filter fun wire => wire.node = id) = hearings.map (Wire.mk id) :=
    fun hearings => List.filter_eq_self.mpr fun wire member => by
      obtain ⟨hearing, -, rfl⟩ := List.mem_map.mp member
      exact decide_eq_true rfl
  rw [hears.listenersFor (Nat.le_refl id) known, List.filter_append, Wire.filter_of_away away,
    List.append_nil, own, here, List.filter_map, List.map_map]
  rfl

mutual

/-- The fields of a tree are tied, because those who hear more are elsewhere. -/
theorem ties_of_hears : ∀ (tree : Markup) (parent id : Nat), tree.isUnnested key id = true →
    forest.Hears state id (id + tree.count) (tree.wires id) →
    (∀ spot ∈ tree.spots parent id, forest.Shows limit shown spot) → parent < id →
    (tree.fields key id ≠ [] → forest.Still parent) →
    ∀ field ∈ tree.fields key id, forest.Ties state key field
  | .text _, _, _, _, _, _, _, _, field, member => by cases member
  | .comment _, _, _, _, _, _, _, _, field, member => by cases member
  | .element tag attributes children, parent, id, unnested, hears, shows, older, still, field, member => by
      have quiet : forest.Quiet "input" id := by
        have above := still (List.ne_nil_of_mem member)
        exact .under (parent?_of_shows shows) older above.1 above.2
      unfold Markup.isUnnested at unnested
      obtain ⟨alone, inner⟩ := (Bool.and_eq_true _ _).mp unnested
      unfold Markup.wires at hears
      unfold Markup.fields Markup.wires at member
      unfold Markup.count at hears
      have away : ∀ wire ∈ (if (Markup.textSource? attributes).isSome then []
          else Markup.wiresAll (id + 1) children), wire.node ≠ id := by
        intro wire listed
        split at listed
        · cases listed
        · have bounds := Markup.bounds_of_mem_wiresAll (id + 1) children wire listed
          omega
      have told := listenersFor_of_hears hears (by omega) away
      rw [List.filterMap_append] at member
      rcases List.mem_append.mp member with own | below
      · obtain ⟨wire, listed, found⟩ := List.mem_filterMap.mp own
        obtain ⟨entry, member, wired⟩ := List.mem_filterMap.mp listed
        obtain ⟨hearing, heard, rfl⟩ := Option.map_eq_some_iff.mp wired
        have same := Wire.field?_eq_some found
        injection same with node same
        have mine : Hearing.input key field.numeric ∈ Markup.inputs tag attributes :=
          List.mem_filter.mpr ⟨List.mem_filterMap.mpr ⟨entry, member, same ▸ heard⟩, rfl⟩
        rw [of_decide_eq_true alone _ mine] at told
        refine ⟨?_, node ▸ quiet⟩
        rw [← node, told]
        rfl
      · cases source : (Markup.textSource? attributes).isSome with
        | true =>
            rw [source, if_pos rfl] at below
            cases below
        | false =>
            rw [source, if_neg Bool.false_ne_true] at below
            rw [source, Bool.false_or] at inner
            obtain ⟨apart, nested⟩ := (Bool.and_eq_true _ _).mp inner
            have silent : forest.listenersFor id "input" = [] := by
              rcases (Bool.or_eq_true _ _).mp apart with deaf | none
              · rw [told, List.isEmpty_iff.mp deaf]
                rfl
              · have empty : Markup.fieldsAll key (id + 1) children = [] := List.isEmpty_iff.mp none
                unfold Markup.fieldsAll at empty
                rw [empty] at below
                cases below
            have none := Option.isNone_iff_eq_none.mp (Option.isSome_eq_false_iff.mp source)
            have inside : forest.Hears state (id + 1) (id + 1 + Markup.countAll children)
                (Markup.wiresAll (id + 1) children) := by
              refine hears.mono (by omega) (by omega) fun other least _ => ?_
              rw [source, if_neg Bool.false_ne_true, List.filter_append, Wire.filter_of_away, List.nil_append]
              intro wire listed
              obtain ⟨entry, -, wired⟩ := List.mem_filterMap.mp listed
              obtain ⟨hearing, -, rfl⟩ := Option.map_eq_some_iff.mp wired
              dsimp only
              omega
            have spots : ∀ spot ∈ Markup.spotsAll id (id + 1) children, forest.Shows limit shown spot := by
              intro spot listed
              apply shows
              unfold Markup.spots
              rw [none]
              exact List.mem_cons_of_mem _ listed
            exact ties_of_hearsAll children id (id + 1) nested inside spots (Nat.lt_succ_self id)
              (fun _ => ⟨silent, quiet⟩) field below

theorem ties_of_hearsAll : ∀ (trees : List Markup) (parent id : Nat), Markup.isUnnestedAll key id trees = true →
    forest.Hears state id (id + Markup.countAll trees) (Markup.wiresAll id trees) →
    (∀ spot ∈ Markup.spotsAll parent id trees, forest.Shows limit shown spot) → parent < id →
    (Markup.fieldsAll key id trees ≠ [] → forest.Still parent) →
    ∀ field ∈ Markup.fieldsAll key id trees, forest.Ties state key field
  | [], _, _, _, _, _, _, _, field, member => by cases member
  | first :: rest, parent, id, unnested, hears, shows, older, still, field, member => by
      unfold Markup.isUnnestedAll at unnested
      obtain ⟨firstUnnested, restUnnested⟩ := (Bool.and_eq_true _ _).mp unnested
      unfold Markup.wiresAll at hears
      unfold Markup.countAll at hears
      have still := still (List.ne_nil_of_mem member)
      unfold Markup.fieldsAll Markup.wiresAll at member
      rw [List.filterMap_append] at member
      rcases List.mem_append.mp member with here | later
      · have early : forest.Hears state id (id + first.count) (first.wires id) := by
          refine hears.mono (Nat.le_refl _) (by omega) fun other _ most => ?_
          have none : ((Markup.wiresAll (id + first.count) rest).filter fun wire => wire.node = other) = [] :=
            Wire.filter_of_away fun wire listed => by
              have bounds := Markup.bounds_of_mem_wiresAll (id + first.count) rest wire listed
              omega
          rw [List.filter_append, none, List.append_nil]
        exact ties_of_hears first parent id firstUnnested early
          (fun spot listed => shows spot (List.mem_append_left _ listed)) older (fun _ => still) field here
      · have late : forest.Hears state (id + first.count) (id + first.count + Markup.countAll rest)
            (Markup.wiresAll (id + first.count) rest) := by
          refine hears.mono (by omega) (by omega) fun other least _ => ?_
          have none : ((first.wires id).filter fun wire => wire.node = other) = [] :=
            Wire.filter_of_away fun wire listed => by
              have bounds := Markup.bounds_of_mem_wires id first wire listed
              omega
          rw [List.filter_append, none, List.nil_append]
        exact ties_of_hearsAll rest parent (id + first.count) restUnnested late
          (fun spot listed => shows spot (List.mem_append_right _ listed)) (by omega) (fun _ => still)
          field later

end

end Forest

namespace Wire

variable {store : Store} {id : Nat} {key : String} {wires : List Wire}

/-- Wires of other nodes give a node no value. -/
theorem foldl_refresh_away (away : ∀ wire ∈ wires, wire.node ≠ id) (value : String) :
    wires.foldl (refresh store id) value = value := by
  induction wires with
  | nil => rfl
  | cons wire rest inductionHypothesis =>
      have same : refresh store id value wire = value := by
        unfold refresh
        split
        · exact if_neg (away wire List.mem_cons_self)
        · rfl
      rw [List.foldl_cons, same]
      exact inductionHypothesis fun other member => away other (List.mem_cons_of_mem _ member)

/-- A node that is tied to one key only has the value of this key, once it has got it. -/
theorem foldl_refresh_eq (only : ∀ name numeric, ⟨id, .input name numeric⟩ ∈ wires → name = key)
    {value : String}
    (some : (∃ numeric, ⟨id, .input key numeric⟩ ∈ wires) ∨ value = (store.evaluateText key).2) :
    wires.foldl (refresh store id) value = (store.evaluateText key).2 := by
  induction wires generalizing value with
  | nil =>
      rcases some with ⟨numeric, impossible⟩ | same
      · cases impossible
      · exact same
  | cons wire rest inductionHypothesis =>
      rw [List.foldl_cons]
      refine inductionHypothesis (fun name numeric member => only name numeric (List.mem_cons_of_mem _ member)) ?_
      obtain ⟨node, hearing⟩ := wire
      by_cases input : ∃ name numeric, (⟨node, hearing⟩ : Wire) = ⟨id, .input name numeric⟩
      · obtain ⟨name, numeric, same⟩ := input
        have here : name = key := only name numeric (same ▸ List.mem_cons_self)
        refine Or.inr ?_
        rw [same, ← here]
        exact if_pos rfl
      · have kept : refresh store id value ⟨node, hearing⟩ = value := by
          cases hearing with
          | event kind source => rfl
          | input name numeric =>
              exact if_neg fun same => input ⟨name, numeric, by rw [show node = id from same]⟩
        rw [kept]
        refine some.imp_left fun ⟨numeric, member⟩ => ⟨numeric, ?_⟩
        exact (List.mem_cons.mp member).resolve_left fun same => input ⟨key, numeric, same.symm⟩

end Wire

namespace World

/-- Nobody has done anything yet to the nodes of planted markup: they hear nothing, nothing else hangs
below them, and no effect that a key concerns gives them values. -/
structure Untouched (world : World) (state : TargetId) (key : String) (root : Nat) (trees : List Markup) :
    Prop where
  planted : world.forest.Planted root trees
  unheard : ∀ id : Nat, root < id → id < root + 1 + Markup.countAll trees → world.forest.handlersAt id = []
  closed : ∀ child parent : Nat, world.forest.parent? child = some parent → root < parent →
    parent < root + 1 + Markup.countAll trees → root < child ∧ child < root + 1 + Markup.countAll trees
  unminded : ∀ id ∈ world.graph.concerned state key, ∀ node source,
    world.HasTask id (.valueBinding state node source) →
      node ≤ root ∨ root + 1 + Markup.countAll trees ≤ node

variable {state : TargetId} {store : Store} {guard : Hold} {key : String} {early : List Field} {root : Nat}
  {trees : List Markup} {bindings bound : Bindings} {before after : World}

/-- Fields of the template join those that reflected the key before. -/
theorem Reflects.bind (reflects : before.Reflects state key early) (named : Expr.isName key = true)
    (offers : before.Offers state store guard) (untouched : before.Untouched state key root trees)
    (free : Markup.EverywhereAll Markup.CallFree trees)
    (unnested : Markup.isUnnestedAll key (root + 1) trees = true)
    (binds : before.Binds state store (root + 1 + Markup.countAll trees) (root + 1)
      (root + 1 + Markup.countAll trees) (Markup.yieldAll root (root + 1) trees) {} bound after)
    (shows : ∀ spot ∈ Markup.spotsAll root (root + 1) trees,
      after.forest.Shows (root + 1 + Markup.countAll trees) (fun site => (site.seen store).2) spot) :
    after.Reflects state key (early ++ Markup.fieldsAll key (root + 1) trees) := by
  let limit := root + 1 + Markup.countAll trees
  let wires := Markup.wiresAll (root + 1) trees
  obtain ⟨poised, free'⟩ : before.Poised state store ∧ store.methods.contains key = false := by
    obtain ⟨other, poised, methods⟩ := reflects.poised
    cases poised.found.symm.trans offers.found
    exact ⟨poised, methods⟩
  have wired : before.Wired state store wires after := binds.wired
  have gentle := binds.gentle
  have offered := offers.later gentle
  have sustained := wired.sustains poised.settled
  have size : limit ≤ before.forest.size := untouched.planted.size
  have bounds : ∀ wire ∈ wires, root < wire.node ∧ wire.node < limit := fun wire member =>
    Markup.bounds_of_mem_wiresAll (root + 1) trees wire member
  have beside : ∀ field ∈ early, ¬ (root < field.node ∧ field.node < limit) := fun field member within =>
    reflects.ties.handlersAt_ne_nil member (untouched.unheard field.node within.1 within.2)
  have kept : ∀ id : Nat, id < before.forest.size → ¬ (root < id ∧ id < limit) →
      after.forest.handlersAt id = before.forest.handlersAt id := by
    intro id known away
    rw [wired.handlers id known, Wire.filter_of_away, List.map_nil, List.append_nil]
    rintro wire member rfl
    exact away (bounds wire member)
  have hears : after.forest.Hears state (root + 1) limit wires := by
    intro id least most
    rw [wired.handlers id (Nat.lt_of_lt_of_le most size), untouched.unheard id least most, List.nil_append]
  have still : after.forest.Still root := by
    have shape := binds.shape untouched.planted.fragment (by omega) (Or.inl (Nat.lt_succ_self root))
    obtain ⟨known, looked, plainly⟩ := Forest.content?_of_shape? shape
    cases known <;> cases plainly
    refine ⟨?_, .top (Forest.parent?_of_shape? shape)⟩
    simp [Forest.listenersFor, Forest.element?, looked, Content.element?]
  have tied := Forest.ties_of_hearsAll trees root (root + 1) unnested hears shows (Nat.lt_succ_self root)
    fun _ => still
  have wireOf : ∀ field ∈ Markup.fieldsAll key (root + 1) trees,
      (⟨field.node, .input key field.numeric⟩ : Wire) ∈ wires := by
    intro field member
    obtain ⟨wire, listed, found⟩ := List.mem_filterMap.mp member
    exact Wire.field?_eq_some found ▸ listed
  -- What is put into a field is told to its own key only, so no other key is wired to it.
  have only : ∀ field ∈ Markup.fieldsAll key (root + 1) trees, ∀ name numeric,
      (⟨field.node, .input name numeric⟩ : Wire) ∈ wires → name = key := by
    intro field member name numeric listed
    have within := bounds _ listed
    have told := hears.listenersFor within.1 within.2
    have mine : Handler.storeInput state name numeric ∈ after.forest.listenersFor field.node "input" := by
      rw [told]
      refine List.mem_map.mpr ⟨_, List.mem_filter.mpr ⟨List.mem_filter.mpr ⟨listed, ?_⟩, ?_⟩, rfl⟩
      · exact decide_eq_true rfl
      · exact decide_eq_true rfl
    rw [(tied field member).1] at mine
    cases List.mem_singleton.mp mine
    rfl
  have store' : after.store? state = before.store? state := gentle.store offered.guarded.alive
  refine
    { poised := ⟨store, ⟨sustained.settled, offered.reachable, ?_, offered.found, offered.alive⟩, free'⟩
      ties := { hears := ?_, quiet := ?_, minded := ?_, bindings := ?_ }
      shows := ?_ }
  · intro id
    rw [gentle.later.stack]
    exact poised.idle id
  · intro field member
    rcases List.mem_append.mp member with old | new
    · exact (Forest.listenersFor_congr (kept _ (reflects.ties.lt_size old) (beside field old)) _).trans
        (reflects.ties.hears field old)
    · exact (tied field new).1
  · intro field member
    rcases List.mem_append.mp member with old | new
    · exact (reflects.ties.quiet field old).of_parents (fun id => root < id ∧ id < limit)
        (reflects.ties.lt_size old) (beside field old)
        (fun child parent found own => untouched.closed child parent found own.1 own.2) kept wired.parents
    · exact (tied field new).2
  · intro field member
    rcases List.mem_append.mp member with old | new
    · obtain ⟨effect, has, lasting, depends⟩ := reflects.ties.minded field old
      exact ⟨effect, gentle.later.hasTask has, (sustained.lasting effect has.lt_size).trans lasting,
        gentle.depends depends offered.guarded.alive⟩
    · obtain ⟨effect, -, minds⟩ := wired.minded _ (wireOf field new) key field.numeric rfl
      refine ⟨effect, minds.task, minds.endures.lasting, minds.depends key ?_⟩
      rw [Store.evaluateText_name named free']
      exact List.mem_singleton_self key
  · intro id member
    by_cases old : id < before.graph.effects.size
    · obtain ⟨moves, path⟩ := offers.reachable
      obtain ⟨others, continued⟩ := offered.reachable
      have concerned := (wired.older id old).mem_concerned path continued member
      obtain ⟨task, has, shown⟩ := reflects.ties.bindings id concerned
      refine ⟨task, gentle.later.hasTask has, ?_⟩
      cases shown with
      | site site free => exact .site site free
      | input node source free agrees =>
          refine .input node source free fun listed => ?_
          obtain ⟨field, either, rfl⟩ := List.mem_map.mp listed
          rcases List.mem_append.mp either with mine | new
          · exact agrees (List.mem_map_of_mem mine)
          · have within := bounds _ (wireOf field new)
            rcases untouched.unminded id concerned field.node source has with less | more
            · exact absurd within.1 (Nat.not_lt_of_le less)
            · exact absurd within.2 (Nat.not_lt_of_le more)
    · have least := Nat.le_of_not_lt old
      have most : id < after.graph.effects.size := by
        obtain ⟨moves, path⟩ := offered.reachable
        exact known_of_mem_concerned path member
      obtain ⟨charges, added, serves, -, fulfils⟩ := binds.charges
      dsimp only [Markup.yieldAll] at serves
      have listed := binds.known id least most
      rw [added] at listed
      obtain ⟨charge, charged, rfl⟩ := List.mem_map.mp ((List.mem_append.mp listed).resolve_left
        (fun impossible => by cases impossible))
      obtain ⟨fulfil, -⟩ := fulfils charge charged
      cases serving : charge.site with
      | some site =>
          refine ⟨site.task state, fulfil.task site serving, .site site ?_⟩
          have yielded : site ∈ (Markup.spotsAll root (root + 1) trees).filterMap Spot.site? :=
            serves ▸ List.mem_filterMap.mpr ⟨charge, charged, serving⟩
          obtain ⟨spot, inside, same⟩ := List.mem_filterMap.mp yielded
          cases spot <;> cases same
          exact Markup.isCallFree_of_mem_spotsAll root (root + 1) trees free site inside
      | none =>
          obtain ⟨node, source, has, callFree⟩ := fulfil.input serving
          obtain ⟨numeric, wire⟩ := wired.tasks charge.effect state node source least has
          refine ⟨_, has, .input node source callFree fun tiedTo => ?_⟩
          obtain ⟨field, either, rfl⟩ := List.mem_map.mp tiedTo
          rcases List.mem_append.mp either with mine | new
          · exact absurd (bounds _ wire) (beside field mine)
          · exact only field new source numeric wire
  · intro field member
    have peeks : after.peek? state key = before.peek? state key := by
      unfold peek?
      rw [store']
    rcases List.mem_append.mp member with old | new
    · rw [peeks, wired.values _ (reflects.ties.lt_size old), Wire.foldl_refresh_away]
      · exact reflects.shows field old
      · rintro wire listed same
        exact beside field old (same ▸ bounds wire listed)
    · have within := bounds _ (wireOf field new)
      rw [wired.values _ (Nat.lt_of_lt_of_le within.2 size),
        Wire.foldl_refresh_eq (only field new) (Or.inl ⟨_, wireOf field new⟩),
        Store.evaluateText_name named free', peeks]
      unfold peek?
      rw [offers.found]
      rfl

variable {world : World} {node given : String} {fields : List Field}

/-- Binding a template adds its fields. -/
theorem reflects_step_bind (played : world.Played) (named : Expr.isName key = true)
    (reflects : world.Reflects state key early) (untouched : world.Untouched state key root trees)
    (legal : Markup.EverywhereAll Markup.Legal trees) (free : Markup.EverywhereAll Markup.CallFree trees)
    (unnested : Markup.isUnnestedAll key (root + 1) trees = true)
    (found : world.names.nodes.get? node = some root) (known : world.stateFor? given = some state)
    (name : String) :
    (∃ value, (world.step (.host (.bind name node given))).1.outcome = .ok value) ∧
      (world.step (.host (.bind name node given))).2.Reflects state key
        (early ++ Markup.fieldsAll key (root + 1) trees) ∧
      (world.step (.host (.bind name node given))).2.names.nodes = world.names.nodes ∧
      (world.step (.host (.bind name node given))).2.stateFor? given = some state := by
  obtain ⟨store, held, stored, finds, offers, undisturbed, sameForest, sameGraph, sameNames⟩ :=
    offers_of_found played known
  have begun : held.Reflects state key early := by
    obtain ⟨other, poised, methods⟩ := reflects.poised
    cases poised.found.symm.trans stored
    refine ⟨⟨store, ⟨undisturbed.settled poised.settled, offers.reachable, ?_, offers.found, poised.alive⟩,
      methods⟩, reflects.ties.of_same sameForest (congrArg Graph.effects sameGraph)
        (congrArg Graph.table sameGraph), ?_⟩
    · rw [sameGraph]
      exact poised.idle
    · have peeks : held.peek? state key = world.peek? state key := by
        unfold peek?
        rw [offers.found, stored]
      rw [sameForest, peeks]
      exact reflects.shows
  have still : held.Untouched state key root trees := by
    refine ⟨sameForest ▸ untouched.planted, sameForest ▸ untouched.unheard, sameForest ▸ untouched.closed, ?_⟩
    intro id member node source has
    unfold HasTask at has
    rw [sameGraph] at member has
    exact untouched.unminded id member node source has
  obtain ⟨bindings, bound, returns, binds, shows⟩ := binds_planted
    (world.graph.effects.size + (spareDepth - 1)) legal free offers still.planted
  obtain ⟨value, answers, after⟩ := step_of_bind found finds returns name
  have joined := begun.bind named offers still free unnested binds shows
  obtain ⟨last, poised, methods⟩ := joined.poised
  have settled : ({ bound with
      names := { bound.names with bindings := bound.names.bindings.put name bindings }
      holds := world.holds } : World).Settled := ⟨poised.settled.hosts, poised.settled.states⟩
  have names := binds.gentle.names.trans sameNames
  rw [after, collect_eq_self settled]
  refine ⟨⟨value, answers⟩, ⟨⟨last, ⟨settled, poised.reachable, poised.idle, poised.found, poised.alive⟩,
    methods⟩, joined.ties.of_same rfl rfl rfl, joined.shows⟩, ?_, ?_⟩
  · exact (congrArg Names.nodes names :)
  · have finds : (bound.names.states.get? given).filter bound.isAlive = some state := by
      rw [names]
      exact Option.filter_eq_some_iff.mpr ⟨(Option.filter_eq_some_iff.mp known).1, poised.isAlive⟩
    exact finds

/-- Whatever is put in or written, fields reflect the key after it, and the last change is stored. -/
theorem play_changes (named : Expr.isName key = true) (settable : key ≠ reservedKey) (changes : List Change)
    (reflects : world.Reflects state key fields) (known : world.stateFor? given = some state)
    (stores : ∀ change ∈ changes, ∃ value, change.Stores world.names.nodes fields value) :
    (∀ step ∈ (world.play (changes.map (Change.command given key))).1, ∃ value, step.outcome = .ok value) ∧
      (world.play (changes.map (Change.command given key))).2.Reflects state key fields ∧
      ∀ change value, changes.getLast? = some change → change.Stores world.names.nodes fields value →
        (world.play (changes.map (Change.command given key))).2.peek? state key = some value := by
  induction changes generalizing world with
  | nil =>
      refine ⟨?_, reflects, ?_⟩
      · exact fun _ impossible => by cases impossible
      · exact fun _ _ impossible => by cases impossible
  | cons change rest inductionHypothesis =>
      obtain ⟨value, here⟩ := stores change List.mem_cons_self
      obtain ⟨result, returns, stored⟩ := stored_step named settable reflects known here
      have names := stored.names
      have still : (world.step (change.command given key)).2.stateFor? given = some state :=
        (stored.undisturbed.stateFor? given).trans known
      obtain ⟨others, reflected, lasts⟩ := inductionHypothesis stored.reflects still
        (by rw [names]; exact fun other member => stores other (List.mem_cons_of_mem _ member))
      rw [List.map_cons, play_cons]
      dsimp only
      refine ⟨fun step member => ?_, reflected, fun last value found puts => ?_⟩
      · rcases List.mem_cons.mp member with rfl | later
        · exact ⟨result, returns⟩
        · exact others step later
      · cases rest with
        | nil =>
            rw [List.getLast?_singleton] at found
            cases found
            obtain ⟨-, -, latest⟩ := stored_step named settable reflects known puts
            exact latest.peek?
        | cons second others =>
            rw [List.getLast?_cons_cons] at found
            rw [← names] at puts
            exact lasts last value found puts

end World

/-- Inputs that a template ties to a name stay in step with the key of this name, and so do those that were
tied to it before. A user may put texts into them and anybody may write the key, in any order: each step
returns, afterwards all of them show the value of the key, and it is what was put in or written last. -/
theorem fields_stay_in_step {start : World} {node given key : String} {root : NodeId} {state : TargetId}
    {trees : List Markup} {early : List Field} (played : start.Played) (named : Expr.isName key = true)
    (settable : key ≠ reservedKey) (reflects : start.Reflects state key early)
    (untouched : start.Untouched state key root trees) (legal : Markup.EverywhereAll Markup.Legal trees)
    (free : Markup.EverywhereAll Markup.CallFree trees)
    (unnested : Markup.isUnnestedAll key (root + 1) trees = true)
    (found : start.names.nodes.get? node = some root) (known : start.stateFor? given = some state)
    (name : String) :
    (∃ value, (start.step (.host (.bind name node given))).1.outcome = .ok value) ∧
      ∀ changes : List Change,
        let fields := early ++ Markup.fieldsAll key (root + 1) trees
        let bound := (start.step (.host (.bind name node given))).2
        let final := (bound.play (changes.map (Change.command given key))).2
        (∀ change ∈ changes, ∃ value, change.Stores start.names.nodes fields value) →
        (∀ step ∈ (bound.play (changes.map (Change.command given key))).1,
          ∃ value, step.outcome = .ok value) ∧
        (∀ field ∈ fields,
          final.forest.value field.node = (final.peek? state key).elim "" Value.display) ∧
        ∀ change value, changes.getLast? = some change → change.Stores start.names.nodes fields value →
          final.peek? state key = some value := by
  obtain ⟨returns, joined, names, still⟩ := World.reflects_step_bind played named reflects untouched legal
    free unnested found known name
  refine ⟨returns, fun changes => ?_⟩
  dsimp only
  intro stores
  obtain ⟨answers, final, lasts⟩ := World.play_changes named settable changes joined still (names ▸ stores)
  exact ⟨answers, final.shows, names ▸ lasts⟩

/-- A form has a text input and a slider, and both of them are tied to one key. -/
def formOfTwo : List Markup :=
  [.element "input" [("v-model", "k")] [], .element "input" [("type", "range"), ("v-model", "k")] []]

/-- There is a state that has a value under this key. -/
def stateOfText : World := (World.empty.play [.state (.createFrom "s" (.object [("k", .string "a")]))]).2

/-- The form is planted. -/
def plantedForm : World :=
  (stateOfText.step
    (.node (.parse "form" "<input v-model=\"k\"><input type=\"range\" v-model=\"k\">"))).2

/-- The inputs of the form have names. -/
def namedForm : World :=
  ((plantedForm.step (.node (.child "text" "form" 0))).2.step (.node (.child "slider" "form" 1))).2

theorem parsed_formOfTwo :
    Markup.parse "<input v-model=\"k\"><input type=\"range\" v-model=\"k\">" = .ok formOfTwo := by
  have scanned : Token.scan "<input v-model=\"k\"><input type=\"range\" v-model=\"k\">".toList =
      [.opening "input".toList [("v-model".toList, some ['k'])] false,
        .opening "input".toList [("type".toList, some "range".toList), ("v-model".toList, some ['k'])]
          false] := by
    decide +kernel
  rw [Markup.parse, Markup.read, scanned]
  rfl

/-- The inputs that are named are those of the form, and nobody has touched it yet. -/
theorem untouched_namedForm : namedForm.Played ∧ namedForm.Untouched 0 "k" 0 formOfTwo := by
  have started : stateOfText.Played := ⟨_, rfl⟩
  have planted : plantedForm.Played := started.step _
  have named : (plantedForm.step (.node (.child "text" "form" 0))).2.Played := planted.step _
  have grown : plantedForm.forest.Planted 0 formOfTwo := by
    obtain ⟨_, _, _, after⟩ := World.step_parse started.settled parsed_formOfTwo "form"
    have planted := Forest.planted_plantFragment stateOfText.forest formOfTwo
    rwa [show plantedForm.forest = _ from congrArg World.forest after]
  obtain ⟨known, first⟩ := World.step_child planted.settled
    (show plantedForm.names.nodes.get? "form" = some 0 by decide +kernel)
    (show (plantedForm.forest.children 0)[0]? = some 1 by decide +kernel) "text"
  obtain ⟨-, second⟩ := World.step_child named.settled
    (show (plantedForm.step (.node (.child "text" "form" 0))).2.names.nodes.get? "form" = some 0 by
      decide +kernel)
    (show ((plantedForm.step (.node (.child "text" "form" 0))).2.forest.children 0)[1]? = some 2 by
      decide +kernel) "slider"
  have still : namedForm.forest.Planted 0 formOfTwo := by
    rw [namedForm, second, first]
    exact grown
  refine ⟨named.step _, still, ?_, ?_, ?_⟩
  · have deaf : ∀ id < 3, (namedForm.forest.handlersAt id).isEmpty = true := by decide +kernel
    exact fun id _ most => List.isEmpty_iff.mp (deaf id most)
  · intro child parent found inside _
    have flat : ∀ child < 3, namedForm.forest.parent? child = some 0 ∨ namedForm.forest.parent? child = none := by
      decide +kernel
    have size : namedForm.forest.size = 3 := by decide +kernel
    rcases flat child (size ▸ Forest.lt_size_of_parent? found) with top | orphan
    · cases top.symm.trans found
      exact absurd inside (Nat.lt_irrefl 0)
    · cases orphan.symm.trans found
  · have nobody : namedForm.graph.concerned 0 "k" = [] := by decide +kernel
    rw [nobody]
    exact fun _ impossible => by cases impossible

/-- A text is put in, and then a number with needless digits. -/
theorem fields_of_formOfTwo :
    let bound := (namedForm.step (.host (.bind "b" "form" "s"))).2
    let typed : List Change := [.input "text" "b", .input "slider" "07.50"]
    let final := (bound.play (typed.map (Change.command "s" "k"))).2
    final.forest.value 1 = "7.5" ∧ final.forest.value 2 = "7.5" ∧
      final.peek? 0 "k" = some (.ofNumericInput "07.50") := by
  obtain ⟨played, untouched⟩ := untouched_namedForm
  have stored : (namedForm.store? 0).isSome = true := by decide +kernel
  obtain ⟨store, found⟩ := Option.isSome_iff_exists.mp stored
  have reflects : namedForm.Reflects 0 "k" [] := by
    have alive : (namedForm.store? 0).all (fun store => store.alive && !store.methods.contains "k") = true := by
      decide +kernel
    rw [found, Option.all_some, Bool.and_eq_true, Bool.not_eq_true'] at alive
    have frames : namedForm.graph.stack = [] := by decide +kernel
    have nobody : namedForm.graph.concerned 0 "k" = [] := by decide +kernel
    refine ⟨⟨store, ⟨played.settled, played.reachable, ?_, found, alive.1⟩, alive.2⟩, ⟨?_, ?_, ?_, ?_⟩, ?_⟩
    · rw [frames]
      exact fun _ impossible => by cases impossible
    · exact fun _ impossible => by cases impossible
    · exact fun _ impossible => by cases impossible
    · exact fun _ impossible => by cases impossible
    · rw [nobody]
      exact fun _ impossible => by cases impossible
    · exact fun _ impossible => by cases impossible
  have free : Markup.EverywhereAll Markup.CallFree formOfTwo := by
    have first : ∀ entry ∈ [("v-model", "k")], Markup.isCallFreeAttribute entry = true := by decide +kernel
    have second : ∀ entry ∈ [("type", "range"), ("v-model", "k")],
        Markup.isCallFreeAttribute entry = true := by decide +kernel
    exact ⟨⟨first, trivial⟩, ⟨second, trivial⟩, trivial⟩
  have law := (fields_stay_in_step played (show Expr.isName "k" = true by decide +kernel) (by decide)
    reflects untouched (Markup.normal_parse parsed_formOfTwo).legal free (by decide +kernel)
    (show namedForm.names.nodes.get? "form" = some 0 by decide +kernel)
    (show namedForm.stateFor? "s" = some 0 by decide +kernel) "b").2
    [.input "text" "b", .input "slider" "07.50"]
  have fields : [] ++ Markup.fieldsAll "k" (0 + 1) formOfTwo = [⟨1, false⟩, ⟨2, true⟩] := by decide +kernel
  have text : (Change.input "text" "b").Stores namedForm.names.nodes [⟨1, false⟩, ⟨2, true⟩] _ :=
    .input List.mem_cons_self (show namedForm.names.nodes.get? "text" = some 1 by decide +kernel)
  have slider : (Change.input "slider" "07.50").Stores namedForm.names.nodes [⟨1, false⟩, ⟨2, true⟩] _ :=
    .input (List.mem_cons_of_mem _ List.mem_cons_self)
      (show namedForm.names.nodes.get? "slider" = some 2 by decide +kernel)
  rw [fields] at law
  obtain ⟨-, shows, lasts⟩ := law fun change member => by
    rcases List.mem_cons.mp member with rfl | member
    · exact ⟨_, text⟩
    · cases List.mem_singleton.mp member
      exact ⟨_, slider⟩
  have peeks := lasts _ _ rfl slider
  have number : ∀ raw, (⟨2, true⟩ : Field).stores raw = .ofNumericInput raw := fun _ => rfl
  have display : (Value.ofNumericInput "07.50").display = "7.5" := by decide +kernel
  rw [number] at peeks
  rw [peeks, Option.elim_some, display] at shows
  dsimp only
  exact ⟨shows ⟨1, false⟩ List.mem_cons_self, shows ⟨2, true⟩ (List.mem_cons_of_mem _ List.mem_cons_self), peeks⟩

end LiveMarkup
