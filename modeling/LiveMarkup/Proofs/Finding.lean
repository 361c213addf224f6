import LiveMarkup.Forest.Selector
import LiveMarkup.Proofs.Binding
import LiveMarkup.Proofs.Cursor

/-
This file shows what a query finds in markup that has been bound: the first element of the template that fits,
whatever its sites show.
-/

namespace LiveMarkup

namespace Markup

mutual

/-- These are the elements of a tree, as they are when it has been bound. The children of an element whose text
is bound are gone. -/
def elements (id : Nat) : Markup → List (Nat × Element Handler)
  | .text _ => []
  | .comment _ => []
  | .element tag attributes children =>
      (id, { tag, attributes := keptAttributes tag attributes }) ::
        if (textSource? attributes).isSome then [] else elementsAll (id + 1) children

def elementsAll (id : Nat) : List Markup → List (Nat × Element Handler)
  | [] => []
  | first :: rest => first.elements id ++ elementsAll (id + first.count) rest

end

end Markup

namespace Forest

variable {forest : Forest Handler} {root parent id limit : Nat} {shown : Site → String}

/-- An element is given with its node, without what handlers and values add to it. -/
def bare? (forest : Forest Handler) (id : NodeId) : Option (Nat × Element Handler) :=
  ((forest.shape? id).bind fun shape => shape.content.element?).map fun element => (id, element)

theorem bare?_of_shape? {shape : Node Handler} (found : forest.shape? id = some shape) :
    forest.bare? id = shape.content.element?.map fun element => (id, element) := by
  rw [bare?, found]
  rfl

/-- Selectors look at tags and attributes only. -/
theorem isSelected_eq_bare? (forest : Forest Handler) (selector : Selector) (id : NodeId) :
    forest.isSelected selector id = (forest.bare? id).any fun entry => selector.fits entry.2 := by
  unfold isSelected element? content? bare? shape?
  cases forest.node? id with
  | none => rfl
  | some node =>
      obtain ⟨content, above, children⟩ := node
      cases content with
      | element found => cases selector <;> rfl
      | fragment | text | comment => rfl

theorem find?_isSelected (forest : Forest Handler) (selector : Selector) (ids : List NodeId) :
    ids.find? (forest.isSelected selector) =
      ((ids.filterMap forest.bare?).find? fun entry => selector.fits entry.2).map Prod.fst := by
  induction ids with
  | nil => rfl
  | cons id rest inductionHypothesis =>
      have selects := isSelected_eq_bare? forest selector id
      cases found : forest.bare? id with
      | none =>
          rw [found] at selects
          rw [List.find?_cons_of_neg (by simp [selects]), List.filterMap_cons_none found, inductionHypothesis]
      | some entry =>
          have here : entry.1 = id := by
            obtain ⟨_, -, rfl⟩ := Option.map_eq_some_iff.mp found
            rfl
          rw [found, Option.any_some] at selects
          rw [List.filterMap_cons_some found, List.find?_cons, List.find?_cons, selects]
          cases selector.fits entry.2 with
          | true => exact congrArg some here.symm
          | false => exact inductionHypothesis

theorem Hangs.root_lt (hangs : forest.Hangs root id) : root < id := by
  induction hangs with
  | child _ older => exact older
  | under _ older _ inductionHypothesis => exact Nat.lt_trans inductionHypothesis older

/-- A cursor finds its way below a root where parents are older than children. -/
theorem advances_of_hangs (reached : id = root ∨ forest.Hangs root id) (known : id < forest.size) :
    forest.Advances root id (forest.next? root id) := by
  obtain ⟨path, way, -⟩ := exists_way_of_hangs reached known
  unfold next?
  split
  · rename_i child first
    exact .down first
  · rename_i leaf
    exact .onward leaf (way.climbs.skips (Nat.le_succ_of_le way.length_le))

/-- A cursor gathers nodes below a root, and these are the elements among them. -/
structure Collects (forest : Forest Handler) (root : Nat) (elements : List (Nat × Element Handler))
    (first : Option NodeId) (ids behind : List NodeId) : Prop where
  gathers : forest.Gathers root first (ids ++ behind)
  elements : ids.filterMap forest.bare? = elements
  below : ∀ id ∈ ids, forest.Hangs root id

/-- A node comes before the nodes below it. -/
theorem Collects.under {elements : List (Nat × Element Handler)} {ids behind : List NodeId}
    {shape : Node Handler} (found : forest.shape? id = some shape) (hangs : forest.Hangs root id)
    (collects : forest.Collects root elements (forest.onward root id shape.children) ids behind) :
    forest.Collects root ((shape.content.element?.map fun element => (id, element)).toList ++ elements) (some id)
      (id :: ids) behind where
  gathers := by
    have advances := advances_of_hangs (Or.inr hangs) (lt_size_of_shape? found)
    rw [next?_eq_onward, children_of_shape? found] at advances
    exact .next advances collects.gathers
  elements := by
    rw [← collects.elements, ← bare?_of_shape? found]
    cases known : forest.bare? id with
    | none => exact List.filterMap_cons_none known
    | some entry => exact List.filterMap_cons_some known
  below other member := by
    rcases List.mem_cons.mp member with rfl | later
    · exact hangs
    · exact collects.below other later

/-- A node without children stands for itself. -/
theorem Collects.leaf {behind : List NodeId} {shape : Node Handler} (found : forest.shape? id = some shape)
    (hangs : forest.Hangs root id) (none : shape.children = [])
    (goesOn : forest.Gathers root (forest.nextSkipping? root id) behind) :
    forest.Collects root (shape.content.element?.map fun element => (id, element)).toList (some id) [id] behind := by
  have rest : forest.Collects root [] (forest.onward root id shape.children) [] behind := by
    refine ⟨?_, rfl, fun _ impossible => by cases impossible⟩
    rwa [none, onward, List.head?_nil, Option.none_or]
  have whole := rest.under found hangs
  rwa [List.append_nil] at whole

/-- What a cursor gathers behind some nodes is gathered with them. -/
theorem Collects.append {elements more : List (Nat × Element Handler)} {ids late behind : List NodeId}
    {first second : Option NodeId} (early : forest.Collects root elements first ids (late ++ behind))
    (others : forest.Collects root more second late behind) :
    forest.Collects root (elements ++ more) first (ids ++ late) behind where
  gathers := List.append_assoc ids late behind ▸ early.gathers
  elements := by rw [List.filterMap_append, early.elements, others.elements]
  below id member := (List.mem_append.mp member).elim (early.below id) (others.below id)

mutual

/-- A cursor that comes to a tree gathers its elements, and goes on behind it. -/
theorem collects_tree : ∀ (tree : Markup) (parent id : Nat) {behind : List NodeId}, parent < id →
    (parent = root ∨ forest.Hangs root parent) → (∀ spot ∈ tree.spots parent id, forest.Shows limit shown spot) →
    forest.Gathers root (forest.nextSkipping? root id) behind →
    ∃ ids, forest.Collects root (tree.elements id) (some id) ids behind
  | .text content, parent, id, _, older, reached, shows, goesOn => by
      unfold Markup.spots at shows
      split at shows <;>
        exact ⟨_, .leaf (shows _ (List.mem_singleton_self _))
          (hangs_of_parent (parent?_of_shape? (shows _ (List.mem_singleton_self _))) older reached) rfl goesOn⟩
  | .comment content, parent, id, _, older, reached, shows, goesOn => by
      have found := shows _ (List.mem_singleton_self _)
      exact ⟨_, .leaf found (hangs_of_parent (parent?_of_shape? found) older reached) rfl goesOn⟩
  | .element tag attributes children, parent, id, behind, older, reached, shows, goesOn => by
      unfold Markup.spots at shows
      unfold Markup.elements
      cases source : Markup.textSource? attributes with
      | some text =>
          rw [source] at shows
          obtain ⟨inner, holds, found⟩ := shows _ (List.mem_singleton_self _)
          have hangs := hangs_of_parent (parent?_of_shape? found) older reached
          rcases holds with ⟨-, rfl⟩ | ⟨child, -, less, -, rfl, there⟩
          · exact ⟨_, .leaf found hangs rfl goesOn⟩
          · have below := hangs_of_parent (parent?_of_shape? there) less (Or.inr hangs)
            have same : forest.nextSkipping? root child = forest.nextSkipping? root id := by
              have next := nextSkipping?_eq_onward (parent?_of_shape? there) (Nat.ne_of_gt below.root_lt)
                (show forest.children id = [] ++ child :: [] from children_of_shape? found) List.not_mem_nil
                (Or.inr hangs) (lt_size_of_shape? found)
              rw [next, onward, List.head?_nil, Option.none_or]
            exact ⟨_, (Collects.leaf there below rfl (same ▸ goesOn)).under found hangs⟩
      | none =>
          rw [source] at shows
          have found := shows _ List.mem_cons_self
          have hangs := hangs_of_parent (parent?_of_shape? found) older reached
          obtain ⟨ids, collects⟩ := collects_trees children id (id + 1) [] (Nat.lt_succ_self id)
            (Or.inr hangs) (children_of_shape? found) (fun _ impossible => by cases impossible)
            (fun spot member => shows spot (List.mem_cons_of_mem _ member)) goesOn
          exact ⟨_, collects.under found hangs⟩

theorem collects_trees : ∀ (trees : List Markup) (parent id : Nat) (early : List NodeId) {behind : List NodeId},
    parent < id → (parent = root ∨ forest.Hangs root parent) →
    forest.children parent = early ++ Markup.places id trees → (∀ earlier ∈ early, earlier < id) →
    (∀ spot ∈ Markup.spotsAll parent id trees, forest.Shows limit shown spot) →
    forest.Gathers root (forest.nextSkipping? root parent) behind →
    ∃ ids, forest.Collects root (Markup.elementsAll id trees) (forest.onward root parent (Markup.places id trees))
      ids behind
  | [], parent, id, early, behind, _, _, _, _, _, goesOn => by
      refine ⟨[], ?_, rfl, fun _ impossible => by cases impossible⟩
      exact (show forest.onward root parent [] = _ from Option.none_or).symm ▸ goesOn
  | first :: rest, parent, id, early, behind, older, reached, children, before, shows, goesOn => by
      unfold Markup.places at children ⊢
      unfold Markup.spotsAll at shows
      have found := parent?_of_shows fun spot member => shows spot (List.mem_append_left _ member)
      have known : parent < forest.size := by
        by_contra absent
        rw [Forest.children, node?, Array.getElem?_eq_none (Nat.le_of_not_lt absent)] at children
        simp at children
      have next := nextSkipping?_eq_onward found (Nat.ne_of_gt (hangs_of_parent found older reached).root_lt) children
        (fun again => absurd (before id again) (Nat.lt_irrefl id)) reached known
      obtain ⟨late, others⟩ := collects_trees rest parent (id + first.count) (early ++ [id]) (by omega) reached
        (by rw [children, List.append_assoc]; rfl)
        (fun earlier member => by
          have positive := Markup.count_pos first
          rcases List.mem_append.mp member with old | new
          · exact Nat.lt_of_lt_of_le (before earlier old) (Nat.le_add_right _ _)
          · cases List.mem_singleton.mp new
            exact Nat.lt_add_of_pos_right positive)
        (fun spot member => shows spot (List.mem_append_right _ member)) goesOn
      obtain ⟨ids, collects⟩ := collects_tree first parent id older reached
        (fun spot member => shows spot (List.mem_append_left _ member)) (next ▸ others.gathers)
      exact ⟨ids ++ late, collects.append others⟩

end

/-- A walk of bounded length comes to all that a cursor gathers where parents are older than children. -/
theorem Collects.walkFrom_eq {elements : List (Nat × Element Handler)} {first : Option NodeId} {ids : List NodeId}
    (collects : forest.Collects root elements first ids []) : forest.walkFrom root forest.size first = ids := by
  have gathers := collects.gathers
  rw [List.append_nil] at gathers
  have few : ids.length ≤ forest.size :=
    length_le_of_distinct gathers.nodup fun id member => (collects.below id member).lt_size
  refine gathers.walkFrom_eq (fun id member => ?_) few
  have hangs := collects.below id member
  exact advances_of_hangs (Or.inr hangs) hangs.lt_size

/-- A query below a node that shows bound markup finds the first element of the template that fits. -/
theorem query?_of_shows {trees : List Markup} (older : root < id)
    (children : forest.children root = Markup.places id trees)
    (shows : ∀ spot ∈ Markup.spotsAll root id trees, forest.Shows limit shown spot) (selector : String) :
    forest.query? root selector = ((Markup.elementsAll id trees).find? fun entry =>
      (Selector.ofString selector).fits entry.2).map Prod.fst := by
  have stops : forest.Gathers root (forest.nextSkipping? root root) [] := by
    rw [nextSkipping?_root]
    exact .done
  obtain ⟨ids, collects⟩ := collects_trees trees root id [] older (Or.inl rfl) children
    (fun _ impossible => by cases impossible) shows stops
  rw [← children, ← next?_eq_onward] at collects
  unfold query? descendants
  rw [collects.walkFrom_eq, find?_isSelected, collects.elements]

end Forest

end LiveMarkup
