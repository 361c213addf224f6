import LiveMarkup.Proofs.Keeping
import LiveMarkup.Proofs.Sites

/-
This file says which changes of a forest leave alone what a display shows, and what a change at one
site does.
-/

namespace LiveMarkup

namespace Markup

mutual

theorem bounds_of_mem_spots (parent id : Nat) :
    ∀ tree : Markup, ∀ spot ∈ tree.spots parent id, id ≤ spot.node ∧ spot.node < id + tree.count
  | .text content, spot, member => by
      have here : spot.node = id := by
        unfold spots at member
        split at member <;> cases List.mem_singleton.mp member <;> rfl
      rw [here]
      exact ⟨Nat.le_refl _, Nat.lt_succ_self _⟩
  | .comment content, spot, member => by
      cases List.mem_singleton.mp member
      exact ⟨Nat.le_refl _, Nat.lt_succ_self _⟩
  | .element tag attributes children, spot, member => by
      unfold spots at member
      unfold count
      split at member
      · cases List.mem_singleton.mp member
        exact ⟨Nat.le_refl _, Nat.lt_add_of_pos_right (by omega)⟩
      · rcases List.mem_cons.mp member with here | below
        · cases here
          exact ⟨Nat.le_refl _, Nat.lt_add_of_pos_right (by omega)⟩
        · obtain ⟨least, most⟩ := bounds_of_mem_spotsAll id (id + 1) children spot below
          exact ⟨Nat.le_of_succ_le least, Nat.lt_of_lt_of_eq most (Nat.add_assoc id 1 _)⟩

theorem bounds_of_mem_spotsAll (parent id : Nat) :
    ∀ trees : List Markup, ∀ spot ∈ spotsAll parent id trees,
      id ≤ spot.node ∧ spot.node < id + countAll trees
  | [], spot, member => by cases member
  | first :: rest, spot, member => by
      unfold countAll
      rcases List.mem_append.mp member with here | later
      · obtain ⟨least, most⟩ := bounds_of_mem_spots parent id first spot here
        exact ⟨least, by omega⟩
      · obtain ⟨least, most⟩ := bounds_of_mem_spotsAll parent (id + first.count) rest spot later
        exact ⟨by omega, by omega⟩

end

mutual

/-- Spots come in the order of their nodes. -/
theorem pairwise_spots (parent id : Nat) :
    ∀ tree : Markup, (tree.spots parent id).Pairwise fun first second => first.node < second.node
  | .text content => by
      unfold spots
      split <;> exact List.pairwise_singleton _ _
  | .comment content => List.pairwise_singleton _ _
  | .element tag attributes children => by
      unfold spots
      split
      · exact List.pairwise_singleton _ _
      · refine List.pairwise_cons.mpr ⟨?_, pairwise_spotsAll id (id + 1) children⟩
        intro spot member
        exact (bounds_of_mem_spotsAll id (id + 1) children spot member).1

theorem pairwise_spotsAll (parent id : Nat) :
    ∀ trees : List Markup,
      (spotsAll parent id trees).Pairwise fun first second => first.node < second.node
  | [] => List.Pairwise.nil
  | first :: rest => by
      refine List.pairwise_append.mpr ⟨pairwise_spots parent id first,
        pairwise_spotsAll parent (id + first.count) rest, ?_⟩
      intro early earlier late later
      have most := (bounds_of_mem_spots parent id first early earlier).2
      have least := (bounds_of_mem_spotsAll parent (id + first.count) rest late later).1
      exact Nat.lt_of_lt_of_le most least

end

/-- A node has one spot only. -/
theorem eq_of_node {parent id : Nat} {trees : List Markup} {first second : Spot}
    (early : first ∈ spotsAll parent id trees) (late : second ∈ spotsAll parent id trees)
    (same : first.node = second.node) : first = second := by
  have ordered := pairwise_spotsAll parent id trees
  have unique : ∀ one ∈ spotsAll parent id trees, ∀ other ∈ spotsAll parent id trees,
      one.node = other.node → one = other := by
    intro one member other listed
    apply List.Pairwise.forall_of_forall_of_flip (R := fun one other => one.node = other.node → one = other)
      (fun _ _ _ => rfl) _ _ member listed
    · exact ordered.imp fun less equal => absurd equal (Nat.ne_of_lt less)
    · exact ordered.imp fun less equal => absurd equal (Nat.ne_of_gt less)
  exact unique first early second late same

end Markup

namespace Forest

variable {forest : Forest Handler} {root limit : Nat} {shown : Site → String}

theorem hangs_of_parent {parent id : Nat} (found : forest.parent? id = some parent) (older : parent < id)
    (reached : parent = root ∨ forest.Hangs root parent) : forest.Hangs root id := by
  rcases reached with here | hangs
  · exact .child (here ▸ found) (here ▸ older)
  · exact .under found older hangs

mutual

/-- The spots of markup below a root hang there. -/
theorem hangs_of_shows :
    ∀ (tree : Markup) (parent id : Nat), parent < id → (parent = root ∨ forest.Hangs root parent) →
      (∀ spot ∈ tree.spots parent id, forest.Shows limit shown spot) →
      ∀ spot ∈ tree.spots parent id, forest.Hangs root spot.node
  | .text content, parent, id, older, reached, shows, spot, member => by
      have found : spot.node = id ∧ forest.parent? id = some parent := by
        have here := shows spot member
        unfold Markup.spots at member
        split at member <;> cases List.mem_singleton.mp member <;>
          exact ⟨rfl, parent?_of_shape? here⟩
      rw [found.1]
      exact hangs_of_parent found.2 older reached
  | .comment content, parent, id, older, reached, shows, spot, member => by
      have here := shows spot member
      cases List.mem_singleton.mp member
      exact hangs_of_parent (parent?_of_shape? here) older reached
  | .element tag attributes children, parent, id, older, reached, shows, spot, member => by
      unfold Markup.spots at shows member
      split at member
      · rename_i source found
        rw [found] at shows
        obtain ⟨_, -, here⟩ := shows _ (List.mem_singleton_self _)
        cases List.mem_singleton.mp member
        exact hangs_of_parent (parent?_of_shape? here) older reached
      · rename_i found
        rw [found] at shows
        have self := hangs_of_parent (parent?_of_shape? (shows _ List.mem_cons_self)) older reached
        rcases List.mem_cons.mp member with here | below
        · cases here
          exact self
        · exact hangsAll_of_shows children id (id + 1) (Nat.lt_succ_self id) (Or.inr self)
            (fun spot listed => shows spot (List.mem_cons_of_mem _ listed)) spot below

theorem hangsAll_of_shows :
    ∀ (trees : List Markup) (parent id : Nat), parent < id →
      (parent = root ∨ forest.Hangs root parent) →
      (∀ spot ∈ Markup.spotsAll parent id trees, forest.Shows limit shown spot) →
      ∀ spot ∈ Markup.spotsAll parent id trees, forest.Hangs root spot.node
  | [], parent, id, older, reached, shows, spot, member => by cases member
  | first :: rest, parent, id, older, reached, shows, spot, member => by
      unfold Markup.spotsAll at shows member
      rcases List.mem_append.mp member with here | later
      · exact hangs_of_shows first parent id older reached
          (fun spot listed => shows spot (List.mem_append_left _ listed)) spot here
      · exact hangsAll_of_shows rest parent (id + first.count) (by omega) reached
          (fun spot listed => shows spot (List.mem_append_right _ listed)) spot later

end

/-- A site shows the same as long as its node and its text node stay the same. -/
theorem showsText_of_shapes {before after : Forest Handler} {site : Site} {text : String}
    (node : after.shape? site.node = before.shape? site.node)
    (inner : ∀ child : Nat, before.parent? child = some site.node → site.node < child →
      limit ≤ child → after.shape? child = before.shape? child)
    (shows : before.ShowsText limit site text) : after.ShowsText limit site text := by
  obtain ⟨id, parent, form⟩ := site
  cases form with
  | interpolation source => exact node.trans shows
  | content tag attributes source =>
      obtain ⟨children, holds, found⟩ := shows
      refine ⟨children, ?_, node.trans found⟩
      rcases holds with none | ⟨child, present, older, late, single, here⟩
      · exact Or.inl none
      · have same := inner child (parent?_of_shape? here) older late
        exact Or.inr ⟨child, present, older, late, single, same.trans here⟩

theorem shows_of_shapes {before after : Forest Handler} {spot : Spot}
    (node : after.shape? spot.node = before.shape? spot.node)
    (inner : ∀ child : Nat, before.parent? child = some spot.node → spot.node < child →
      limit ≤ child → after.shape? child = before.shape? child)
    (shows : before.Shows limit shown spot) : after.Shows limit shown spot := by
  cases spot with
  | fixed id shape => exact node.trans shows
  | bound site => exact showsText_of_shapes node inner shows

/-- What is shown at a node that hangs below a root is kept with it. -/
theorem Keeps.shows {before after : Forest Handler} (keeps : Keeps root before after) {spot : Spot}
    (hangs : before.Hangs root spot.node) (shows : before.Shows limit shown spot) :
    after.Shows limit shown spot := by
  apply shows_of_shapes (keeps.shapes spot.node hangs) _ shows
  intro child parent older _
  exact keeps.shapes child (.under parent older hangs)

/-! A new text at one site. -/

theorem setTextContent_text {id : Nat} {content : String} {parent : Option NodeId}
    {children : List NodeId} (found : forest.shape? id =
      some { content := .text content, parent, children }) (text : String) :
    (forest.setTextContent id text).shape? id =
        some { content := .text text, parent, children } ∧
      ∀ other, other ≠ id → (forest.setTextContent id text).shape? other = forest.shape? other := by
  obtain ⟨known, here, plainly⟩ := content?_of_shape? found
  have same : forest.setTextContent id text = forest.setContent id (.text text) := by
    unfold setTextContent
    rw [here]
    cases known <;> cases plainly
    rfl
  rw [same]
  constructor
  · rw [shape?_setContent_self, found]
    rfl
  · intro other apart
    exact shape?_modify_of_ne (Ne.symm apart)

/-- The old children of an element give way to one text node. -/
theorem setTextContent_element {id : Nat} {element : Element Handler} {parent : Option NodeId}
    {children : List NodeId} (found : forest.shape? id =
      some { content := .element element, parent, children }) (apart : id ∉ children)
    (old : limit ≤ forest.size) (text : String) :
    (∃ inner, (forest.setTextContent id text).HoldsText limit id inner text ∧
      (forest.setTextContent id text).shape? id =
        some { content := .element element, parent, children := inner }) ∧
      ∀ other, other < forest.size → other ≠ id → other ∉ children →
        (forest.setTextContent id text).shape? other = forest.shape? other := by
  obtain ⟨known, here, plainly⟩ := content?_of_shape? found
  have same : forest.setTextContent id text =
      if text = "" then forest.clear id
      else ((forest.clear id).create (.text text)).2.append id
        ((forest.clear id).create (.text text)).1 := by
    unfold setTextContent
    rw [here]
    cases known <;> cases plainly
    rfl
  have listed : forest.children id = children := children_of_shape? found
  have cleared : (forest.clear id).shape? id =
      some { content := .element element, parent, children := [] } := by
    unfold clear
    rw [listed, shape?_foldl_setParent _ _ apart, shape?_setChildren_self, found]
    rfl
  have others : ∀ other, other ≠ id → other ∉ children →
      (forest.clear id).shape? other = forest.shape? other := by
    intro other different free
    exact shape?_clear (Ne.symm different) (by rw [listed]; exact free)
  have size := size_clear forest id
  have below : id < (forest.clear id).size := lt_size_of_shape? cleared
  rw [same]
  by_cases empty : text = ""
  · rw [if_pos empty]
    exact ⟨⟨[], Or.inl ⟨empty, rfl⟩, cleared⟩, fun other _ => others other⟩
  · rw [if_neg empty, append_text]
    obtain ⟨child, grown⟩ := shape?_grown_self (forest.clear id) below (.text text)
    rw [cleared] at grown
    refine ⟨⟨[(forest.clear id).size], Or.inr ⟨_, empty, below, ?_, rfl, child⟩, grown⟩, ?_⟩
    · rw [size]
      exact old
    · intro other inside different free
      rw [shape?_grown _ _ (by rw [size]; exact inside) (Ne.symm different), others other different free]

/-- A new text at a site shows there, and all other spots stay the same. -/
theorem shows_setTextContent {site : Site} {old : String} (shows : forest.ShowsText limit site old)
    (small : site.node < limit) (known : limit ≤ forest.size) (text : String) :
    (forest.setTextContent site.node text).ShowsText limit site text ∧
      (∀ other : Nat, other ≠ site.node → other < limit →
        (forest.setTextContent site.node text).shape? other = forest.shape? other) ∧
      ∀ (shown : Site → String) (spot : Spot), spot.node ≠ site.node → spot.node < limit →
        forest.Shows limit shown spot →
          (forest.setTextContent site.node text).Shows limit shown spot := by
  obtain ⟨id, parent, form⟩ := site
  cases form with
  | interpolation source =>
      obtain ⟨here, others⟩ := setTextContent_text shows text
      refine ⟨here, fun other apart _ => others other apart, fun shown spot apart _ present => ?_⟩
      apply shows_of_shapes (others spot.node apart) _ present
      intro child _ _ late
      exact others child (Nat.ne_of_gt (Nat.lt_of_lt_of_le small late))
  | content tag attributes source =>
      obtain ⟨children, holds, found⟩ := shows
      have owned : ∀ child ∈ children, limit ≤ child ∧ forest.parent? child = some id := by
        intro child member
        rcases holds with ⟨-, none⟩ | ⟨only, -, -, late, single, there⟩
        · rw [none] at member
          cases member
        · rw [single] at member
          cases List.mem_singleton.mp member
          exact ⟨late, parent?_of_shape? there⟩
      have away : ∀ other : Nat, other < limit → other ∉ children := fun other below member =>
        absurd (owned other member).1 (Nat.not_le_of_lt below)
      obtain ⟨here, others⟩ := setTextContent_element found (away id small) known text
      have kept : ∀ other : Nat, other ≠ id → other < limit →
          (forest.setTextContent id text).shape? other = forest.shape? other :=
        fun other apart below => others other (Nat.lt_of_lt_of_le below known) apart (away other below)
      refine ⟨here, kept, fun shown spot apart below present => ?_⟩
      apply shows_of_shapes (kept spot.node apart below) _ present
      intro child parented _ late
      apply others child (lt_size_of_parent? parented) (Nat.ne_of_gt (Nat.lt_of_lt_of_le small late))
      intro member
      have same := parented.symm.trans (owned child member).2
      exact apart (Option.some.inj same)

end Forest

end LiveMarkup
