import LiveMarkup.Proofs.Hanging

/-
This file says where the nodes of planted markup stand. They are numbered in document order.
-/

namespace LiveMarkup

namespace Markup

mutual

/-- A piece of markup has this many nodes. -/
def count : Markup → Nat
  | .text _ => 1
  | .comment _ => 1
  | .element _ _ children => 1 + countAll children

def countAll : List Markup → Nat
  | [] => 0
  | first :: rest => count first + countAll rest

end

/-- These are the numbers of trees that are planted one after the other. -/
def places (start : Nat) : List Markup → List NodeId
  | [] => []
  | first :: rest => start :: places (start + first.count) rest

variable {Handler : Type}

mutual

/-- Each node of planted markup has this shape. -/
def planted (parent id : Nat) : Markup → List (Nat × Node Handler)
  | .text content => [(id, { content := .text content, parent := some parent })]
  | .comment content => [(id, { content := .comment content, parent := some parent })]
  | .element tag attributes children =>
      (id, { content := .element { tag, attributes }, parent := some parent,
             children := places (id + 1) children }) :: plantedAll id (id + 1) children

def plantedAll (parent id : Nat) : List Markup → List (Nat × Node Handler)
  | [] => []
  | first :: rest => planted parent id first ++ plantedAll parent (id + first.count) rest

end

theorem count_pos (tree : Markup) : 0 < tree.count := by
  cases tree with
  | text content => exact Nat.one_pos
  | comment content => exact Nat.one_pos
  | element tag attributes children => exact Nat.lt_of_lt_of_le Nat.one_pos (Nat.le_add_right 1 _)

mutual

theorem bounds_of_mem_planted (parent id : Nat) :
    ∀ tree : Markup, ∀ spot ∈ (planted parent id tree : List (Nat × Node Handler)),
      id ≤ spot.1 ∧ spot.1 < id + tree.count
  | .text content, spot, member => by
      cases List.mem_singleton.mp member
      exact ⟨Nat.le_refl _, Nat.lt_succ_self _⟩
  | .comment content, spot, member => by
      cases List.mem_singleton.mp member
      exact ⟨Nat.le_refl _, Nat.lt_succ_self _⟩
  | .element tag attributes children, spot, member => by
      unfold planted at member
      unfold count
      rcases List.mem_cons.mp member with here | below
      · cases here
        exact ⟨Nat.le_refl _, Nat.lt_add_of_pos_right (Nat.lt_of_lt_of_le Nat.one_pos (Nat.le_add_right 1 _))⟩
      · obtain ⟨least, most⟩ := bounds_of_mem_plantedAll id (id + 1) children spot below
        constructor
        · exact Nat.le_of_succ_le least
        · exact Nat.lt_of_lt_of_eq most (Nat.add_assoc id 1 _)

theorem bounds_of_mem_plantedAll (parent id : Nat) :
    ∀ trees : List Markup, ∀ spot ∈ (plantedAll parent id trees : List (Nat × Node Handler)),
      id ≤ spot.1 ∧ spot.1 < id + countAll trees
  | [], spot, member => by cases member
  | first :: rest, spot, member => by
      unfold countAll
      rcases List.mem_append.mp member with here | later
      · obtain ⟨least, most⟩ := bounds_of_mem_planted parent id first spot here
        exact ⟨least, Nat.lt_of_lt_of_le most (by omega)⟩
      · obtain ⟨least, most⟩ := bounds_of_mem_plantedAll parent (id + first.count) rest spot later
        exact ⟨Nat.le_trans (Nat.le_add_right _ _) least, Nat.lt_of_lt_of_eq most (Nat.add_assoc _ _ _)⟩

end

end Markup

namespace Forest

variable {Handler : Type}

/-- A forest shows some spots if their nodes have these shapes. -/
def Has (forest : Forest Handler) (spots : List (Nat × Node Handler)) : Prop :=
  ∀ spot ∈ spots, forest.shape? spot.1 = some spot.2

/-- A new node is the last child of its parent. -/
theorem shape?_grown_self (forest : Forest Handler) {parent : Nat} (known : parent < forest.size)
    (content : Content Handler) :
    ((forest.create content).2.attach parent (forest.create content).1).shape? forest.size =
        some { content := content.plain, parent := some parent } ∧
      ((forest.create content).2.attach parent (forest.create content).1).shape? parent =
        (forest.shape? parent).map fun shape =>
          { shape with children := shape.children ++ [forest.size] } := by
  have apart : (forest.create content).1 ≠ parent := Nat.ne_of_gt known
  obtain ⟨child, grown⟩ := shape?_attach_self apart (parent?_create forest content)
  rw [shape?_create_self] at child
  rw [shape?_create known] at grown
  exact ⟨child, grown⟩

/-- Trees were planted below a parent. -/
structure Planting (before : Forest Handler) (parent : Nat) (trees : List Markup)
    (after : Forest Handler) : Prop where
  size : after.size = before.size + Markup.countAll trees
  grown : after.shape? parent = (before.shape? parent).map fun shape =>
    { shape with children := shape.children ++ Markup.places before.size trees }
  has : after.Has (Markup.plantedAll parent before.size trees)

/-- A tree without children is planted with one node. -/
theorem planting_leaf {forest : Forest Handler} {parent : Nat} (known : parent < forest.size)
    {tree : Markup} (content : Content Handler) (single : tree.count = 1)
    (planted : tree.planted parent forest.size =
      [(forest.size, { content := content.plain, parent := some parent })]) :
    Planting forest parent [tree]
      ((forest.create content).2.attach parent (forest.create content).1) := by
  obtain ⟨child, grown⟩ := shape?_grown_self forest known content
  constructor
  · rw [size_attach, size_create, Markup.countAll, Markup.countAll, single]
  · exact grown
  · intro spot member
    rw [Markup.plantedAll, Markup.plantedAll, planted] at member
    cases List.mem_singleton.mp member
    exact child

mutual

theorem planting_plant (forest : Forest Handler) {parent : Nat} (known : parent < forest.size) :
    ∀ tree : Markup, Planting forest parent [tree] (forest.plant parent tree)
  | .text content => planting_leaf known (.text content) rfl rfl
  | .comment content => planting_leaf known (.comment content) rfl rfl
  | .element tag attributes children => by
      obtain ⟨child, grown⟩ := shape?_grown_self forest known (.element { tag, attributes })
      have size : ((forest.create (.element { tag, attributes })).2.attach parent
          (forest.create (.element { tag, attributes })).1).size = forest.size + 1 := by
        rw [size_attach, size_create]
      have below := planting_plantAll _ (Nat.lt_of_lt_of_eq (Nat.lt_succ_self _) size.symm) children
      have aside := shape?_plantAll _ _ (Nat.lt_of_lt_of_eq (Nat.lt_succ_of_lt known) size.symm)
        (Nat.ne_of_gt known) children
      have plants : forest.plant parent (.element tag attributes children) =
          (((forest.create (.element { tag, attributes })).2.attach parent
            (forest.create (.element { tag, attributes })).1).plantAll forest.size children) := rfl
      rw [plants]
      constructor
      · rw [below.size, size, Markup.countAll, Markup.countAll, Markup.count]
        omega
      · rw [aside, grown]
        rfl
      · intro spot member
        rw [Markup.plantedAll, Markup.plantedAll, Markup.planted, List.append_nil] at member
        rcases List.mem_cons.mp member with here | inside
        · cases here
          rw [below.grown, child, size]
          rfl
        · rw [← size] at inside
          exact below.has spot inside

theorem planting_plantAll (forest : Forest Handler) {parent : Nat} (known : parent < forest.size) :
    ∀ trees : List Markup, Planting forest parent trees (forest.plantAll parent trees)
  | [] => by
      constructor
      · rfl
      · rw [Markup.places]
        show forest.shape? parent = _
        cases forest.shape? parent <;> simp
      · intro spot member
        cases member
  | first :: rest => by
      have here := planting_plant forest known first
      have size := here.size
      rw [Markup.countAll, Markup.countAll, Nat.add_zero] at size
      have reaches : parent < (forest.plant parent first).size := by omega
      have later := planting_plantAll (forest.plant parent first) reaches rest
      have plants : forest.plantAll parent (first :: rest) =
          (forest.plant parent first).plantAll parent rest := rfl
      rw [plants]
      constructor
      · rw [later.size, size, Markup.countAll, Nat.add_assoc]
      · rw [later.grown, here.grown, size, Markup.places, Markup.places, Markup.places]
        cases forest.shape? parent <;> simp
      · intro spot member
        rw [Markup.plantedAll] at member
        rcases List.mem_append.mp member with early | late
        · obtain ⟨least, most⟩ := Markup.bounds_of_mem_planted parent forest.size first spot early
          have below : spot.1 < (forest.plant parent first).size := by omega
          have aside : parent ≠ spot.1 := by omega
          rw [shape?_plantAll _ _ below aside]
          apply here.has spot
          rw [Markup.plantedAll, Markup.plantedAll, List.append_nil]
          exact early
        · rw [← size] at late
          exact later.has spot late

end

/-- A template is planted below a new fragment. -/
theorem planting_plantFragment (forest : Forest Handler) (trees : List Markup) :
    (forest.plantFragment trees).2.size = forest.size + 1 + Markup.countAll trees ∧
      (forest.plantFragment trees).2.shape? forest.size =
        some { content := .fragment, children := Markup.places (forest.size + 1) trees } ∧
      (forest.plantFragment trees).2.Has (Markup.plantedAll forest.size (forest.size + 1) trees) := by
  have size := size_create forest .fragment
  have planting := planting_plantAll (forest.create .fragment).2
    (Nat.lt_of_lt_of_eq (Nat.lt_succ_self forest.size) size.symm) trees
  have root := planting.grown
  have total := planting.size
  have has := planting.has
  have made : (forest.create .fragment).2.shape? forest.size = some { content := .fragment } :=
    shape?_create_self forest .fragment
  rw [size] at root total has
  rw [made] at root
  exact ⟨total, root, has⟩

/-! Nodes show the markup that they were planted for. -/

theorem content?_of_shape? {forest : Forest Handler} {id : Nat} {shape : Node Handler}
    (found : forest.shape? id = some shape) :
    ∃ content, forest.content? id = some content ∧ content.plain = shape.content := by
  obtain ⟨node, known, same⟩ := Option.map_eq_some_iff.mp found
  refine ⟨node.content, ?_, ?_⟩
  · rw [content?, known]
    rfl
  · rw [← same]

/-- A content gives this markup, together with what the children give. -/
def markupOf (inner : List Markup) : Content Handler → List Markup
  | .fragment => inner
  | .text content => [.text content]
  | .comment content => [.comment content]
  | .element element => [.element element.tag element.attributes inner]

theorem markupTo_of_shape? {forest : Forest Handler} {id : Nat} {shape : Node Handler} (depth : Nat)
    (found : forest.shape? id = some shape) :
    forest.markupTo (depth + 1) id =
      markupOf (shape.children.flatMap (forest.markupTo depth)) shape.content := by
  obtain ⟨content, known, same⟩ := content?_of_shape? found
  unfold markupTo
  rw [known, children_of_shape? found, ← same]
  cases content <;> rfl

/-- A node that exists is not deeper than the size of the forest. -/
theorem exists_depth {forest : Forest Handler} {id depth : Nat} {shape : Node Handler}
    (found : forest.shape? id = some shape) (enough : forest.size ≤ depth + id) :
    ∃ rest, depth = rest + 1 := by
  have below := lt_size_of_shape? found
  exact ⟨depth - 1, by omega⟩

mutual

theorem markupTo_of_has {forest : Forest Handler} (parent : Nat) :
    ∀ (tree : Markup) (id depth : Nat), forest.size ≤ depth + id →
      forest.Has (tree.planted parent id) → forest.markupTo depth id = [tree]
  | .text content, id, depth, enough, has => by
      have found := has _ (List.mem_singleton_self _)
      obtain ⟨rest, same⟩ := exists_depth found enough
      rw [same, markupTo_of_shape? rest found]
      rfl
  | .comment content, id, depth, enough, has => by
      have found := has _ (List.mem_singleton_self _)
      obtain ⟨rest, same⟩ := exists_depth found enough
      rw [same, markupTo_of_shape? rest found]
      rfl
  | .element tag attributes children, id, depth, enough, has => by
      have found := has _ List.mem_cons_self
      obtain ⟨rest, same⟩ := exists_depth found enough
      have inner := flatMap_of_has id children (id + 1) rest (by omega)
        fun spot member => has spot (List.mem_cons_of_mem _ member)
      rw [same, markupTo_of_shape? rest found]
      dsimp only [markupOf]
      rw [inner]

theorem flatMap_of_has {forest : Forest Handler} (parent : Nat) :
    ∀ (trees : List Markup) (id depth : Nat), forest.size ≤ depth + id →
      forest.Has (Markup.plantedAll parent id trees) →
      (Markup.places id trees).flatMap (forest.markupTo depth) = trees
  | [], _, _, _, _ => rfl
  | first :: rest, id, depth, enough, has => by
      have here := markupTo_of_has parent first id depth enough
        fun spot member => has spot (List.mem_append_left _ member)
      have later := flatMap_of_has parent rest (id + first.count) depth (by omega)
        fun spot member => has spot (List.mem_append_right _ member)
      rw [Markup.places, List.flatMap_cons, here, later]
      rfl

end

theorem innerMarkup_plantFragment (forest : Forest Handler) (trees : List Markup) :
    (forest.plantFragment trees).2.innerMarkup forest.size = trees := by
  obtain ⟨size, root, has⟩ := planting_plantFragment forest trees
  unfold innerMarkup
  rw [children_of_shape? root]
  exact flatMap_of_has forest.size trees (forest.size + 1) _ (by omega) has

end Forest

end LiveMarkup
