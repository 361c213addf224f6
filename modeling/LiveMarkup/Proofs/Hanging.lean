import LiveMarkup.Forest.Selector
import LiveMarkup.Proofs.Nodes

/-
This file says which changes of a forest leave alone what hangs below a node.
-/

namespace LiveMarkup

namespace Content

variable {Handler : Type}

/-- Values and listeners are no part of what a node shows. -/
def plain : Content Handler → Content Handler
  | .element found => .element { tag := found.tag, attributes := found.attributes }
  | other => other

end Content

namespace Forest

variable {Handler : Type} {forest : Forest Handler} {root id other : Nat}

/-- This is what a node contributes to markup, with its place. -/
def shape? (forest : Forest Handler) (id : NodeId) : Option (Node Handler) :=
  (forest.node? id).map fun node => { node with content := node.content.plain }

theorem parent?_eq_shape? (forest : Forest Handler) (id : NodeId) :
    forest.parent? id = (forest.shape? id).bind Node.parent := by
  unfold parent? shape?
  cases forest.node? id <;> rfl

theorem children_eq_shape? (forest : Forest Handler) (id : NodeId) :
    forest.children id = ((forest.shape? id).map Node.children).getD [] := by
  unfold children shape?
  cases forest.node? id <;> rfl

theorem parent?_of_shape? {shape : Node Handler} (found : forest.shape? id = some shape) :
    forest.parent? id = shape.parent := by
  rw [parent?_eq_shape?, found]
  rfl

theorem children_of_shape? {shape : Node Handler} (found : forest.shape? id = some shape) :
    forest.children id = shape.children := by
  rw [children_eq_shape?, found]
  rfl

theorem lt_size_of_shape? {shape : Node Handler} (found : forest.shape? id = some shape) :
    id < forest.size := by
  obtain ⟨node, known, -⟩ := Option.map_eq_some_iff.mp found
  exact (Array.getElem?_eq_some_iff.mp known).1

theorem lt_size_of_parent? {parent : NodeId} (found : forest.parent? id = some parent) :
    id < forest.size := by
  obtain ⟨node, known, -⟩ := Option.bind_eq_some_iff.mp found
  exact (Array.getElem?_eq_some_iff.mp known).1

/-! Changes of one node. -/

theorem shape?_modify_of_ne {change : Node Handler → Node Handler} (different : id ≠ other) :
    (forest.modify id change).shape? other = forest.shape? other := by
  simp [shape?, node?_modify, different]

theorem shape?_modify_self {change : Node Handler → Node Handler} {node : Node Handler}
    (found : forest.node? id = some node) :
    (forest.modify id change).shape? id =
      some { change node with content := (change node).content.plain } := by
  simp [shape?, node?_modify, found]

theorem shape?_setParent_self (forest : Forest Handler) (id : NodeId) (parent : Option NodeId) :
    (forest.setParent id parent).shape? id =
      (forest.shape? id).map fun shape => { shape with parent } := by
  unfold shape? setParent
  rw [node?_modify, if_pos rfl]
  cases forest.node? id <;> rfl

theorem shape?_setChildren_self (forest : Forest Handler) (id : NodeId) (children : List NodeId) :
    (forest.setChildren id children).shape? id =
      (forest.shape? id).map fun shape => { shape with children } := by
  unfold shape? setChildren
  rw [node?_modify, if_pos rfl]
  cases forest.node? id <;> rfl

theorem shape?_setContent_self (forest : Forest Handler) (id : NodeId)
    (content : Content Handler) :
    (forest.setContent id content).shape? id =
      (forest.shape? id).map fun shape => { shape with content := content.plain } := by
  unfold shape? setContent
  rw [node?_modify, if_pos rfl]
  cases forest.node? id <;> rfl

theorem parent?_setContent (forest : Forest Handler) (id : NodeId) (content : Content Handler) :
    (forest.setContent id content).parent? other = forest.parent? other := by
  unfold parent? setContent
  rw [node?_modify]
  split
  · cases forest.node? other <;> rfl
  · rfl

theorem children_setContent (forest : Forest Handler) (id : NodeId) (content : Content Handler) :
    (forest.setContent id content).children other = forest.children other := by
  unfold setContent children
  rw [node?_modify]
  by_cases same : id = other
  · rw [if_pos same]
    cases forest.node? other <;> rfl
  · rw [if_neg same]

theorem parent?_setParent_of_ne {parent : Option NodeId} (different : id ≠ other) :
    (forest.setParent id parent).parent? other = forest.parent? other := by
  rw [parent?_eq_shape?, parent?_eq_shape?, setParent, shape?_modify_of_ne different]

/-- A node has the parent that was set, if it exists. -/
theorem eq_of_parent?_setParent {parent : Option NodeId} {found : NodeId}
    (looked : (forest.setParent id parent).parent? id = some found) : parent = some found := by
  unfold parent? setParent at looked
  rw [node?_modify, if_pos rfl] at looked
  cases known : forest.node? id with
  | none => simp [known] at looked
  | some node => simpa [known] using looked

theorem children_setChildren_of_ne {children : List NodeId} (different : id ≠ other) :
    (forest.setChildren id children).children other = forest.children other := by
  rw [children_eq_shape?, children_eq_shape?, setChildren, shape?_modify_of_ne different]

theorem shape?_modifyElement_of_ne {change : Element Handler → Element Handler}
    (different : id ≠ other) :
    (forest.modifyElement id change).shape? other = forest.shape? other := by
  unfold modifyElement
  split
  · exact shape?_modify_of_ne different
  · rfl

theorem node?_of_element? {element : Element Handler} (found : forest.element? id = some element) :
    ∃ node, forest.node? id = some node ∧ node.content = .element element := by
  obtain ⟨content, known, same⟩ := Option.bind_eq_some_iff.mp found
  obtain ⟨node, looked, here⟩ := Option.map_eq_some_iff.mp known
  refine ⟨node, looked, ?_⟩
  rw [here]
  cases content <;> cases same
  rfl

theorem lt_size_of_element? {element : Element Handler} (found : forest.element? id = some element) :
    id < forest.size := by
  obtain ⟨node, known, -⟩ := node?_of_element? found
  exact (Array.getElem?_eq_some_iff.mp known).1

/-- What a selector finds is a node. -/
theorem lt_size_of_query? {root : NodeId} {selector : String}
    (found : forest.query? root selector = some id) : id < forest.size := by
  have selected := List.find?_some found
  unfold isSelected at selected
  cases known : forest.element? id with
  | none =>
      rw [known] at selected
      cases selected
  | some element => exact lt_size_of_element? known

/-- A change of values and listeners shows nowhere. -/
theorem shape?_modifyElement {change : Element Handler → Element Handler}
    (tag : ∀ element, (change element).tag = element.tag)
    (attributes : ∀ element, (change element).attributes = element.attributes) :
    (forest.modifyElement id change).shape? other = forest.shape? other := by
  by_cases same : id = other
  · subst same
    unfold modifyElement
    split
    · rename_i element found
      obtain ⟨node, known, content⟩ := node?_of_element? found
      rw [setContent, shape?_modify_self known, shape?, known]
      simp [Content.plain, content, tag, attributes]
    · rfl
  · exact shape?_modifyElement_of_ne same

/-- Attributes are no links. -/
theorem children_modifyElement {change : Element Handler → Element Handler} :
    (forest.modifyElement id change).children other = forest.children other := by
  unfold modifyElement
  split
  · by_cases same : id = other
    · subst same
      unfold children setContent
      rw [node?_modify, if_pos rfl]
      cases forest.node? id <;> rfl
    · rw [children_eq_shape?, children_eq_shape?, setContent, shape?_modify_of_ne same]
  · rfl

theorem shape?_create {content : Content Handler} (below : other < forest.size) :
    (forest.create content).2.shape? other = forest.shape? other := by
  unfold shape? node? create
  rw [Array.getElem?_push_lt below, Array.getElem?_eq_getElem below]

theorem parent?_create (forest : Forest Handler) (content : Content Handler) :
    (forest.create content).2.parent? (forest.create content).1 = none := by
  unfold parent?
  rw [node?_create]
  rfl

theorem shape?_create_self (forest : Forest Handler) (content : Content Handler) :
    (forest.create content).2.shape? (forest.create content).1 = some { content := content.plain } := by
  unfold shape?
  rw [node?_create]
  rfl

/-- A text that is new is no fragment. -/
theorem append_text (forest : Forest Handler) (parent : NodeId) (content : String) :
    (forest.create (.text content)).2.append parent (forest.create (.text content)).1 =
      (forest.create (.text content)).2.attach parent (forest.create (.text content)).1 := by
  have plainly : (forest.create (.text content)).2.isFragment (forest.create (.text content)).1 =
      false := by
    unfold isFragment content?
    rw [node?_create]
    rfl
  unfold append
  rw [plainly]
  exact if_neg Bool.false_ne_true

/-! Changes of links. -/

theorem shape?_detach (apart : id ≠ other) (free : forest.parent? id ≠ some other) :
    (forest.detach id).shape? other = forest.shape? other := by
  unfold detach
  split
  · rfl
  · rename_i parent found
    have different : parent ≠ other := fun same => free (same ▸ found)
    rw [setParent, shape?_modify_of_ne apart, setChildren, shape?_modify_of_ne different]

theorem children_detach (free : forest.parent? id ≠ some other) :
    (forest.detach id).children other = forest.children other := by
  unfold detach
  split
  · rfl
  · rename_i parent found
    have different : parent ≠ other := fun same => free (same ▸ found)
    rw [children_setParent, children_setChildren_of_ne different]

theorem parent?_detach (apart : id ≠ other) :
    (forest.detach id).parent? other = forest.parent? other := by
  unfold detach
  split
  · rfl
  · rw [parent?_setParent_of_ne apart, parent?_setChildren]

theorem shape?_attach {parent child : NodeId} (apart : child ≠ other) (aside : parent ≠ other)
    (free : forest.parent? child ≠ some other) :
    (forest.attach parent child).shape? other = forest.shape? other := by
  unfold attach
  dsimp only
  rw [setChildren, shape?_modify_of_ne aside, setParent, shape?_modify_of_ne apart,
    shape?_detach apart free]

theorem children_attach {parent child : NodeId} (aside : parent ≠ other)
    (free : forest.parent? child ≠ some other) :
    (forest.attach parent child).children other = forest.children other := by
  unfold attach
  dsimp only
  rw [children_setChildren_of_ne aside, children_setParent, children_detach free]

/-- A node without a parent only gains one, and the parent gains a last child. -/
theorem shape?_attach_self {parent child : Nat} (apart : child ≠ parent)
    (orphan : forest.parent? child = none) :
    (forest.attach parent child).shape? child =
        (forest.shape? child).map (fun shape => { shape with parent := some parent }) ∧
      (forest.attach parent child).shape? parent =
        (forest.shape? parent).map fun shape =>
          { shape with children := shape.children ++ [child] } := by
  have same : forest.detach child = forest := by
    unfold detach
    rw [orphan]
  unfold attach
  dsimp only
  rw [same, children_setParent]
  constructor
  · rw [setChildren, shape?_modify_of_ne (Ne.symm apart), shape?_setParent_self]
  · rw [shape?_setChildren_self, setParent, shape?_modify_of_ne apart, children_eq_shape?]
    cases forest.shape? parent <;> rfl

theorem parent?_attach_of_ne {parent child : NodeId} (apart : child ≠ other) :
    (forest.attach parent child).parent? other = forest.parent? other := by
  unfold attach
  dsimp only
  rw [parent?_setChildren, parent?_setParent_of_ne apart, parent?_detach apart]

theorem eq_of_parent?_attach {parent child found : NodeId}
    (looked : (forest.attach parent child).parent? child = some found) : parent = found := by
  unfold attach at looked
  dsimp only at looked
  rw [parent?_setChildren] at looked
  exact Option.some.inj (eq_of_parent?_setParent looked)

theorem shape?_foldl_setParent (ids : List NodeId) (forest : Forest Handler)
    (apart : other ∉ ids) :
    (ids.foldl (fun current child => current.setParent child none) forest).shape? other =
      forest.shape? other := by
  induction ids generalizing forest with
  | nil => rfl
  | cons first rest inductionHypothesis =>
      have here : first ≠ other := fun same => apart (same ▸ List.mem_cons_self)
      rw [List.foldl_cons, inductionHypothesis _ fun member => apart (List.mem_cons_of_mem _ member),
        setParent, shape?_modify_of_ne here]

theorem children_foldl_setParent (ids : List NodeId) (forest : Forest Handler) :
    (ids.foldl (fun current child => current.setParent child none) forest).children other =
      forest.children other := by
  induction ids generalizing forest with
  | nil => rfl
  | cons first rest inductionHypothesis =>
      rw [List.foldl_cons, inductionHypothesis, children_setParent]

theorem shape?_clear (apart : id ≠ other) (free : other ∉ forest.children id) :
    (forest.clear id).shape? other = forest.shape? other := by
  unfold clear
  rw [shape?_foldl_setParent _ _ free, setChildren, shape?_modify_of_ne apart]

theorem children_clear_of_ne (apart : id ≠ other) :
    (forest.clear id).children other = forest.children other := by
  unfold clear
  rw [children_foldl_setParent, children_setChildren_of_ne apart]

/-- A new node that is attached leaves all nodes but its parent alone. -/
theorem shape?_grown (forest : Forest Handler) (parent : NodeId) {other : Nat}
    (below : other < forest.size) (aside : parent ≠ other) (content : Content Handler) :
    ((forest.create content).2.attach parent (forest.create content).1).shape? other =
      forest.shape? other := by
  have orphan : (forest.create content).2.parent? (forest.create content).1 ≠ some other := by
    rw [parent?_create]
    exact Option.some_ne_none other |>.symm
  have newer : (forest.create content).1 ≠ other := Nat.ne_of_gt below
  rw [shape?_attach newer aside orphan, shape?_create below]

/-- An emptied node has no children, and no node gains a parent. -/
theorem children_clear (forest : Forest Handler) (id : NodeId) :
    (forest.clear id).children id = [] := by
  unfold clear
  rw [children_foldl_setParent, children_eq_shape?, shape?_setChildren_self]
  cases forest.shape? id <;> rfl

theorem parent?_of_clear {node child parent : NodeId}
    (found : (forest.clear node).parent? child = some parent) :
    forest.parent? child = some parent := by
  have folded : ∀ (ids : List NodeId) (current : Forest Handler),
      (ids.foldl (fun current child => current.setParent child none) current).parent? child =
        some parent → current.parent? child = some parent := by
    intro ids
    induction ids with
    | nil => exact fun _ found => found
    | cons first rest inductionHypothesis =>
        intro current found
        have earlier := inductionHypothesis _ found
        by_cases same : first = child
        · subst same
          cases eq_of_parent?_setParent earlier
        · rwa [parent?_setParent_of_ne same] at earlier
  have earlier := folded _ _ found
  rwa [parent?_setChildren] at earlier

/-! Links are no content. -/

theorem content?_modify {change : Node Handler → Node Handler}
    (same : ∀ node, (change node).content = node.content) :
    (forest.modify id change).content? other = forest.content? other := by
  unfold content?
  rw [node?_modify]
  split
  · cases forest.node? other with
    | none => rfl
    | some found => exact congrArg some (same found)
  · rfl

@[simp] theorem content?_setParent (forest : Forest Handler) (id : NodeId) (parent : Option NodeId) :
    (forest.setParent id parent).content? other = forest.content? other :=
  content?_modify fun _ => rfl

@[simp] theorem content?_setChildren (forest : Forest Handler) (id : NodeId) (children : List NodeId) :
    (forest.setChildren id children).content? other = forest.content? other :=
  content?_modify fun _ => rfl

@[simp] theorem content?_detach (forest : Forest Handler) (id : NodeId) :
    (forest.detach id).content? other = forest.content? other := by
  unfold detach
  split <;> simp

@[simp] theorem content?_attach (forest : Forest Handler) (parent child : NodeId) :
    (forest.attach parent child).content? other = forest.content? other := by
  simp [attach]

theorem content?_create {content : Content Handler} (known : other < forest.size) :
    (forest.create content).2.content? other = forest.content? other := by
  have below : other < forest.nodes.size := known
  simp only [content?, node?, create, Array.getElem?_push_lt below, Array.getElem?_eq_getElem below]

theorem content?_setContent (forest : Forest Handler) (id : NodeId) (content : Content Handler) :
    (forest.setContent id content).content? other =
      if id = other then (forest.content? other).map fun _ => content else forest.content? other := by
  unfold content? setContent
  rw [node?_modify]
  split
  · rw [Option.map_map, Option.map_map]
    rfl
  · rfl

@[simp] theorem content?_clear (forest : Forest Handler) (id : NodeId) :
    (forest.clear id).content? other = forest.content? other := by
  have folded : ∀ (ids : List NodeId) (current : Forest Handler),
      (ids.foldl (fun current child => current.setParent child none) current).content? other =
        current.content? other := by
    intro ids
    induction ids with
    | nil => exact fun _ => rfl
    | cons first rest inductionHypothesis =>
        intro current
        rw [List.foldl_cons, inductionHypothesis, content?_setParent]
  unfold clear
  rw [folded, content?_setChildren]

@[simp] theorem content?_append (forest : Forest Handler) (parent child : NodeId) :
    (forest.append parent child).content? other = forest.content? other := by
  have folded : ∀ (ids : List NodeId) (current : Forest Handler),
      (ids.foldl (fun current grandchild => current.attach parent grandchild) current).content? other =
        current.content? other := by
    intro ids
    induction ids with
    | nil => exact fun _ => rfl
    | cons first rest inductionHypothesis =>
        intro current
        rw [List.foldl_cons, inductionHypothesis, content?_attach]
  unfold append
  split
  · exact folded _ forest
  · exact content?_attach forest parent child

/-- A new text changes no element. -/
theorem element?_setTextContent (known : other < forest.size) (text : String) :
    (forest.setTextContent id text).element? other = forest.element? other := by
  unfold element? setTextContent
  split
  · rfl
  · rename_i old found
    rw [content?_setContent]
    split
    · rename_i same
      rw [← same, found]
      rfl
    · rfl
  · rfl
  · dsimp only
    split
    · rw [content?_clear]
    · rw [append_text, content?_attach, content?_create (by rwa [size_clear]), content?_clear]

theorem element?_modifyElement (forest : Forest Handler) (id other : NodeId)
    (change : Element Handler → Element Handler) :
    (forest.modifyElement id change).element? other =
      if id = other then (forest.element? other).map change else forest.element? other := by
  unfold modifyElement
  cases found : forest.element? id with
  | none =>
      dsimp only
      split
      · rename_i same
        rw [← same, found]
        rfl
      · rfl
  | some element =>
      dsimp only
      unfold element? at found ⊢
      rw [content?_setContent]
      split
      · rename_i same
        rw [← same]
        obtain ⟨content, known, here⟩ := Option.bind_eq_some_iff.mp found
        rw [known, Option.map_some, Option.bind_some, Option.bind_some, here]
        rfl
      · rfl

mutual

/-- Planting changes the parent and makes new nodes. -/
theorem shape?_plant (forest : Forest Handler) (parent : NodeId) {other : Nat}
    (below : other < forest.size) (aside : parent ≠ other) :
    ∀ tree : Markup, (forest.plant parent tree).shape? other = forest.shape? other
  | .text content => shape?_grown forest parent below aside _
  | .comment content => shape?_grown forest parent below aside _
  | .element tag attributes children => by
      have grown : other < ((forest.create (.element { tag, attributes })).2.attach parent
          (forest.create (.element { tag, attributes })).1).size := by
        rw [size_attach, size_create]
        exact Nat.lt_succ_of_lt below
      exact (shape?_plantAll _ _ grown (Nat.ne_of_gt below) children).trans
        (shape?_grown forest parent below aside _)

theorem shape?_plantAll (forest : Forest Handler) (parent : NodeId) {other : Nat}
    (below : other < forest.size) (aside : parent ≠ other) :
    ∀ trees : List Markup, (forest.plantAll parent trees).shape? other = forest.shape? other
  | [] => rfl
  | first :: rest => by
      have grown : other < (forest.plant parent first).size :=
        Nat.lt_of_lt_of_le below (size_plant forest parent first)
      exact (shape?_plantAll _ _ grown aside rest).trans (shape?_plant forest parent below aside first)

end

theorem shape?_plantFragment (trees : List Markup) (below : other < forest.size) :
    (forest.plantFragment trees).2.shape? other = forest.shape? other := by
  have grown : other < (forest.create .fragment).2.size := by
    rw [size_create]
    exact Nat.lt_succ_of_lt below
  exact (shape?_plantAll _ _ grown (Nat.ne_of_gt below) trees).trans (shape?_create below)

end Forest

end LiveMarkup
