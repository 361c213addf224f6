import LiveMarkup.Proofs.Hanging

/-
This file shows that an edit leaves alone all that hangs below a node which does not show the edit.
-/

namespace LiveMarkup.Forest

variable {Handler : Type} {forest : Forest Handler} {root id : Nat}

/-- A node hangs below a root if its chain of parents leads there. Parents are older than children. -/
inductive Hangs (forest : Forest Handler) (root : Nat) : Nat → Prop where
  | child {id : Nat} : forest.parent? id = some root → root < id → Hangs forest root id
  | under {id parent : Nat} : forest.parent? id = some parent → parent < id →
      Hangs forest root parent → Hangs forest root id

namespace Hangs

theorem lt_size (hangs : forest.Hangs root id) : id < forest.size := by
  cases hangs with
  | child found _ => exact lt_size_of_parent? found
  | under found _ _ => exact lt_size_of_parent? found

/-- A chain is no longer than the number of its last node. -/
theorem mem_aboveWithin (hangs : forest.Hangs root id) {limit : Nat} (enough : id ≤ limit) :
    root ∈ forest.aboveWithin limit id := by
  induction hangs generalizing limit with
  | child found older =>
      obtain ⟨rest, same⟩ : ∃ rest, limit = rest + 1 := ⟨limit - 1, by omega⟩
      rw [same, aboveWithin, found]
      exact List.mem_cons_self
  | under found older _ inductionHypothesis =>
      obtain ⟨rest, same⟩ : ∃ rest, limit = rest + 1 := ⟨limit - 1, by omega⟩
      rw [same, aboveWithin, found]
      exact List.mem_cons_of_mem _ (inductionHypothesis (by omega))

theorem mem_above (hangs : forest.Hangs root id) : root ∈ forest.above id :=
  hangs.mem_aboveWithin (Nat.le_of_lt hangs.lt_size)

end Hangs

theorem mem_above_of_parent? {parent : Nat} (found : forest.parent? id = some parent)
    (reached : parent = root ∨ forest.Hangs root parent) : root ∈ forest.above id := by
  have known := lt_size_of_parent? found
  obtain ⟨rest, same⟩ : ∃ rest, forest.size = rest + 1 := ⟨forest.size - 1, by omega⟩
  unfold above
  rw [same, aboveWithin, found]
  rcases reached with here | hangs
  · rw [here]
    exact List.mem_cons_self
  · have parentKnown := hangs.lt_size
    exact List.mem_cons_of_mem _ (hangs.mem_aboveWithin (by omega))

/-- A node is outside if neither it nor its parent belongs to what hangs below the root. -/
structure Outside (forest : Forest Handler) (root id : NodeId) : Prop where
  free : ¬ forest.Hangs root id
  parent : ∀ parent, forest.parent? id = some parent → parent ≠ root ∧ ¬ forest.Hangs root parent

theorem outside_of_above (absent : root ∉ forest.above id) : forest.Outside root id where
  free hangs := absent hangs.mem_above
  parent _ found := by
    have away := fun reached => absent (mem_above_of_parent? found reached)
    exact ⟨fun same => away (Or.inl same), fun hangs => away (Or.inr hangs)⟩

/-- One forest keeps what hangs below a root of another one, and the children of the root. -/
structure Keeps (root : NodeId) (before after : Forest Handler) : Prop where
  children : after.children root = before.children root
  shapes : ∀ id, before.Hangs root id → after.shape? id = before.shape? id

namespace Keeps

variable {first second third : Forest Handler}

theorem refl (root : NodeId) (forest : Forest Handler) : Keeps root forest forest :=
  ⟨rfl, fun _ _ => rfl⟩

theorem hangs (keeps : Keeps root first second) (hangs : first.Hangs root id) :
    second.Hangs root id := by
  have same : ∀ id, first.Hangs root id → second.parent? id = first.parent? id := by
    intro id hangs
    rw [parent?_eq_shape?, parent?_eq_shape?, keeps.shapes id hangs]
  induction hangs with
  | child found older => exact .child ((same _ (.child found older)).trans found) older
  | under found older above inductionHypothesis =>
      exact .under ((same _ (.under found older above)).trans found) older inductionHypothesis

theorem trans (early : Keeps root first second) (late : Keeps root second third) :
    Keeps root first third where
  children := late.children.trans early.children
  shapes id hangs := (late.shapes id (early.hangs hangs)).trans (early.shapes id hangs)

/-- Values and listeners make no difference. -/
theorem of_shapes (same : ∀ id, second.shape? id = first.shape? id) : Keeps root first second where
  children := by rw [children_eq_shape?, children_eq_shape?, same]
  shapes id _ := same id

theorem setValue (node : NodeId) (value : String) :
    Keeps root forest (forest.setValue node value) :=
  of_shapes fun _ => shape?_modifyElement (fun _ => rfl) (fun _ => rfl)

theorem listen (node : NodeId) (kind : String) (handler : Handler) :
    Keeps root forest (forest.listen node kind handler) :=
  of_shapes fun _ => shape?_modifyElement (fun _ => rfl) (fun _ => rfl)

theorem create (content : Content Handler) (known : root < forest.size) :
    Keeps root forest (forest.create content).2 where
  children := by rw [children_eq_shape?, children_eq_shape?, shape?_create known]
  shapes _ hangs := shape?_create hangs.lt_size

theorem plantFragment (trees : List Markup) (known : root < forest.size) :
    Keeps root forest (forest.plantFragment trees).2 where
  children := by rw [children_eq_shape?, children_eq_shape?, shape?_plantFragment trees known]
  shapes _ hangs := shape?_plantFragment trees hangs.lt_size

/-! Edits. They keep what hangs below a root that does not show them. -/

theorem modifyElement {change : Element Handler → Element Handler}
    (absent : root ∉ forest.above id) : Keeps root forest (forest.modifyElement id change) where
  children := children_modifyElement
  shapes other hangs := by
    apply shape?_modifyElement_of_ne
    intro same
    exact (outside_of_above absent).free (same ▸ hangs)

theorem detach (absent : root ∉ forest.above id) : Keeps root forest (forest.detach id) := by
  have outside := outside_of_above absent
  constructor
  · apply children_detach
    intro found
    exact (outside.parent root found).1 rfl
  · intro other hangs
    apply shape?_detach
    · intro same
      exact outside.free (same ▸ hangs)
    · intro found
      exact (outside.parent other found).2 hangs

theorem clear (absent : root ∉ forest.holders id) : Keeps root forest (forest.clear id) := by
  obtain ⟨here, children⟩ := not_or.mp (mt List.mem_append.mpr absent)
  obtain ⟨apart, above⟩ := not_or.mp (mt List.mem_cons.mpr here)
  constructor
  · exact children_clear_of_ne (Ne.symm apart)
  · intro other hangs
    apply shape?_clear
    · intro same
      exact (outside_of_above above).free (same ▸ hangs)
    · intro member
      exact children (List.mem_flatMap.mpr ⟨other, member, hangs.mem_above⟩)

theorem attach {parent child : NodeId} (apart : parent ≠ root)
    (free : ¬ forest.Hangs root parent) (outside : forest.Outside root child) :
    Keeps root forest (forest.attach parent child) := by
  constructor
  · apply children_attach apart
    intro found
    exact (outside.parent root found).1 rfl
  · intro other hangs
    apply shape?_attach
    · intro same
      exact outside.free (same ▸ hangs)
    · intro same
      exact free (same ▸ hangs)
    · intro found
      exact (outside.parent other found).2 hangs

/-- What has no more parents than before hangs where it did. -/
theorem hangs_of_parents {before after : Forest Handler}
    (older : ∀ id parent, after.parent? id = some parent → before.parent? id = some parent)
    (hangs : after.Hangs root id) : before.Hangs root id := by
  induction hangs with
  | child found less => exact .child (older _ _ found) less
  | under found less _ inductionHypothesis => exact .under (older _ _ found) less inductionHypothesis

theorem hangs_of_clear {node : NodeId} (hangs : (forest.clear node).Hangs root id) :
    forest.Hangs root id := hangs_of_parents (fun _ _ => parent?_of_clear) hangs

theorem hangs_of_create {content : Content Handler}
    (hangs : (forest.create content).2.Hangs root id) : forest.Hangs root id := by
  apply hangs_of_parents _ hangs
  intro child parent found
  by_cases below : child < forest.size
  · rwa [parent?_eq_shape?, shape?_create below, ← parent?_eq_shape?] at found
  · have known := lt_size_of_parent? found
    rw [size_create] at known
    have last : child = forest.size :=
      Nat.le_antisymm (Nat.lt_succ_iff.mp known) (Nat.le_of_not_lt below)
    rw [last] at found
    cases (parent?_create forest content).symm.trans found

/-- Nothing new hangs below the root when a node is attached elsewhere. -/
theorem hangs_of_attach {parent child : NodeId} (apart : parent ≠ root)
    (free : ¬ forest.Hangs root parent) (hangs : (forest.attach parent child).Hangs root id) :
    forest.Hangs root id := by
  induction hangs with
  | @child id found older =>
      by_cases moved : child = id
      · subst moved
        exact absurd (eq_of_parent?_attach found) apart
      · rw [parent?_attach_of_ne moved] at found
        exact .child found older
  | @under id _ found older _ inductionHypothesis =>
      by_cases moved : child = id
      · subst moved
        rw [← eq_of_parent?_attach found] at inductionHypothesis
        exact absurd inductionHypothesis free
      · rw [parent?_attach_of_ne moved] at found
        exact .under found older inductionHypothesis

/-- A node that is outside stays there when another one is attached. -/
theorem outside_attach {parent child other : NodeId} (apart : parent ≠ root)
    (free : ¬ forest.Hangs root parent) (outside : forest.Outside root other) :
    (forest.attach parent child).Outside root other where
  free hangs := outside.free (hangs_of_attach apart free hangs)
  parent found looked := by
    by_cases moved : child = other
    · subst moved
      rw [← eq_of_parent?_attach looked]
      exact ⟨apart, fun hangs => free (hangs_of_attach apart free hangs)⟩
    · rw [parent?_attach_of_ne moved] at looked
      obtain ⟨elsewhere, loose⟩ := outside.parent found looked
      exact ⟨elsewhere, fun hangs => loose (hangs_of_attach apart free hangs)⟩

theorem attachAll {parent : NodeId} (children : List NodeId) (forest : Forest Handler)
    (apart : parent ≠ root) (free : ¬ forest.Hangs root parent)
    (outside : ∀ child ∈ children, forest.Outside root child) :
    Keeps root forest (children.foldl (fun current child => current.attach parent child) forest) := by
  induction children generalizing forest with
  | nil => exact .refl root forest
  | cons child rest inductionHypothesis =>
      have first : Keeps root forest (forest.attach parent child) :=
        attach apart free (outside child List.mem_cons_self)
      refine first.trans (inductionHypothesis _ ?_ ?_)
      · exact fun hangs => free (hangs_of_attach apart free hangs)
      · intro other member
        exact outside_attach apart free (outside other (List.mem_cons_of_mem _ member))

theorem appendOutside {parent child : NodeId} (apart : parent ≠ root)
    (free : ¬ forest.Hangs root parent)
    (outside : ∀ node ∈ forest.movedBy child, forest.Outside root node) :
    Keeps root forest (forest.append parent child) := by
  unfold Forest.append
  unfold movedBy at outside
  split
  · rename_i fragment
    rw [if_pos fragment] at outside
    exact attachAll _ forest apart free outside
  · rename_i single
    rw [if_neg single] at outside
    exact attach apart free (outside child (List.mem_singleton_self child))

/-- A node that does not show an append lies outside. -/
theorem outside_of_appendHolders {parent child : NodeId}
    (absent : root ∉ forest.appendHolders parent child) : parent ≠ root ∧
      ¬ forest.Hangs root parent ∧ ∀ node ∈ forest.movedBy child, forest.Outside root node := by
  obtain ⟨here, moved⟩ := not_or.mp (mt List.mem_append.mpr absent)
  obtain ⟨apart, above⟩ := not_or.mp (mt List.mem_cons.mpr here)
  refine ⟨Ne.symm apart, (outside_of_above above).free, fun node member => ?_⟩
  apply outside_of_above
  intro reached
  exact moved (List.mem_flatMap.mpr ⟨node, member, reached⟩)

theorem append {parent child : NodeId} (absent : root ∉ forest.appendHolders parent child) :
    Keeps root forest (forest.append parent child) := by
  obtain ⟨apart, free, outside⟩ := outside_of_appendHolders absent
  exact appendOutside apart free outside

/-- A node is emptied before it takes new content. -/
theorem replace {parent child : NodeId} (gone : root ∉ forest.holders parent)
    (absent : root ∉ forest.appendHolders parent child) :
    Keeps root forest ((forest.clear parent).append parent child) := by
  obtain ⟨apart, free, outside⟩ := outside_of_appendHolders absent
  have cleared : Keeps root forest (forest.clear parent) := clear gone
  refine cleared.trans (appendOutside apart (fun hangs => free (hangs_of_clear hangs)) ?_)
  intro node member
  have before : node ∈ forest.movedBy child := by
    unfold movedBy at member ⊢
    have same : (forest.clear parent).isFragment child = forest.isFragment child := by
      unfold isFragment
      rw [content?_clear]
    rw [same] at member
    split at member
    · rename_i fragment
      rw [if_pos fragment]
      by_cases self : parent = child
      · subst self
        rw [children_clear] at member
        cases member
      · rwa [children_clear_of_ne self] at member
    · rename_i single
      rwa [if_neg single]
  constructor
  · exact fun hangs => (outside node before).free (hangs_of_clear hangs)
  · intro found looked
    obtain ⟨elsewhere, loose⟩ := (outside node before).parent found (parent?_of_clear looked)
    exact ⟨elsewhere, fun hangs => loose (hangs_of_clear hangs)⟩

/-- A new text goes below a node that shows it, and nothing else. -/
theorem setTextContent (content : String) (known : root < forest.size)
    (absent : root ∉ forest.holders id) : Keeps root forest (forest.setTextContent id content) := by
  obtain ⟨here, children⟩ := not_or.mp (mt List.mem_append.mpr absent)
  obtain ⟨apart, above⟩ := not_or.mp (mt List.mem_cons.mpr here)
  have outside := outside_of_above above
  unfold Forest.setTextContent
  split
  · exact .refl root forest
  · constructor
    · rw [children_eq_shape?, children_eq_shape?, setContent, shape?_modify_of_ne (Ne.symm apart)]
    · intro other hangs
      apply shape?_modify_of_ne
      intro same
      exact outside.free (same ▸ hangs)
  · exact .refl root forest
  · have cleared : Keeps root forest (forest.clear id) := clear absent
    have size := size_clear forest id
    dsimp only
    split
    · exact cleared
    · have grown : Keeps root (forest.clear id) ((forest.clear id).create (.text content)).2 :=
        create _ (by omega)
      have loose : ¬ ((forest.clear id).create (.text content)).2.Hangs root id := fun hangs =>
        outside.free (hangs_of_clear (hangs_of_create hangs))
      have orphan : ((forest.clear id).create (.text content)).2.parent?
          ((forest.clear id).create (.text content)).1 = none := parent?_create _ _
      have fresh : ((forest.clear id).create (.text content)).2.Outside root
          ((forest.clear id).create (.text content)).1 := by
        constructor
        · intro hangs
          cases hangs with
          | child found _ => cases orphan.symm.trans found
          | under found _ _ => cases orphan.symm.trans found
        · intro parent found
          cases orphan.symm.trans found
      rw [append_text]
      exact (cleared.trans grown).trans (attach (Ne.symm apart) loose fresh)

end Keeps

end LiveMarkup.Forest
