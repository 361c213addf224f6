import LiveMarkup.Forest.Planting
import Mathlib.Data.List.Perm.Subperm

/-
This file says what the operations on forests leave alone.
-/

namespace LiveMarkup.Forest

variable {Handler : Type}

/-- Different nodes that come before a limit are not more than the limit. -/
theorem length_le_of_distinct {limit : Nat} {ids : List NodeId} (distinct : ids.Nodup)
    (small : ∀ id ∈ ids, id < limit) : ids.length ≤ limit := by
  have within : ids ⊆ List.range limit := fun id member => List.mem_range.mpr (small id member)
  have fewer := (List.Nodup.subperm distinct within).length_le
  rwa [List.length_range] at fewer

/-! No operation takes nodes away. -/

@[simp] theorem size_setParent (forest : Forest Handler) (id : NodeId) (parent : Option NodeId) :
    (forest.setParent id parent).size = forest.size := size_modify forest id _

@[simp] theorem size_setChildren (forest : Forest Handler) (id : NodeId) (children : List NodeId) :
    (forest.setChildren id children).size = forest.size := size_modify forest id _

@[simp] theorem size_setContent (forest : Forest Handler) (id : NodeId)
    (content : Content Handler) : (forest.setContent id content).size = forest.size :=
  size_modify forest id _

@[simp] theorem size_modifyElement (forest : Forest Handler) (id : NodeId)
    (change : Element Handler → Element Handler) :
    (forest.modifyElement id change).size = forest.size := by
  unfold modifyElement
  split <;> simp

@[simp] theorem size_setValue (forest : Forest Handler) (id : NodeId) (value : String) :
    (forest.setValue id value).size = forest.size := size_modifyElement forest id _

@[simp] theorem size_listen (forest : Forest Handler) (id : NodeId) (kind : String)
    (handler : Handler) : (forest.listen id kind handler).size = forest.size :=
  size_modifyElement forest id _

@[simp] theorem size_setAttribute (forest : Forest Handler) (id : NodeId) (name value : String) :
    (forest.setAttribute id name value).size = forest.size := size_modifyElement forest id _

@[simp] theorem size_removeAttribute (forest : Forest Handler) (id : NodeId) (name : String) :
    (forest.removeAttribute id name).size = forest.size := size_modifyElement forest id _

@[simp] theorem size_detach (forest : Forest Handler) (id : NodeId) :
    (forest.detach id).size = forest.size := by
  unfold detach
  split <;> simp

@[simp] theorem size_attach (forest : Forest Handler) (parent child : NodeId) :
    (forest.attach parent child).size = forest.size := by
  simp [attach]

theorem size_foldl {A : Type} (change : Forest Handler → A → Forest Handler)
    (kept : ∀ forest item, (change forest item).size = forest.size) (forest : Forest Handler)
    (items : List A) : (items.foldl change forest).size = forest.size := by
  induction items generalizing forest with
  | nil => rfl
  | cons item rest inductionHypothesis =>
      rw [List.foldl_cons, inductionHypothesis, kept]

@[simp] theorem size_append (forest : Forest Handler) (parent child : NodeId) :
    (forest.append parent child).size = forest.size := by
  unfold append
  split
  · exact size_foldl _ (fun forest item => size_attach forest parent item) forest _
  · exact size_attach forest parent child

@[simp] theorem size_clear (forest : Forest Handler) (id : NodeId) :
    (forest.clear id).size = forest.size := by
  unfold clear
  rw [size_foldl _ (fun forest item => size_setParent forest item none), size_setChildren]

theorem size_setTextContent (forest : Forest Handler) (id : NodeId) (content : String) :
    forest.size ≤ (forest.setTextContent id content).size := by
  unfold setTextContent
  split
  · exact Nat.le_refl _
  · simp
  · exact Nat.le_refl _
  · dsimp only
    split <;> simp

mutual

theorem size_plant (forest : Forest Handler) (parent : NodeId) :
    ∀ markup : Markup, forest.size ≤ (forest.plant parent markup).size
  | .text content => by simp [plant]
  | .comment content => by simp [plant]
  | .element tag attributes children => by
      have grown := size_plantAll
        ((forest.create (.element { tag, attributes })).2.attach parent
          (forest.create (.element { tag, attributes } : Content Handler)).1)
        (forest.create (.element { tag, attributes } : Content Handler)).1 children
      rw [size_attach, size_create] at grown
      exact Nat.le_of_succ_le grown

theorem size_plantAll (forest : Forest Handler) (parent : NodeId) :
    ∀ trees : List Markup, forest.size ≤ (forest.plantAll parent trees).size
  | [] => Nat.le_refl _
  | first :: rest =>
      Nat.le_trans (size_plant forest parent first) (size_plantAll (forest.plant parent first) parent rest)

end

theorem size_plantFragment (forest : Forest Handler) (trees : List Markup) :
    forest.size ≤ (forest.plantFragment trees).2.size := by
  have grown := size_plantAll (forest.create .fragment).2 (forest.create .fragment).1 trees
  rw [size_create] at grown
  exact Nat.le_of_succ_le grown

end LiveMarkup.Forest
