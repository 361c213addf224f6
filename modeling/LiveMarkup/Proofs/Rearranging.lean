import LiveMarkup.Proofs.Hanging
import Mathlib.Data.List.Nodup
import Mathlib.Logic.Relation

/-
This file shows that nodes stay a forest while they are created, appended, detached and emptied.
-/

namespace LiveMarkup

namespace Forest

variable {Handler : Type} {before middle after forest : Forest Handler} {moved rest : List Nat}
  {target : Option Nat} {parent child id : Nat}

/-- One node is below another one if its chain of parents leads there. -/
def Below (forest : Forest Handler) : Nat → Nat → Prop :=
  Relation.TransGen fun child parent => forest.parent? child = some parent

/-- Links to parents and lists of children agree, wherever chains of parents lead. -/
structure Linked (forest : Forest Handler) : Prop where
  linked : ∀ parent child, child ∈ forest.children parent ↔ forest.parent? child = some parent
  nodup : ∀ id, (forest.children id).Nodup
  loose : ∀ id, forest.isFragment id = true → forest.parent? id = none

/-- Links to parents and lists of children agree, and no chain of parents returns. -/
structure Sound (forest : Forest Handler) : Prop where
  linked : ∀ parent child, child ∈ forest.children parent ↔ forest.parent? child = some parent
  nodup : ∀ id, (forest.children id).Nodup
  loose : ∀ id, forest.isFragment id = true → forest.parent? id = none
  acyclic : ∀ id, ¬ forest.Below id id

/-- A node may become a child if it is no fragment and the parent is not below it. -/
structure Fitting (forest : Forest Handler) (parent child : Nat) : Prop where
  known : child < forest.size
  plain : forest.isFragment child = false
  apart : child ≠ parent
  above : ¬ forest.Below parent child

/-- Some nodes left their parents. If there is a target, they became its last children in this order. -/
structure Relinks (before after : Forest Handler) (moved : List Nat) (target : Option Nat) : Prop where
  parents : ∀ id, after.parent? id = if id ∈ moved then target else before.parent? id
  children : ∀ id, after.children id =
    (before.children id).filter (· ∉ moved) ++ if target = some id then moved else []
  kinds : ∀ id < before.size, after.isFragment id = before.isFragment id
  size : before.size ≤ after.size

namespace Linked

theorem eq_of_mem {other : Nat} (linked : forest.Linked) (here : child ∈ forest.children parent)
    (there : child ∈ forest.children other) : parent = other := by
  have found := (linked.linked parent child).mp here
  rw [(linked.linked other child).mp there] at found
  exact (Option.some.inj found).symm

/-- Children exist, and none of them is a fragment. -/
theorem plain_of_mem (linked : forest.Linked) (member : child ∈ forest.children parent) :
    child < forest.size ∧ forest.isFragment child = false := by
  have found := (linked.linked parent child).mp member
  refine ⟨lt_size_of_parent? found, ?_⟩
  cases fragment : forest.isFragment child with
  | false => rfl
  | true => cases (linked.loose child fragment).symm.trans found

theorem nodup_movedBy (linked : forest.Linked) (id : Nat) : (forest.movedBy id).Nodup := by
  unfold movedBy
  split
  · exact linked.nodup id
  · exact List.nodup_singleton id

/-- What an append moves exists, and is no fragment. -/
theorem plain_movedBy (linked : forest.Linked) (known : child < forest.size) :
    ∀ id ∈ forest.movedBy child, id < forest.size ∧ forest.isFragment id = false := by
  intro id member
  unfold movedBy at member
  split at member
  · exact linked.plain_of_mem member
  · rename_i plain
    cases List.mem_singleton.mp member
    exact ⟨known, Bool.eq_false_iff.mpr plain⟩

end Linked

namespace Sound

theorem toLinked (sound : forest.Sound) : forest.Linked := ⟨sound.linked, sound.nodup, sound.loose⟩

theorem eq_of_mem {other : Nat} (sound : forest.Sound) (here : child ∈ forest.children parent)
    (there : child ∈ forest.children other) : parent = other := sound.toLinked.eq_of_mem here there

theorem not_mem_children_of_fragment (sound : forest.Sound) (fragment : forest.isFragment id = true) :
    id ∉ forest.children parent := fun member =>
  Bool.false_ne_true ((sound.toLinked.plain_of_mem member).2.symm.trans fragment)

/-- Nothing is below a node without children. -/
theorem not_below {other : Nat} (sound : forest.Sound) (childless : forest.children id = []) :
    ¬ forest.Below other id := by
  intro below
  obtain ⟨last, -, found⟩ := Relation.TransGen.tail'_iff.mp below
  have member := (sound.linked id last).mpr found
  rw [childless] at member
  cases member

end Sound

theorem not_below_of_orphan {other : Nat} (orphan : forest.parent? id = none) : ¬ forest.Below id other := by
  intro below
  obtain ⟨next, found, -⟩ := Relation.TransGen.head'_iff.mp below
  rw [orphan] at found
  cases found

theorem sound_empty : (Forest.empty : Forest Handler).Sound where
  linked parent child := by simp [children, parent?, node?, empty]
  nodup id := by simp [children, node?, empty]
  loose id _ := by simp [parent?, node?, empty]
  acyclic id := not_below_of_orphan (by simp [parent?, node?, empty])

namespace Relinks

/-! A forest stays sound while nodes move to places that fit. -/

/-- A new chain is an old one, or it climbs from a moved node to the target. -/
theorem below_cases (relinks : Relinks before after moved target) {low high : Nat}
    (below : after.Below low high) : before.Below low high ∨ ∃ parent, target = some parent ∧
      (∃ id ∈ moved, low = id ∨ before.Below low id) ∧ (parent = high ∨ before.Below parent high) := by
  induction below with
  | @single high found =>
      rw [relinks.parents] at found
      split at found
      · rename_i member
        exact Or.inr ⟨high, found, ⟨low, member, Or.inl rfl⟩, Or.inl rfl⟩
      · exact Or.inl (.single found)
  | @tail high next _ found inductionHypothesis =>
      rw [relinks.parents] at found
      split at found
      · rename_i member
        refine Or.inr ⟨next, found, ?_, Or.inl rfl⟩
        rcases inductionHypothesis with below | ⟨_, _, start, _⟩
        · exact ⟨high, member, Or.inr below⟩
        · exact start
      · rcases inductionHypothesis with below | ⟨parent, same, start, here | below⟩
        · exact Or.inl (below.tail found)
        · exact Or.inr ⟨parent, same, start, Or.inr (.single (here ▸ found))⟩
        · exact Or.inr ⟨parent, same, start, Or.inr (below.tail found)⟩

/-- Links still agree if no fragment becomes a child. -/
theorem linked (relinks : Relinks before after moved target) (linked : before.Linked) (nodup : moved.Nodup)
    (plain : ∀ parent, target = some parent → ∀ id ∈ moved, id < before.size ∧ before.isFragment id = false) :
    after.Linked where
  linked parent child := by
    rw [relinks.children, relinks.parents, List.mem_append, List.mem_filter, linked.linked]
    by_cases member : child ∈ moved
    · by_cases here : target = some parent <;> simp [member, here]
    · by_cases here : target = some parent <;> simp [member, here]
  nodup id := by
    rw [relinks.children]
    refine List.nodup_append.mpr ⟨(linked.nodup id).filter _, ?_, ?_⟩
    · split
      · exact nodup
      · exact List.nodup_nil
    · intro kept stays other gone same
      have outside := of_decide_eq_true (List.mem_filter.mp stays).2
      split at gone
      · exact outside (same ▸ gone)
      · cases gone
  loose id fragment := by
    have older : before.parent? id = none := by
      by_cases known : id < before.size
      · exact linked.loose id ((relinks.kinds id known).symm.trans fragment)
      · cases found : before.parent? id with
        | none => rfl
        | some parent => exact absurd (lt_size_of_parent? found) known
    rw [relinks.parents]
    split
    · rename_i member
      cases target with
      | none => rfl
      | some parent =>
          obtain ⟨known, single⟩ := plain parent rfl id member
          rw [relinks.kinds id known, single] at fragment
          cases fragment
    · exact older

theorem sound (relinks : Relinks before after moved target) (sound : before.Sound) (nodup : moved.Nodup)
    (fits : ∀ parent, target = some parent → ∀ id ∈ moved, before.Fitting parent id) : after.Sound := by
  have linked := relinks.linked sound.toLinked nodup fun parent same id member =>
    ⟨(fits parent same id member).known, (fits parent same id member).plain⟩
  refine ⟨linked.linked, linked.nodup, linked.loose, fun id below => ?_⟩
  rcases relinks.below_cases below with early | ⟨parent, same, ⟨start, member, low⟩, high⟩
  · exact sound.acyclic id early
  · obtain ⟨-, -, apart, above⟩ := fits parent same start member
    rcases high with rfl | high
    · rcases low with rfl | low
      · exact apart rfl
      · exact above low
    · rcases low with rfl | low
      · exact above high
      · exact above (high.trans low)

/-- Nodes that stay keep their parent and their order. -/
theorem stay (relinks : Relinks before after moved target) (id : Nat) :
    ((before.children id).filter (· ∉ moved)).Sublist (after.children id) := by
  rw [relinks.children]
  exact List.sublist_append_left _ _

/-- Two children that stayed or moved together are still in order where they are children again. -/
theorem order (relinks : Relinks before after moved target) (sound : before.Sound) {first second place : Nat}
    (inOrder : [first, second].Sublist (before.children parent))
    (together : first ∈ moved ∨ second ∈ moved → [first, second].Sublist moved)
    (one : first ∈ after.children place) : [first, second].Sublist (after.children place) := by
  rw [relinks.children] at one ⊢
  by_cases either : first ∈ moved ∨ second ∈ moved
  · have pair := together either
    have member : first ∈ moved := pair.subset List.mem_cons_self
    have toTarget : first ∈ if target = some place then moved else [] := by
      rcases List.mem_append.mp one with stayed | gone
      · exact absurd member (of_decide_eq_true (List.mem_filter.mp stayed).2)
      · exact gone
    split at toTarget
    · rename_i here
      rw [if_pos here]
      exact pair.trans (List.sublist_append_right _ _)
    · cases toTarget
  · obtain ⟨firstStays, secondStays⟩ := not_or.mp either
    have here : first ∈ before.children place := by
      rcases List.mem_append.mp one with stayed | gone
      · exact (List.mem_filter.mp stayed).1
      · split at gone
        · exact absurd gone firstStays
        · cases gone
    have same : parent = place := sound.eq_of_mem (inOrder.subset List.mem_cons_self) here
    have kept : [first, second].filter (· ∉ moved) = [first, second] := by
      simp [firstStays, secondStays]
    rw [← same, ← kept]
    exact (inOrder.filter _).trans (List.sublist_append_left _ _)

/-- Relinks to one target that follow each other are one move. -/
theorem trans (early : Relinks before middle [id] target) (late : Relinks middle after rest target)
    (fresh : id ∉ rest) : Relinks before after (id :: rest) target where
  parents other := by
    rw [late.parents, early.parents]
    by_cases inside : other ∈ rest <;> by_cases same : other = id <;> simp [inside, same]
  children other := by
    rw [late.children, early.children]
    by_cases here : target = some other
    · simp [here, fresh, List.filter_filter, Bool.and_comm]
    · simp [here, List.filter_filter, Bool.and_comm]
  kinds other known :=
    (late.kinds other (Nat.lt_of_lt_of_le known early.size)).trans (early.kinds other known)
  size := Nat.le_trans early.size late.size

end Relinks

/-! Each operation moves some nodes. -/

theorem isFragment_eq_shape? (forest : Forest Handler) (id : NodeId) :
    forest.isFragment id = (forest.shape? id).any fun shape => shape.content.isFragment := by
  unfold isFragment content? shape?
  cases forest.node? id with
  | none => rfl
  | some node => cases content : node.content <;> simp [content, Content.plain, Content.isFragment]

theorem isFragment_congr (same : after.content? id = before.content? id) :
    after.isFragment id = before.isFragment id := by
  unfold isFragment
  rw [same]

theorem parent?_setParent_self {parent : Option NodeId} (known : id < forest.size) :
    (forest.setParent id parent).parent? id = parent := by
  have found : forest.node? id = some forest.nodes[id] := Array.getElem?_eq_getElem known
  simp [parent?, setParent, node?_modify, found]

theorem children_setChildren_self {children : List NodeId} (known : id < forest.size) :
    (forest.setChildren id children).children id = children := by
  have found : forest.node? id = some forest.nodes[id] := Array.getElem?_eq_getElem known
  simp [Forest.children, setChildren, node?_modify, found]

theorem lt_size_of_mem_children (member : child ∈ forest.children parent) : parent < forest.size := by
  cases found : forest.shape? parent with
  | none =>
      rw [children_eq_shape?, found] at member
      cases member
  | some shape => exact lt_size_of_shape? found

/-- A change of nothing but values, attributes and texts moves no node. -/
theorem relinks_same (target : Option Nat) (parents : ∀ id, after.parent? id = before.parent? id)
    (children : ∀ id, after.children id = before.children id)
    (kinds : ∀ id < before.size, after.isFragment id = before.isFragment id)
    (size : before.size ≤ after.size) : Relinks before after [] target where
  parents id := by simpa using parents id
  children id := by
    have all : (before.children id).filter (· ∉ ([] : List Nat)) = before.children id :=
      List.filter_eq_self.mpr fun _ _ => by simp
    rw [children id, all, ite_self, List.append_nil]
  kinds := kinds
  size := size

theorem shape?_eq_none (absent : forest.size ≤ id) : forest.shape? id = none := by
  have missing : forest.node? id = none := Array.getElem?_eq_none absent
  rw [shape?, missing]
  rfl

/-- A new node is on its own. -/
theorem links_create (forest : Forest Handler) (content : Content Handler) (id : Nat) :
    (forest.create content).2.parent? id = forest.parent? id ∧
      (forest.create content).2.children id = forest.children id := by
  simp only [parent?_eq_shape?, children_eq_shape?]
  rcases Nat.lt_trichotomy id forest.size with below | rfl | beyond
  · simp [shape?_create below]
  · have fresh : (forest.create content).2.shape? forest.size = some { content := content.plain } :=
      shape?_create_self forest content
    simp [fresh, shape?_eq_none (Nat.le_refl _)]
  · have absent : (forest.create content).2.size ≤ id := by
      rw [size_create]
      exact beyond
    simp [shape?_eq_none absent, shape?_eq_none (Nat.le_of_lt beyond)]

theorem relinks_create (forest : Forest Handler) (content : Content Handler) :
    Relinks forest (forest.create content).2 [] none := by
  apply relinks_same none
  · exact fun id => (links_create forest content id).1
  · exact fun id => (links_create forest content id).2
  · intro id known
    rw [isFragment_eq_shape?, shape?_create known, ← isFragment_eq_shape?]
  · rw [size_create]
    exact Nat.le_succ _

theorem relinks_detach (linked : forest.Linked) (id : Nat) : Relinks forest (forest.detach id) [id] none := by
  have filtered : ∀ other, forest.parent? id ≠ some other →
      (forest.children other).filter (· ≠ id) = forest.children other := by
    intro other free
    apply List.filter_eq_self.mpr
    intro child member
    refine decide_eq_true fun same => free ?_
    rw [← same]
    exact (linked.linked other child).mp member
  constructor
  · intro other
    by_cases same : other = id
    · subst same
      cases found : forest.parent? other with
      | none => simp [detach, found]
      | some parent =>
          have known := lt_size_of_parent? found
          simp [detach, found, parent?_setParent_self, known]
    · simp [same, parent?_detach (Ne.symm same)]
  · intro other
    by_cases here : forest.parent? id = some other
    · have member := (linked.linked other id).mpr here
      simp [detach, here, children_setParent, children_setChildren_self (lt_size_of_mem_children member)]
    · simpa [children_detach here] using (filtered other here).symm
  · exact fun _ _ => isFragment_congr (content?_detach forest id)
  · simp

theorem relinks_attach (linked : forest.Linked) (parentKnown : parent < forest.size)
    (childKnown : child < forest.size) : Relinks forest (forest.attach parent child) [child] (some parent) := by
  have detached := relinks_detach linked child
  constructor
  · intro other
    by_cases same : other = child
    · subst same
      simp [attach, parent?_setChildren, parent?_setParent_self, childKnown]
    · simp [same, parent?_attach_of_ne (Ne.symm same)]
  · intro other
    by_cases same : other = parent
    · subst same
      simp [attach, children_setChildren_self, parentKnown, children_setParent, detached.children]
    · simp [attach, children_setChildren_of_ne (Ne.symm same), children_setParent, detached.children,
        Ne.symm same]
  · exact fun _ _ => isFragment_congr (content?_attach forest parent child)
  · simp

theorem parent?_foldl_setParent (ids : List NodeId) (forest : Forest Handler) :
    (ids.foldl (fun current child => current.setParent child none) forest).parent? id =
      if id ∈ ids then none else forest.parent? id := by
  induction ids generalizing forest with
  | nil => simp
  | cons first rest inductionHypothesis =>
      rw [List.foldl_cons, inductionHypothesis]
      by_cases same : id = first
      · subst same
        cases found : (forest.setParent id none).parent? id with
        | none => simp
        | some parent => cases eq_of_parent?_setParent found
      · simp [same, parent?_setParent_of_ne (Ne.symm same)]

theorem relinks_clear (linked : forest.Linked) (id : Nat) :
    Relinks forest (forest.clear id) (forest.children id) none := by
  constructor
  · intro other
    rw [clear, parent?_foldl_setParent, parent?_setChildren]
  · intro other
    by_cases same : id = other
    · subst same
      simp [children_clear]
    · have apart : ∀ child ∈ forest.children other, child ∉ forest.children id :=
        fun child here there => same (linked.eq_of_mem there here)
      rw [children_clear_of_ne same]
      simpa using (List.filter_eq_self.mpr fun child member => decide_eq_true (apart child member)).symm
  · exact fun _ _ => isFragment_congr (content?_clear forest id)
  · simp

theorem relinks_attachAll (linked : forest.Linked) (known : parent < forest.size) (ids : List Nat)
    (nodup : ids.Nodup) (plain : ∀ id ∈ ids, id < forest.size ∧ forest.isFragment id = false) :
    Relinks forest (ids.foldl (fun current child => current.attach parent child) forest) ids (some parent) := by
  induction ids generalizing forest with
  | nil => exact relinks_same _ (fun _ => rfl) (fun _ => rfl) (fun _ _ => rfl) (Nat.le_refl _)
  | cons first rest inductionHypothesis =>
      obtain ⟨fresh, nodupRest⟩ := List.nodup_cons.mp nodup
      obtain ⟨firstKnown, firstPlain⟩ := plain first List.mem_cons_self
      have early := relinks_attach linked known firstKnown
      have linkedNext : (forest.attach parent first).Linked := by
        refine early.linked linked (List.nodup_singleton first) fun _ _ id member => ?_
        cases List.mem_singleton.mp member
        exact ⟨firstKnown, firstPlain⟩
      refine early.trans (inductionHypothesis linkedNext (Nat.lt_of_lt_of_le known early.size) nodupRest ?_) fresh
      intro id member
      obtain ⟨other, single⟩ := plain id (List.mem_cons_of_mem _ member)
      exact ⟨Nat.lt_of_lt_of_le other early.size, (early.kinds id other).trans single⟩

theorem Linked.relinks_append (linked : forest.Linked) (parentKnown : parent < forest.size)
    (childKnown : child < forest.size) :
    Relinks forest (forest.append parent child) (forest.movedBy child) (some parent) := by
  have plain := linked.plain_movedBy childKnown
  unfold append movedBy at *
  split
  · rename_i fragment
    rw [if_pos fragment] at plain
    exact relinks_attachAll linked parentKnown _ (linked.nodup child) plain
  · exact relinks_attach linked parentKnown childKnown

/-- An append is legal if the parent is neither the node itself nor below it. -/
structure Appendable (forest : Forest Handler) (parent child : Nat) : Prop where
  parentKnown : parent < forest.size
  childKnown : child < forest.size
  apart : child ≠ parent
  above : ¬ forest.Below parent child

namespace Appendable

theorem fitting (legal : forest.Appendable parent child) (sound : forest.Sound) :
    ∀ id ∈ forest.movedBy child, forest.Fitting parent id := by
  intro id member
  unfold movedBy at member
  split at member
  · have found := (sound.linked child id).mp member
    obtain ⟨known, plain⟩ := sound.toLinked.plain_of_mem member
    refine ⟨known, plain, ?_, fun below => legal.above (below.tail found)⟩
    rintro rfl
    exact legal.above (.single found)
  · rename_i plain
    cases List.mem_singleton.mp member
    exact ⟨legal.childKnown, Bool.eq_false_iff.mpr plain, legal.apart, legal.above⟩

theorem relinks (legal : forest.Appendable parent child) (sound : forest.Sound) :
    Relinks forest (forest.append parent child) (forest.movedBy child) (some parent) :=
  sound.toLinked.relinks_append legal.parentKnown legal.childKnown

end Appendable

/-- No child is a fragment, so a fragment gives its children away by one append after the other. -/
theorem Sound.append_fragment (sound : forest.Sound) (fragment : forest.isFragment child = true) :
    forest.append parent child =
      (forest.children child).foldl (fun current grandchild => current.append parent grandchild) forest := by
  have plain : ∀ id ∈ forest.children child, forest.isFragment id = false := fun id member =>
    (sound.toLinked.plain_of_mem member).2
  have attached : ∀ (ids : List Nat) (current : Forest Handler), (∀ id ∈ ids, current.isFragment id = false) →
      ids.foldl (fun current grandchild => current.attach parent grandchild) current =
        ids.foldl (fun current grandchild => current.append parent grandchild) current := by
    intro ids
    induction ids with
    | nil => exact fun _ _ => rfl
    | cons first rest inductionHypothesis =>
        intro current single
        have same : current.append parent first = current.attach parent first := by
          rw [append, single first List.mem_cons_self, if_neg Bool.false_ne_true]
        rw [List.foldl_cons, List.foldl_cons, same]
        refine inductionHypothesis _ fun id member => ?_
        rw [isFragment_congr (content?_attach current parent first),
          single id (List.mem_cons_of_mem _ member)]
  rw [append, if_pos fragment]
  exact attached _ forest plain

theorem Sound.append (sound : forest.Sound) (legal : forest.Appendable parent child) :
    (forest.append parent child).Sound := by
  refine (legal.relinks sound).sound sound (sound.toLinked.nodup_movedBy child) fun place same => ?_
  cases same
  exact legal.fitting sound

theorem Sound.create (sound : forest.Sound) (content : Content Handler) : (forest.create content).2.Sound :=
  (relinks_create forest content).sound sound List.nodup_nil nofun

theorem Sound.detach (sound : forest.Sound) (id : Nat) : (forest.detach id).Sound :=
  (relinks_detach sound.toLinked id).sound sound (List.nodup_singleton id) nofun

theorem Sound.clear (sound : forest.Sound) (id : Nat) : (forest.clear id).Sound :=
  (relinks_clear sound.toLinked id).sound sound (sound.nodup id) nofun

/-- A new node may be appended to each older one. -/
theorem Sound.appendable_create (sound : forest.Sound) (known : parent < forest.size)
    (content : Content Handler) : (forest.create content).2.Appendable parent (forest.create content).1 := by
  have childless : (forest.create content).2.children (forest.create content).1 = [] := by
    rw [children_of_shape? (shape?_create_self forest content)]
  constructor
  · exact Nat.lt_of_lt_of_eq (Nat.lt_succ_of_lt known) (size_create forest content).symm
  · exact Nat.lt_of_lt_of_eq (Nat.lt_succ_self _) (size_create forest content).symm
  · exact Nat.ne_of_gt known
  · exact (sound.create content).not_below childless

theorem isFragment_create_self (forest : Forest Handler) (content : Content Handler) :
    (forest.create content).2.isFragment (forest.create content).1 = content.isFragment := by
  rw [isFragment_eq_shape?, shape?_create_self]
  cases content <;> rfl

/-- A new node that is no fragment is attached when it is appended. -/
theorem append_create (parent : Nat) {content : Content Handler} (plain : content.isFragment = false) :
    (forest.create content).2.append parent (forest.create content).1 =
      (forest.create content).2.attach parent (forest.create content).1 := by
  rw [append, isFragment_create_self, plain, if_neg Bool.false_ne_true]

theorem Sound.grow (sound : forest.Sound) (known : parent < forest.size) {content : Content Handler}
    (plain : content.isFragment = false) :
    ((forest.create content).2.attach parent (forest.create content).1).Sound := by
  rw [← append_create parent plain]
  exact (sound.create content).append (sound.appendable_create known content)

/-- A change of a content moves no node if it makes no fragment and changes none. -/
theorem relinks_setContent {content : Content Handler} (same : content.isFragment = forest.isFragment id) :
    Relinks forest (forest.setContent id content) [] none := by
  apply relinks_same
  · exact fun _ => parent?_setContent forest id content
  · exact fun _ => children_setContent forest id content
  · intro other known
    by_cases here : other = id
    · subst here
      have found : forest.node? other = some forest.nodes[other] := Array.getElem?_eq_getElem known
      rw [← same, isFragment, content?, setContent, node?_modify, if_pos rfl, found]
      rfl
    · rw [isFragment_eq_shape?, isFragment_eq_shape?, setContent, shape?_modify_of_ne (Ne.symm here)]
  · simp

theorem lt_size_of_content? {content : Content Handler} (found : forest.content? id = some content) :
    id < forest.size := by
  obtain ⟨node, looked, -⟩ := Option.map_eq_some_iff.mp found
  exact (Array.getElem?_eq_some_iff.mp looked).1

/-- These operations preserve a property of forests. The ones that are made of them do so as well. -/
structure Preserved (kept : Forest Handler → Prop) : Prop where
  creates : ∀ {forest : Forest Handler}, kept forest → ∀ content, kept (forest.create content).2
  grows : ∀ {forest : Forest Handler} {parent : Nat} {content : Content Handler}, kept forest →
    parent < forest.size → content.isFragment = false →
      kept ((forest.create content).2.attach parent (forest.create content).1)
  clears : ∀ {forest : Forest Handler}, kept forest → ∀ id, kept (forest.clear id)
  changes : ∀ {forest : Forest Handler} {id : Nat} {content : Content Handler}, kept forest →
    content.isFragment = forest.isFragment id → kept (forest.setContent id content)

namespace Preserved

variable {kept : Forest Handler → Prop}

mutual

theorem plant (preserved : Preserved kept) (forest : Forest Handler) {parent : Nat} (holds : kept forest)
    (known : parent < forest.size) : ∀ tree : Markup, kept (forest.plant parent tree)
  | .text _ => preserved.grows holds known rfl
  | .comment _ => preserved.grows holds known rfl
  | .element tag attributes children => by
      have grown : kept ((forest.create (.element { tag, attributes })).2.attach parent
          (forest.create (.element { tag, attributes })).1) := preserved.grows holds known rfl
      refine plantAll preserved _ grown ?_ children
      rw [size_attach, size_create]
      exact Nat.lt_succ_self _

theorem plantAll (preserved : Preserved kept) (forest : Forest Handler) {parent : Nat} (holds : kept forest)
    (known : parent < forest.size) : ∀ trees : List Markup, kept (forest.plantAll parent trees)
  | [] => holds
  | first :: rest => by
      have next : parent < (forest.plant parent first).size :=
        Nat.lt_of_lt_of_le known (size_plant forest parent first)
      exact plantAll preserved _ (plant preserved forest holds known first) next rest

end

theorem plantFragment (preserved : Preserved kept) (holds : kept forest) (trees : List Markup) :
    kept (forest.plantFragment trees).2 := by
  refine preserved.plantAll _ (preserved.creates holds .fragment) ?_ trees
  rw [size_create]
  exact Nat.lt_succ_self _

/-- A text as content comes after the children have left. -/
theorem setTextContent (preserved : Preserved kept) (holds : kept forest) (id : Nat) (content : String) :
    kept (forest.setTextContent id content) := by
  unfold Forest.setTextContent
  split
  · exact holds
  · rename_i found
    refine preserved.changes holds ?_
    rw [isFragment, found]
    rfl
  · exact holds
  · rename_i found
    have known : id < (forest.clear id).size := by
      rw [size_clear]
      exact lt_size_of_content? found
    dsimp only
    split
    · exact preserved.clears holds id
    · rw [append_create id rfl]
      exact preserved.grows (preserved.clears holds id) known rfl

end Preserved

theorem preserved_sound : Preserved (Sound : Forest Handler → Prop) where
  creates := Sound.create
  grows sound known plain := sound.grow known plain
  clears := Sound.clear
  changes sound same := (relinks_setContent same).sound sound List.nodup_nil nofun

theorem Sound.plantFragment (sound : forest.Sound) (trees : List Markup) :
    (forest.plantFragment trees).2.Sound := preserved_sound.plantFragment sound trees

theorem Sound.setTextContent (sound : forest.Sound) (id : Nat) (content : String) :
    (forest.setTextContent id content).Sound := preserved_sound.setTextContent sound id content

/-! Nodes that are not named keep their order. -/

/-- A fragment gave all its children to a node, and no other node gained or lost one. -/
structure HandsOver (before after : Forest Handler) (parent fragment : Nat) : Prop where
  gained : after.children parent = before.children parent ++ before.children fragment
  emptied : after.children fragment = []
  parents : ∀ id ∈ before.children fragment, after.parent? id = some parent
  others : ∀ id, id ≠ parent → id ≠ fragment → after.children id = before.children id
  remain : ∀ id, id ∉ before.children fragment → after.parent? id = before.parent? id

theorem Appendable.handsOver {fragment : Nat} (legal : forest.Appendable parent fragment)
    (sound : forest.Sound) (isFragment : forest.isFragment fragment = true) :
    HandsOver forest (forest.append parent fragment) parent fragment := by
  have relinks := legal.relinks sound
  have moved : forest.movedBy fragment = forest.children fragment := if_pos isFragment
  rw [moved] at relinks
  have kept : ∀ id, id ≠ fragment →
      (forest.children id).filter (· ∉ forest.children fragment) = forest.children id := by
    intro id different
    refine List.filter_eq_self.mpr fun child here => decide_eq_true fun there => ?_
    exact different (sound.eq_of_mem here there)
  constructor
  · rw [relinks.children, if_pos rfl, kept parent (Ne.symm legal.apart)]
  · have apart : some parent ≠ some fragment := fun same => legal.apart (Option.some.inj same).symm
    rw [relinks.children, if_neg apart, List.append_nil]
    exact List.filter_eq_nil_iff.mpr fun child member => by simpa using member
  · intro id member
    rw [relinks.parents, if_pos member]
  · intro id notParent notFragment
    have apart : some parent ≠ some id := fun same => notParent (Option.some.inj same).symm
    rw [relinks.children, if_neg apart, List.append_nil, kept id notFragment]
  · intro id outside
    rw [relinks.parents, if_neg outside]

/-- Nodes that did not move stay in place. All but some named ones keep their order among their siblings. -/
structure KeepsOrder (before after : Forest Handler) (named moved : List Nat) : Prop where
  stay : ∀ id, ((before.children id).filter (· ∉ moved)).Sublist (after.children id)
  order : ∀ first second, first ∉ named → second ∉ named → ∀ parent place,
    [first, second].Sublist (before.children parent) → first ∈ after.children place →
      second ∈ after.children place → [first, second].Sublist (after.children place)

theorem Sound.child_lt_size (sound : forest.Sound) (member : child ∈ forest.children parent) :
    child < forest.size := lt_size_of_parent? ((sound.linked parent child).mp member)

theorem Relinks.keepsOrder {named : List Nat} (relinks : Relinks before after moved target)
    (sound : before.Sound) (together : ∀ first second, first ∉ named → second ∉ named → ∀ parent,
      [first, second].Sublist (before.children parent) → first ∈ moved ∨ second ∈ moved →
        [first, second].Sublist moved) : KeepsOrder before after named moved where
  stay := relinks.stay
  order first second firstFree secondFree parent _ inOrder one _ :=
    relinks.order sound inOrder (together first second firstFree secondFree parent inOrder) one

/-- Children of one node that move with all its children move in their order. -/
theorem Sound.together (sound : forest.Sound) {first second : Nat}
    (inOrder : [first, second].Sublist (forest.children parent))
    (either : first ∈ forest.children id ∨ second ∈ forest.children id) :
    [first, second].Sublist (forest.children id) := by
  have same : parent = id := by
    rcases either with member | member
    · exact sound.eq_of_mem (inOrder.subset (by simp)) member
    · exact sound.eq_of_mem (inOrder.subset (by simp)) member
  exact same ▸ inOrder

/-- A new child comes last. -/
theorem Sound.children_grow (sound : forest.Sound) (known : parent < forest.size) (content : Content Handler)
    (place : Nat) : ((forest.create content).2.attach parent (forest.create content).1).children place =
      forest.children place ++ if parent = place then [forest.size] else [] := by
  have legal := sound.appendable_create known content
  have attached := relinks_attach (sound.create content).toLinked legal.parentKnown legal.childKnown
  have older : (forest.children place).filter (· ∉ [(forest.create content).1]) = forest.children place := by
    refine List.filter_eq_self.mpr fun child member => decide_eq_true fun newer => ?_
    exact absurd (List.mem_singleton.mp newer) (Nat.ne_of_lt (sound.child_lt_size member))
  rw [attached.children, (links_create forest content place).2, older]
  simp only [Option.some.injEq]
  rfl

theorem Sound.keepsOrder_of_same {named : List Nat} (sound : after.Sound)
    (same : ∀ id < before.size, after.children id = before.children id) :
    KeepsOrder before after named moved where
  stay id := by
    cases all : before.children id with
    | nil => exact List.nil_sublist _
    | cons first rest =>
        rw [same id (lt_size_of_mem_children (all ▸ List.mem_cons_self)), all]
        exact List.filter_sublist
  order first second _ _ parent place inOrder one _ := by
    have member := inOrder.subset List.mem_cons_self
    have here := same parent (lt_size_of_mem_children member)
    rw [← here] at member inOrder
    exact sound.eq_of_mem member one ▸ inOrder

/-- Order is kept when a node gains a new child. -/
theorem KeepsOrder.grow {named : List Nat} (keeps : KeepsOrder before middle named moved) (sound : middle.Sound)
    (older : ∀ id, ∀ child ∈ before.children id, child < middle.size) (known : parent < middle.size)
    (content : Content Handler) :
    KeepsOrder before ((middle.create content).2.attach parent (middle.create content).1) named moved where
  stay id := by
    rw [sound.children_grow known]
    exact (keeps.stay id).trans (List.sublist_append_left _ _)
  order first second firstFree secondFree former place inOrder one other := by
    have stayed : ∀ child ∈ before.children former,
        child ∈ ((middle.create content).2.attach parent (middle.create content).1).children place →
          child ∈ middle.children place := by
      intro child member here
      rw [sound.children_grow known] at here
      rcases List.mem_append.mp here with there | fresh
      · exact there
      · split at fresh
        · exact absurd (List.mem_singleton.mp fresh) (Nat.ne_of_lt (older former child member))
        · cases fresh
    have pair := keeps.order first second firstFree secondFree former place inOrder
      (stayed first (inOrder.subset (by simp)) one) (stayed second (inOrder.subset (by simp)) other)
    rw [sound.children_grow known]
    exact pair.trans (List.sublist_append_left _ _)

theorem Sound.keepsOrder_clear (sound : forest.Sound) (id : Nat) :
    KeepsOrder forest (forest.clear id) [id] (forest.children id) :=
  (relinks_clear sound.toLinked id).keepsOrder sound fun _ _ _ _ _ inOrder either => sound.together inOrder either

theorem Sound.keepsOrder_setTextContent (sound : forest.Sound) (id : Nat) (content : String) :
    KeepsOrder forest (forest.setTextContent id content) [id] (forest.children id) := by
  have after := sound.setTextContent id content
  unfold Forest.setTextContent at after ⊢
  split at after
  · exact sound.keepsOrder_of_same fun _ _ => rfl
  · exact after.keepsOrder_of_same fun _ _ => children_setContent forest id _
  · exact sound.keepsOrder_of_same fun _ _ => rfl
  · rename_i found
    have cleared := sound.keepsOrder_clear id
    dsimp only
    split
    · exact cleared
    · rw [append_create id rfl]
      refine cleared.grow (sound.clear id) (fun place child member => ?_) ?_ _
      · rw [size_clear]
        exact sound.child_lt_size member
      · rw [size_clear]
        exact lt_size_of_content? found

theorem Sound.keepsOrder_plantFragment (sound : forest.Sound) (trees : List Markup) :
    KeepsOrder forest (forest.plantFragment trees).2 [] [] := by
  refine (sound.plantFragment trees).keepsOrder_of_same fun id known => ?_
  rw [children_eq_shape?, children_eq_shape?, shape?_plantFragment trees known]

end Forest

/-- These operations make, move and remove nodes. -/
inductive Rearrangement (Handler : Type) where
  | create (content : Content Handler)
  | append (parent child : NodeId)
  | detach (id : NodeId)
  | clear (id : NodeId)
  | setTextContent (id : NodeId) (content : String)
  | parse (source : String)

namespace Rearrangement

variable {Handler : Type} {forest : Forest Handler}

def apply (forest : Forest Handler) : Rearrangement Handler → Forest Handler
  | .create content => (forest.create content).2
  | .append parent child => forest.append parent child
  | .detach id => forest.detach id
  | .clear id => forest.clear id
  | .setTextContent id content => forest.setTextContent id content
  | .parse source => (forest.plantFragment (Markup.read source).trees).2

/-- Only an append may be illegal. -/
def Legal (forest : Forest Handler) : Rearrangement Handler → Prop
  | .append parent child => forest.Appendable parent child
  | _ => True

/-- These are the nodes that an operation is called with. -/
def named : Rearrangement Handler → List NodeId
  | .append parent child => [parent, child]
  | .detach id => [id]
  | .clear id => [id]
  | .setTextContent id _ => [id]
  | _ => []

/-- These nodes may leave their parents. -/
def moved (forest : Forest Handler) : Rearrangement Handler → List NodeId
  | .append _ child => forest.movedBy child
  | .detach id => [id]
  | .clear id => forest.children id
  | .setTextContent id _ => forest.children id
  | _ => []

/-- One operation keeps a forest sound. -/
theorem sound (step : Rearrangement Handler) (sound : forest.Sound) (legal : step.Legal forest) :
    (step.apply forest).Sound := by
  cases step with
  | create content => exact sound.create content
  | append parent child => exact sound.append legal
  | detach id => exact sound.detach id
  | clear id => exact sound.clear id
  | setTextContent id content => exact sound.setTextContent id content
  | parse source => exact sound.plantFragment _

theorem keepsOrder (step : Rearrangement Handler) (sound : forest.Sound) (legal : step.Legal forest) :
    Forest.KeepsOrder forest (step.apply forest) step.named (step.moved forest) := by
  cases step with
  | create content =>
      exact (sound.create content).keepsOrder_of_same fun id _ => (Forest.links_create forest content id).2
  | append parent child =>
      refine (Forest.Appendable.relinks legal sound).keepsOrder sound ?_
      intro first second firstFree secondFree place inOrder either
      unfold Forest.movedBy at either ⊢
      split at either
      · rename_i fragment
        rw [if_pos fragment]
        exact sound.together inOrder either
      · have free : ∀ id, id ∉ [parent, child] → id ∉ [child] :=
          fun id outside here => outside (List.mem_cons_of_mem _ here)
        exact (either.elim (free first firstFree) (free second secondFree)).elim
  | detach id =>
      refine (Forest.relinks_detach sound.toLinked id).keepsOrder sound ?_
      intro first second firstFree secondFree place inOrder either
      exact (either.elim firstFree secondFree).elim
  | clear id => exact sound.keepsOrder_clear id
  | setTextContent id content => exact sound.keepsOrder_setTextContent id content
  | parse source => exact sound.keepsOrder_plantFragment _

/-- A forest arises from nothing by legal operations. -/
inductive Arises : Forest Handler → Prop where
  | empty : Arises Forest.empty
  | step {forest : Forest Handler} (step : Rearrangement Handler) :
      Arises forest → step.Legal forest → Arises (step.apply forest)

/-- All operations together keep a forest sound. -/
theorem Arises.sound (arises : Arises forest) : forest.Sound := by
  induction arises with
  | empty => exact Forest.sound_empty
  | step step _ legal inductionHypothesis => exact step.sound inductionHypothesis legal

/-- Nodes that are made, moved and removed by legal operations stay a forest. A fragment that is appended gives all
its children away, and no operation changes the order of nodes that it does not name. -/
theorem nodes_stay_forest (arises : Arises forest) :
    forest.Sound ∧
    (∀ parent other child, child ∈ forest.children parent → child ∈ forest.children other →
      parent = other) ∧
    (∀ fragment, forest.isFragment fragment = true → ∀ parent, fragment ∉ forest.children parent) ∧
    (∀ parent fragment, forest.Appendable parent fragment → forest.isFragment fragment = true →
      Forest.HandsOver forest (forest.append parent fragment) parent fragment) ∧
    ∀ step : Rearrangement Handler, step.Legal forest →
      Forest.KeepsOrder forest (step.apply forest) step.named (step.moved forest) := by
  have sound := arises.sound
  refine ⟨sound, fun parent other child => sound.eq_of_mem, ?_, ?_, fun step => step.keepsOrder sound⟩
  · exact fun fragment isFragment parent => sound.not_mem_children_of_fragment isFragment
  · exact fun parent fragment legal => legal.handsOver sound

/-- A text goes into a fragment, and with it into a list. -/
theorem text_handed_over_to_list :
    let first := ((create .fragment : Rearrangement Unit).apply Forest.empty)
    let second := (create (.text "one")).apply first
    let third := (create (.ofTag "ul")).apply second
    let filled := (append 0 1).apply third
    Arises filled ∧ Forest.HandsOver filled (filled.append 2 0) 2 0 ∧ (filled.append 2 0).children 2 = [1] := by
  intro first second third filled
  have created : Arises third :=
    .step (create (.ofTag "ul")) (.step (create (.text "one")) (.step (create .fragment) .empty trivial) trivial)
      trivial
  have loose : ∀ child : Nat, ¬ third.Below 0 child := fun _ => Forest.not_below_of_orphan (by decide)
  have arises : Arises filled :=
    .step (append 0 1) created ⟨by decide, by decide, by decide, loose 1⟩
  have apart : ∀ child : Nat, ¬ filled.Below 2 child := fun _ => Forest.not_below_of_orphan (by decide)
  have handsOver := (nodes_stay_forest arises).2.2.2.1 2 0 ⟨by decide, by decide, by decide, apart 0⟩ (by decide)
  exact ⟨arises, handsOver, handsOver.gained⟩

end Rearrangement

end LiveMarkup
