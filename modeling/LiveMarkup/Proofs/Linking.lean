import LiveMarkup.Proofs.Rearranging

/-
This file shows that links to parents and lists of children agree in each forest that is made by operations on
its nodes, even where nodes come to hang below themselves.
-/

namespace LiveMarkup.Forest

variable {Handler : Type} {forest : Forest Handler} {parent child : Nat}

namespace Linked

theorem empty : (Forest.empty : Forest Handler).Linked := sound_empty.toLinked

theorem create (linked : forest.Linked) (content : Content Handler) : (forest.create content).2.Linked :=
  (relinks_create forest content).linked linked List.nodup_nil nofun

/-- An append may close a cycle. -/
theorem append (linked : forest.Linked) (parentKnown : parent < forest.size) (childKnown : child < forest.size) :
    (forest.append parent child).Linked :=
  (linked.relinks_append parentKnown childKnown).linked linked (linked.nodup_movedBy child)
    fun _ _ => linked.plain_movedBy childKnown

theorem detach (linked : forest.Linked) (id : Nat) : (forest.detach id).Linked :=
  (relinks_detach linked id).linked linked (List.nodup_singleton id) nofun

theorem grow (linked : forest.Linked) (known : parent < forest.size) {content : Content Handler}
    (plain : content.isFragment = false) :
    ((forest.create content).2.attach parent (forest.create content).1).Linked := by
  rw [← append_create parent plain]
  refine (linked.create content).append ?_ ?_
  · exact Nat.lt_of_lt_of_eq (Nat.lt_succ_of_lt known) (size_create forest content).symm
  · exact Nat.lt_of_lt_of_eq (Nat.lt_succ_self _) (size_create forest content).symm

theorem setContent {id : Nat} {content : Content Handler} (linked : forest.Linked)
    (same : content.isFragment = forest.isFragment id) : (forest.setContent id content).Linked :=
  (relinks_setContent same).linked linked List.nodup_nil nofun

theorem modifyElement (linked : forest.Linked) (id : Nat) (change : Element Handler → Element Handler) :
    (forest.modifyElement id change).Linked := by
  unfold Forest.modifyElement
  split
  · rename_i element found
    obtain ⟨content, known, isElement⟩ := Option.bind_eq_some_iff.mp found
    refine linked.setContent ?_
    cases content with
    | element _ => rw [isFragment, known]; rfl
    | _ => cases isElement
  · exact linked

end Linked

theorem preserved_linked : Preserved (Linked : Forest Handler → Prop) where
  creates := Linked.create
  grows linked known plain := linked.grow known plain
  clears linked id := (relinks_clear linked id).linked linked (linked.nodup id) nofun
  changes := Linked.setContent

/-- A forest is made from nothing by operations on nodes that exist. They need not be legal. -/
inductive Made : Forest Handler → Prop where
  | empty : Made Forest.empty
  | rearranged {forest : Forest Handler} (step : Rearrangement Handler) (known : ∀ id ∈ step.named, id < forest.size)
      (made : Made forest) : Made (step.apply forest)
  | modified {forest : Forest Handler} (id : Nat) (change : Element Handler → Element Handler) (made : Made forest) :
      Made (forest.modifyElement id change)

/-- One operation keeps links in agreement. -/
theorem Linked.rearranged (linked : forest.Linked) (step : Rearrangement Handler)
    (known : ∀ id ∈ step.named, id < forest.size) : (step.apply forest).Linked := by
  cases step with
  | create content => exact linked.create content
  | append parent child =>
      exact linked.append (known parent List.mem_cons_self) (known child (List.mem_cons_of_mem _ List.mem_cons_self))
  | detach id => exact linked.detach id
  | clear id => exact preserved_linked.clears linked id
  | setTextContent id content => exact preserved_linked.setTextContent linked id content
  | parse source => exact preserved_linked.plantFragment linked _

theorem Made.linked (made : forest.Made) : forest.Linked := by
  induction made with
  | empty => exact .empty
  | rearranged step known _ inductionHypothesis => exact inductionHypothesis.rearranged step known
  | modified id change _ inductionHypothesis => exact inductionHypothesis.modifyElement id change

end LiveMarkup.Forest
