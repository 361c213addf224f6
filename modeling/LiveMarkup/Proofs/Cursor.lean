import LiveMarkup.Proofs.Climbing
import LiveMarkup.Proofs.Linking

/-
This file says what the loops of a cursor do, without a bound on their steps, and shows that the bounds which
the functions of a forest put on them are never reached below a root that does not hang below itself.
-/

namespace LiveMarkup.Forest

variable {Handler : Type} {forest : Forest Handler} {root id : NodeId} {found first second : Option NodeId}
  {ids : List NodeId}

/-- A cursor climbs to the first node behind everything below it. It stops at the root, and where there is no
parent. -/
inductive Skips (forest : Forest Handler) (root : NodeId) : NodeId → Option NodeId → Prop
  | stop : Skips forest root root none
  | beside {id sibling : NodeId} (apart : id ≠ root) (next : forest.nextSibling? id = some sibling) :
      Skips forest root id (some sibling)
  | above {id parent : NodeId} {found : Option NodeId} (apart : id ≠ root) (last : forest.nextSibling? id = none)
      (up : forest.parent? id = some parent) (skips : Skips forest root parent found) : Skips forest root id found
  | top {id : NodeId} (apart : id ≠ root) (last : forest.nextSibling? id = none) (orphan : forest.parent? id = none) :
      Skips forest root id none

/-- A cursor goes on to the first child, or else behind everything below it. -/
inductive Advances (forest : Forest Handler) (root : NodeId) : NodeId → Option NodeId → Prop
  | down {id child : NodeId} (first : forest.firstChild? id = some child) : Advances forest root id (some child)
  | onward {id : NodeId} {found : Option NodeId} (leaf : forest.firstChild? id = none)
      (skips : Skips forest root id found) : Advances forest root id found

/-- A cursor gathers the nodes that it comes to, until there is no next one. -/
inductive Gathers (forest : Forest Handler) (root : NodeId) : Option NodeId → List NodeId → Prop
  | done : Gathers forest root none []
  | next {id : NodeId} {found : Option NodeId} {rest : List NodeId} (advances : Advances forest root id found)
      (gathers : Gathers forest root found rest) : Gathers forest root (some id) (id :: rest)

theorem Skips.unique (one : forest.Skips root id first) (other : forest.Skips root id second) : first = second := by
  induction one generalizing second with
  | stop => cases other with
    | stop => rfl
    | beside apart | above apart | top apart => exact absurd rfl apart
  | beside apart next => cases other with
    | stop => exact absurd rfl apart
    | beside _ again => exact next.symm.trans again
    | above _ last | top _ last => cases next.symm.trans last
  | above apart last up _ inductionHypothesis => cases other with
    | stop => exact absurd rfl apart
    | beside _ next => cases next.symm.trans last
    | above _ _ again skips =>
        cases up.symm.trans again
        exact inductionHypothesis skips
    | top _ _ orphan => cases up.symm.trans orphan
  | top apart last orphan => cases other with
    | stop => rfl
    | beside _ next => cases next.symm.trans last
    | above _ _ up => cases up.symm.trans orphan
    | top => rfl

theorem Advances.unique (one : forest.Advances root id first) (other : forest.Advances root id second) :
    first = second := by
  cases one with
  | down child => cases other with
    | down again => exact child.symm.trans again
    | onward leaf => cases child.symm.trans leaf
  | onward leaf skips => cases other with
    | down child => cases child.symm.trans leaf
    | onward _ again => exact skips.unique again

namespace Gathers

theorem head?_eq (gathers : forest.Gathers root found ids) : ids.head? = found := by
  cases gathers <;> rfl

theorem unique {others : List NodeId} (one : forest.Gathers root found ids)
    (other : forest.Gathers root found others) : ids = others := by
  induction one generalizing others with
  | done =>
      cases other
      rfl
  | next advances _ inductionHypothesis =>
      cases other with
      | next again gathers =>
          cases advances.unique again
          rw [inductionHypothesis gathers]

/-- From each node that it comes to, a cursor gathers the rest. -/
theorem of_mem (gathers : forest.Gathers root found ids) (member : id ∈ ids) :
    ∃ early late, ids = early ++ id :: late ∧ forest.Gathers root (some id) (id :: late) := by
  induction gathers with
  | done => cases member
  | next advances gathers inductionHypothesis =>
      rcases List.mem_cons.mp member with rfl | later
      · exact ⟨[], _, rfl, .next advances gathers⟩
      · obtain ⟨early, late, same, rest⟩ := inductionHypothesis later
        exact ⟨_ :: early, late, congrArg (_ :: ·) same, rest⟩

/-- A cursor that came back to a node would never stop. -/
theorem nodup (gathers : forest.Gathers root found ids) : ids.Nodup := by
  induction gathers with
  | done => exact List.nodup_nil
  | @next id _ rest advances gathers inductionHypothesis =>
      refine List.nodup_cons.mpr ⟨fun member => ?_, inductionHypothesis⟩
      obtain ⟨early, late, same, again⟩ := gathers.of_mem member
      -- From both places the same nodes follow, but from the later one they are fewer.
      have whole := again.unique (.next advances gathers)
      have longer := congrArg List.length same
      rw [← (List.cons.inj whole).2, List.length_append, List.length_cons] at longer
      omega

/-- The function that follows a bounded number of steps finds all that a cursor gathers, if they are no more. -/
theorem walkFrom_eq {limit : Nat} (gathers : forest.Gathers root found ids)
    (advances : ∀ id ∈ ids, forest.Advances root id (forest.next? root id)) (few : ids.length ≤ limit) :
    forest.walkFrom root limit found = ids := by
  induction gathers generalizing limit with
  | done => cases limit <;> rfl
  | next here _ inductionHypothesis =>
      cases limit with
      | zero => cases few
      | succ limit =>
          rw [walkFrom, (advances _ List.mem_cons_self).unique here]
          refine congrArg _ (inductionHypothesis (fun id member => ?_) (Nat.le_of_succ_le_succ few))
          exact advances id (List.mem_cons_of_mem _ member)

end Gathers

/-- A climb along a path needs no more steps than the path has nodes. -/
theorem Climbs.skips {path : List NodeId} {steps : Nat} (climbs : forest.Climbs root id path)
    (enough : path.length ≤ steps) : forest.Skips root id (forest.climb root steps id) := by
  induction climbs generalizing steps with
  | here =>
      cases steps with
      | zero => cases enough
      | succ steps =>
          rw [climb, if_pos rfl]
          exact .stop
  | up apart found _ inductionHypothesis =>
      cases steps with
      | zero => cases enough
      | succ steps =>
          rw [climb, if_neg apart]
          cases next : forest.nextSibling? _ with
          | some sibling => exact .beside apart next
          | none =>
              rw [found]
              exact .above apart next found (inductionHypothesis (Nat.le_of_succ_le_succ enough))

/-- Links below a root agree, and the root does not hang below itself. -/
structure Rooted (forest : Forest Handler) (root : NodeId) : Prop where
  linked : forest.Linked
  known : root < forest.size
  acyclic : ¬ forest.Below root root

/-- A node is inside a tree if its chain of parents comes to the root of the tree, or starts there. -/
def Inside (forest : Forest Handler) (root id : NodeId) : Prop :=
  Relation.ReflTransGen (fun child parent => forest.parent? child = some parent) id root

theorem Inside.below {parent : NodeId} (inside : forest.Inside root parent) (found : forest.parent? id = some parent) :
    forest.Below id root := .head' found inside

theorem Inside.below_of_ne (inside : forest.Inside root id) (apart : id ≠ root) : forest.Below id root :=
  (Relation.reflTransGen_iff_eq_or_transGen.mp inside).resolve_left fun same => apart same.symm

/-- A cursor comes to nothing but what is below its root. -/
theorem Skips.below_root {found : Option NodeId} (skips : forest.Skips root id found) (linked : forest.Linked)
    (inside : forest.Inside root id) : ∀ next ∈ found, forest.Below next root := by
  have climbs : ∀ {id parent}, forest.Inside root id → id ≠ root → forest.parent? id = some parent →
      forest.Inside root parent := by
    intro id parent inside apart found
    obtain ⟨next, again, above⟩ := Relation.TransGen.head'_iff.mp (inside.below_of_ne apart)
    cases found.symm.trans again
    exact above
  induction skips with
  | stop => exact nofun
  | @beside id sibling apart next =>
      intro _ same
      cases same
      obtain ⟨parent, found, follows⟩ := Option.bind_eq_some_iff.mp next
      have member := mem_of_following? follows
      exact (climbs inside apart found).below ((linked.linked parent sibling).mp member)
  | above apart _ up _ inductionHypothesis => exact inductionHypothesis (climbs inside apart up)
  | top => exact nofun

namespace Rooted

variable {parent : NodeId}

/-- A cycle inside a tree would lead up to the root. -/
theorem not_below_self (rooted : forest.Rooted root) (inside : forest.Inside root id) : ¬ forest.Below id id := by
  induction inside using Relation.ReflTransGen.head_induction_on with
  | refl => exact rooted.acyclic
  | head found _ inductionHypothesis =>
      intro below
      obtain ⟨next, again, back⟩ := Relation.TransGen.head'_iff.mp below
      cases found.symm.trans again
      exact inductionHypothesis (.tail' back found)

theorem lt_size (rooted : forest.Rooted root) (inside : forest.Inside root id) : id < forest.size := by
  cases inside using Relation.ReflTransGen.head_induction_on with
  | refl => exact rooted.known
  | head found _ => exact lt_size_of_parent? found

/-- Each node inside a tree is the root of a tree. -/
theorem inner (rooted : forest.Rooted root) (inside : forest.Inside root id) : forest.Rooted id :=
  ⟨rooted.linked, rooted.lt_size inside, rooted.not_below_self inside⟩

theorem ne_root (rooted : forest.Rooted root) (found : forest.parent? id = some parent)
    (inside : forest.Inside root parent) : id ≠ root := by
  rintro rfl
  exact rooted.acyclic (inside.below found)

/-- The chain of parents of a node inside a tree is a path to the root. -/
theorem exists_way (rooted : forest.Rooted root) (inside : forest.Inside root id) :
    ∃ path, forest.Way forest.size root id path ∧ ∀ node ∈ path, forest.Inside node id := by
  induction inside using Relation.ReflTransGen.head_induction_on with
  | refl =>
      refine ⟨_, .start rooted.known, fun node member => ?_⟩
      cases List.mem_singleton.mp member
      exact .refl
  | @head id parent found inside inductionHypothesis =>
      obtain ⟨path, way, climbs⟩ := inductionHypothesis
      have new : id ∉ path := fun member =>
        rooted.not_below_self (.head found inside) ((climbs id member).below found)
      refine ⟨_, way.down found (rooted.ne_root found inside) new (lt_size_of_parent? found), ?_⟩
      intro node member
      rcases List.mem_cons.mp member with rfl | above
      · exact .refl
      · exact .head found (climbs node above)

theorem skips (rooted : forest.Rooted root) (inside : forest.Inside root id) :
    forest.Skips root id (forest.nextSkipping? root id) := by
  obtain ⟨path, way, -⟩ := rooted.exists_way inside
  exact way.climbs.skips (Nat.le_succ_of_le way.length_le)

theorem advances (rooted : forest.Rooted root) (inside : forest.Inside root id) :
    forest.Advances root id (forest.next? root id) := by
  unfold next?
  split
  · rename_i child first
    exact .down first
  · rename_i leaf
    exact .onward leaf (rooted.skips inside)

/-- Behind a node inside a tree come its later siblings. -/
theorem nextSkipping?_of_children (rooted : forest.Rooted root) (inside : forest.Inside root parent)
    {early rest : List NodeId} (children : forest.children parent = early ++ id :: rest) :
    forest.nextSkipping? root id = forest.onward root parent rest := by
  obtain ⟨path, way, -⟩ := rooted.exists_way inside
  have found : forest.parent? id = some parent := by
    rw [← rooted.linked.linked, children]
    exact List.mem_append_right _ List.mem_cons_self
  have new : id ∉ early := fun member => by
    have distinct := rooted.linked.nodup parent
    rw [children] at distinct
    exact (List.nodup_append.mp distinct).2.2 id member id List.mem_cons_self rfl
  exact way.nextSkipping?_eq (Nat.le_refl _) found (rooted.ne_root found inside) children new

/-- A walk finds all that a cursor gathers inside a tree. -/
theorem walkFrom_eq (rooted : forest.Rooted root) {limit : Nat} (gathers : forest.Gathers root found ids)
    (inside : ∀ id ∈ ids, forest.Inside root id) (few : ids.length ≤ limit) :
    forest.walkFrom root limit found = ids :=
  gathers.walkFrom_eq (fun id member => rooted.advances (inside id member)) few

end Rooted

end LiveMarkup.Forest
