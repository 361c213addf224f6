import LiveMarkup.Proofs.Cursor
import LiveMarkup.Proofs.Survey
import Mathlib.Data.Fintype.EquivFin

/-
This file shows that a cursor, which keeps no stack, visits what is below a node in the order of the tree there:
first a child, then what is below the child, then the next child.
-/

namespace LiveMarkup

namespace Tree

mutual

/-- This is the text in a tree, in document order. -/
def text : Tree → String
  | node _ (.text content) branches => content ++ textAll branches
  | node _ _ branches => textAll branches

def textAll : List Tree → String
  | [] => ""
  | first :: rest => text first ++ textAll rest

end

end Tree

namespace Forest

variable {forest : Forest Handler} {root id : NodeId}

/-! Below a node that does not hang below itself is a tree. -/

theorem exists_branches {parent : NodeId} : ∀ ids : List NodeId,
    (∀ child ∈ ids, ∃ tree, forest.Bears (some parent) tree ∧ tree.id = child) →
      ∃ branches, forest.BearsAll parent branches ∧ branches.map Tree.id = ids
  | [], _ => ⟨[], trivial, rfl⟩
  | first :: rest, grown => by
      obtain ⟨tree, bears, rfl⟩ := grown first List.mem_cons_self
      obtain ⟨branches, others, rfl⟩ := exists_branches rest fun child member =>
        grown child (List.mem_cons_of_mem _ member)
      exact ⟨tree :: branches, ⟨bears, others⟩, rfl⟩

/-- What holds for a node if it holds for all its children holds inside a tree, since no finite order goes down for
ever. -/
theorem Rooted.induction {motive : NodeId → Prop} (rooted : forest.Rooted root)
    (step : ∀ id, forest.Inside root id → (∀ child ∈ forest.children id, motive child) → motive id)
    (inside : forest.Inside root id) : motive id := by
  let Place := {id : Fin forest.size // forest.Inside root id}
  let below : Place → Place → Prop := fun low high => forest.Below low.1 high.1
  have transitive : IsTrans Place below := ⟨fun _ _ _ first second => first.trans second⟩
  have irreflexive : Std.Irrefl below := ⟨fun place => rooted.not_below_self place.2⟩
  have wellFounded : WellFounded below := Finite.wellFounded_of_trans_of_irrefl below
  have known : ∀ place : Place, motive place.1 := by
    intro place
    induction place using wellFounded.induction with
    | _ place inductionHypothesis =>
        refine step place.1 place.2 fun child member => ?_
        have found := (rooted.linked.linked place.1 child).mp member
        exact inductionHypothesis ⟨⟨child, lt_size_of_parent? found⟩, .head found place.2⟩ (.single found)
  exact known ⟨⟨id, rooted.lt_size inside⟩, inside⟩

theorem Rooted.exists_tree (rooted : forest.Rooted root) :
    ∃ tree, forest.Bears (forest.parent? root) tree ∧ tree.id = root := by
  refine rooted.induction (motive := fun id => ∃ tree, forest.Bears (forest.parent? id) tree ∧ tree.id = id)
    (fun id inside grown => ?_) .refl
  obtain ⟨branches, bears, children⟩ := exists_branches (forest.children id) fun child member =>
    (rooted.linked.linked id child).mp member ▸ grown child member
  obtain ⟨node, looked⟩ : ∃ node, forest.node? id = some node :=
    ⟨_, Array.getElem?_eq_getElem (rooted.lt_size inside)⟩
  refine ⟨.node id node.content branches, ⟨?_, bears⟩, rfl⟩
  rw [children]
  unfold Forest.children parent?
  rw [looked]
  rfl

/-! What is inside a tree has its root as an ancestor. -/

mutual

theorem inside_of_mem_ids : ∀ (tree : Tree) {parent : Option NodeId}, forest.Bears parent tree →
    ∀ id ∈ tree.ids, forest.Inside tree.id id
  | .node root content branches, _, bears, id, member => by
      unfold Bears at bears
      unfold Tree.ids at member
      rcases List.mem_cons.mp member with rfl | below
      · exact .refl
      · exact (below_of_mem_idsAll branches bears.2 id below).to_reflTransGen

theorem below_of_mem_idsAll : ∀ (branches : List Tree) {parent : NodeId}, forest.BearsAll parent branches →
    ∀ id ∈ Tree.idsAll branches, forest.Below id parent
  | [], _, _, _, impossible => by cases impossible
  | first :: rest, parent, bears, id, member => by
      unfold BearsAll at bears
      unfold Tree.idsAll at member
      rcases List.mem_append.mp member with here | later
      · exact .tail' (inside_of_mem_ids first bears.1 id here) (parent?_of_bears bears.1)
      · exact below_of_mem_idsAll rest bears.2 id later

end

mutual

/-- The nodes of a tree have no children outside. -/
theorem mem_ids_of_mem_children : ∀ (tree : Tree) {parent : Option NodeId}, forest.Bears parent tree →
    ∀ id ∈ tree.ids, ∀ child ∈ forest.children id, child ∈ tree.ids
  | .node root content branches, _, bears, id, member, child, listed => by
      unfold Bears at bears
      unfold Tree.ids at member ⊢
      refine List.mem_cons_of_mem _ ?_
      rcases List.mem_cons.mp member with rfl | below
      · unfold Forest.children at listed
        rw [bears.1] at listed
        obtain ⟨branch, present, rfl⟩ := List.mem_map.mp listed
        exact Tree.mem_idsAll_of_mem present branch.mem_ids_self
      · exact mem_idsAll_of_mem_children branches bears.2 id below child listed

theorem mem_idsAll_of_mem_children : ∀ (branches : List Tree) {parent : NodeId}, forest.BearsAll parent branches →
    ∀ id ∈ Tree.idsAll branches, ∀ child ∈ forest.children id, child ∈ Tree.idsAll branches
  | [], _, _, _, impossible, _, _ => by cases impossible
  | first :: rest, parent, bears, id, member, child, listed => by
      unfold BearsAll at bears
      unfold Tree.idsAll at member ⊢
      rcases List.mem_append.mp member with here | later
      · exact List.mem_append_left _ (mem_ids_of_mem_children first bears.1 id here child listed)
      · exact List.mem_append_right _ (mem_idsAll_of_mem_children rest bears.2 id later child listed)

end

theorem Linked.mem_ids_iff {tree : Tree} {parent : Option NodeId} (linked : forest.Linked)
    (bears : forest.Bears parent tree) : id ∈ tree.ids ↔ forest.Inside tree.id id := by
  refine ⟨inside_of_mem_ids tree bears id, fun inside => ?_⟩
  induction inside using Relation.ReflTransGen.head_induction_on with
  | refl => exact tree.mem_ids_self
  | head found _ inductionHypothesis =>
      exact mem_ids_of_mem_children tree bears _ inductionHypothesis _ ((linked.linked _ _).mpr found)

/-! A cursor gathers a tree, and goes on behind it. -/

theorem children_of_bears {content : Content Handler} {branches : List Tree} {parent : Option NodeId}
    (bears : forest.Bears parent (.node id content branches)) : forest.children id = branches.map Tree.id := by
  unfold Bears at bears
  unfold Forest.children
  rw [bears.1]

theorem content?_of_bears {content : Content Handler} {branches : List Tree} {parent : Option NodeId}
    (bears : forest.Bears parent (.node id content branches)) : forest.content? id = some content := by
  unfold Bears at bears
  unfold content?
  rw [bears.1]
  rfl

theorem onward_nil (forest : Forest Handler) (root parent : NodeId) :
    forest.onward root parent [] = forest.nextSkipping? root parent := Option.none_or

mutual

theorem gathers_tree (rooted : forest.Rooted root) : ∀ (tree : Tree) {parent : Option NodeId} {rest : List NodeId},
    forest.Bears parent tree → forest.Inside root tree.id →
      forest.Gathers root (forest.nextSkipping? root tree.id) rest →
        forest.Gathers root (some tree.id) (tree.ids ++ rest)
  | .node id content branches, parent, rest, bears, inside, behind => by
      have children := children_of_bears bears
      unfold Bears at bears
      unfold Tree.ids
      have below := gathers_branches rooted branches id [] bears.2 inside children behind
      rw [← children, ← next?_eq_onward] at below
      exact .next (rooted.advances inside) below

theorem gathers_branches (rooted : forest.Rooted root) : ∀ (branches : List Tree) (parent : NodeId)
    (early : List NodeId) {rest : List NodeId}, forest.BearsAll parent branches → forest.Inside root parent →
      forest.children parent = early ++ branches.map Tree.id →
        forest.Gathers root (forest.nextSkipping? root parent) rest →
          forest.Gathers root (forest.onward root parent (branches.map Tree.id)) (Tree.idsAll branches ++ rest)
  | [], parent, _, _, _, _, _, behind => (onward_nil forest root parent).symm ▸ behind
  | first :: others, parent, early, rest, bears, inside, children, behind => by
      unfold BearsAll at bears
      unfold Tree.idsAll
      have onwards : forest.children parent = (early ++ [first.id]) ++ others.map Tree.id := by
        rw [children, List.append_assoc]
        rfl
      -- What a cursor gathers behind the first of the branches are its siblings.
      have siblings := gathers_branches rooted others parent (early ++ [first.id]) bears.2 inside onwards behind
      rw [← rooted.nextSkipping?_of_children inside children] at siblings
      have here := gathers_tree rooted first bears.1 (.head (parent?_of_bears bears.1) inside) siblings
      rw [List.append_assoc]
      exact here

end

namespace Rooted

variable {content : Content Handler} {branches : List Tree} {parent : Option NodeId}

theorem gathers_below (rooted : forest.Rooted root) (bears : forest.Bears parent (.node root content branches)) :
    forest.Gathers root (forest.next? root root) (Tree.idsAll branches) := by
  have children := children_of_bears bears
  unfold Bears at bears
  have stops : forest.Gathers root (forest.nextSkipping? root root) [] := by
    rw [nextSkipping?_root]
    exact .done
  have gathers := gathers_branches rooted branches root [] bears.2 .refl children stops
  rwa [← children, ← next?_eq_onward, List.append_nil] at gathers

/-- A walk finds what a cursor gathers, which is all of the tree but its root. -/
theorem descendants_eq (rooted : forest.Rooted root) (bears : forest.Bears parent (.node root content branches)) :
    forest.descendants root = Tree.idsAll branches := by
  have gathers := rooted.gathers_below bears
  unfold Bears at bears
  exact rooted.walkFrom_eq gathers (fun id member => (below_of_mem_idsAll branches bears.2 id member).to_reflTransGen)
    (length_le_of_distinct gathers.nodup (BearsAll.lt_size branches bears.2))

theorem mem_descendants_iff (rooted : forest.Rooted root) : id ∈ forest.descendants root ↔ forest.Below id root := by
  obtain ⟨⟨_, content, branches⟩, bears, rfl⟩ := rooted.exists_tree
  have members : id ∈ Tree.ids _ ↔ _ := rooted.linked.mem_ids_iff bears
  rw [rooted.descendants_eq bears]
  unfold Tree.ids at members
  unfold Bears at bears
  refine ⟨below_of_mem_idsAll branches bears.2 id, fun below => ?_⟩
  refine (List.mem_cons.mp (members.mpr below.to_reflTransGen)).resolve_left ?_
  rintro rfl
  exact rooted.acyclic below

theorem nodup_descendants (rooted : forest.Rooted root) : (forest.descendants root).Nodup := by
  obtain ⟨⟨_, content, branches⟩, bears, rfl⟩ := rooted.exists_tree
  rw [rooted.descendants_eq bears]
  exact (rooted.gathers_below bears).nodup

theorem gathers_iff (rooted : forest.Rooted root) {ids : List NodeId} :
    forest.Gathers root (forest.next? root root) ids ↔ ids = forest.descendants root := by
  obtain ⟨⟨_, content, branches⟩, bears, rfl⟩ := rooted.exists_tree
  have gathers := rooted.gathers_below bears
  rw [rooted.descendants_eq bears]
  exact ⟨fun again => again.unique gathers, fun same => same ▸ gathers⟩

/-- What a cursor comes to behind a node is followed by all that is left of the walk. -/
theorem exists_gathers_behind (rooted : forest.Rooted root) (inside : forest.Inside root id) :
    ∃ late, forest.Gathers root (forest.nextSkipping? root id) late := by
  have skips := rooted.skips inside
  cases behind : forest.nextSkipping? root id with
  | none => exact ⟨[], .done⟩
  | some next =>
      have member := rooted.mem_descendants_iff.mpr (skips.below_root rooted.linked inside next behind)
      obtain ⟨_, late, -, gathers⟩ := (rooted.gathers_iff.mpr rfl).of_mem member
      exact ⟨next :: late, gathers⟩

/-- A node and what is below it are together in a walk, and a cursor that skips them comes to what is behind them. -/
theorem exists_split (rooted : forest.Rooted root) (member : id ∈ forest.descendants root) :
    ∃ early late, forest.descendants root = early ++ (id :: forest.descendants id) ++ late ∧
      forest.nextSkipping? root id = late.head? := by
  have inside := (rooted.mem_descendants_iff.mp member).to_reflTransGen
  have inner := rooted.inner inside
  obtain ⟨⟨_, content, branches⟩, bears, rfl⟩ := inner.exists_tree
  obtain ⟨late, behind⟩ := rooted.exists_gathers_behind inside
  -- A cursor has one way to go on, so the walk of the root goes on from the node as this block does.
  have block := gathers_tree rooted _ bears inside behind
  obtain ⟨early, rest, split, gathers⟩ := (rooted.gathers_iff.mpr rfl).of_mem member
  unfold Tree.ids at block
  refine ⟨early, late, ?_, behind.head?_eq.symm⟩
  rw [split, gathers.unique block, inner.descendants_eq bears, List.append_assoc]
  rfl

end Rooted

/-! The text of a tree is what its nodes say. -/

mutual

theorem text_eq_join : ∀ (tree : Tree) {parent : Option NodeId}, forest.Bears parent tree →
    tree.text = String.join (tree.ids.filterMap forest.ownText?)
  | .node id content branches, _, bears => by
      have found := content?_of_bears bears
      unfold Bears at bears
      have below := textAll_eq_join branches bears.2
      unfold Tree.ids
      cases content with
      | text own =>
          have heard : forest.ownText? id = some own := by rw [ownText?, found]
          rw [List.filterMap_cons_some heard, String.join_cons, ← below, Tree.text]
      | _ =>
          have silent : forest.ownText? id = none := by rw [ownText?, found]
          rw [List.filterMap_cons_none silent, ← below, Tree.text]
          exact nofun

theorem textAll_eq_join : ∀ (branches : List Tree) {parent : NodeId}, forest.BearsAll parent branches →
    Tree.textAll branches = String.join ((Tree.idsAll branches).filterMap forest.ownText?)
  | [], _, _ => rfl
  | first :: rest, _, bears => by
      unfold BearsAll at bears
      unfold Tree.textAll Tree.idsAll
      rw [text_eq_join first bears.1, textAll_eq_join rest bears.2, List.filterMap_append, String.join_append]

end

/-- An element or a fragment says what is below it. -/
theorem Rooted.textContent_eq {content : Content Handler} {branches : List Tree} {parent : Option NodeId}
    (rooted : forest.Rooted root) (bears : forest.Bears parent (.node root content branches))
    (holds : (forest.element? root).isSome = true ∨ forest.isFragment root = true) :
    forest.textContent root = Tree.textAll branches := by
  have whole := rooted.descendants_eq bears
  have found := content?_of_bears bears
  unfold Bears at bears
  unfold textContent
  rw [whole, ← textAll_eq_join branches bears.2, found]
  rw [element?, isFragment, found] at holds
  cases content with
  | fragment | element => rfl
  | text | comment => rcases holds with impossible | impossible <;> cases impossible

/-- The loops of a cursor end. They visit what is below a node in the order of the tree there, each node once,
wherever the node itself hangs. What is behind a node and everything below it comes next when they are skipped. -/
theorem cursor_walks_in_preorder (made : forest.Made) (known : root < forest.size)
    (acyclic : ¬ forest.Below root root) :
    ∃ content branches,
      forest.Bears (forest.parent? root) (.node root content branches) ∧
      forest.descendants root = Tree.idsAll branches ∧
      (∀ ids, (∃ first, forest.Advances root root first ∧ forest.Gathers root first ids) ↔
        ids = forest.descendants root) ∧
      (forest.descendants root).Nodup ∧
      (∀ id, id ∈ forest.descendants root ↔ forest.Below id root) ∧
      (∀ id ∈ forest.descendants root, ∃ early late,
        forest.descendants root = early ++ (id :: forest.descendants id) ++ late ∧
        forest.nextSkipping? root id = late.head? ∧
        ∀ found, forest.Skips root id found ↔ found = late.head?) ∧
      (∀ selector,
        forest.queryAll root selector = (Tree.idsAll branches).filter (forest.isSelected (.ofString selector)) ∧
        forest.query? root selector = (forest.queryAll root selector).head?) ∧
      ((forest.element? root).isSome = true ∨ forest.isFragment root = true →
        forest.textContent root = Tree.textAll branches) := by
  have rooted : forest.Rooted root := ⟨made.linked, known, acyclic⟩
  obtain ⟨⟨_, content, branches⟩, bears, rfl⟩ := rooted.exists_tree
  have whole := rooted.descendants_eq bears
  refine ⟨content, branches, bears, whole, ?_, rooted.nodup_descendants, fun _ => rooted.mem_descendants_iff, ?_, ?_,
    rooted.textContent_eq bears⟩
  · intro ids
    rw [← rooted.gathers_iff]
    constructor
    · rintro ⟨first, advances, gathers⟩
      exact advances.unique (rooted.advances .refl) ▸ gathers
    · exact fun gathers => ⟨_, rooted.advances .refl, gathers⟩
  · intro id member
    obtain ⟨early, late, split, behind⟩ := rooted.exists_split member
    have skips := rooted.skips (rooted.mem_descendants_iff.mp member).to_reflTransGen
    rw [behind] at skips
    exact ⟨early, late, split, behind, fun found => ⟨fun again => again.unique skips, fun same => same ▸ skips⟩⟩
  · intro selector
    unfold queryAll query?
    exact ⟨congrArg _ whole, List.head?_filter.symm⟩

/-- In this forest, a list has a parent and a sibling, and another node hangs below itself. -/
def loopedPage : Forest Handler :=
  let parsed := (Forest.empty.plantFragment (Markup.read "<div><ul>one<li>two</li></ul><p></p></div>").trees).2
  (parsed.create (.ofTag "b")).2.append 7 7

theorem cursor_walks_loopedPage :
    loopedPage.Made ∧ loopedPage.parent? 2 = some 1 ∧ loopedPage.children 1 = [2, 6] ∧ loopedPage.Below 7 7 ∧
      ∀ ids, (∃ first, loopedPage.Advances 2 2 first ∧ loopedPage.Gathers 2 first ids) ↔ ids = [3, 4, 5] := by
  have made : loopedPage.Made :=
    .rearranged (.append 7 7) (by decide +kernel) (.rearranged (.create (.ofTag "b")) nofun
      (.rearranged (.parse "<div><ul>one<li>two</li></ul><p></p></div>") nofun .empty))
  have list : loopedPage.parent? 2 = some 1 := by decide +kernel
  have inner : loopedPage.parent? 1 = some 0 := by decide +kernel
  have acyclic : ¬ loopedPage.Below 2 2 := by
    intro below
    obtain ⟨_, first, above⟩ := Relation.TransGen.head'_iff.mp below
    cases list.symm.trans first
    rcases Relation.reflTransGen_iff_eq_or_transGen.mp above with same | higher
    · cases same
    · obtain ⟨_, second, top⟩ := Relation.TransGen.head'_iff.mp higher
      cases inner.symm.trans second
      rcases Relation.reflTransGen_iff_eq_or_transGen.mp top with same | highest
      · cases same
      · exact not_below_of_orphan (by decide +kernel) highest
  obtain ⟨content, branches, -, -, gathers, -⟩ :=
    cursor_walks_in_preorder made (show 2 < loopedPage.size by decide +kernel) acyclic
  have listed : loopedPage.descendants 2 = [3, 4, 5] := by decide +kernel
  exact ⟨made, list, by decide +kernel, .single (by decide +kernel), listed ▸ gathers⟩

end Forest

end LiveMarkup
