import LiveMarkup.Proofs.Attentive
import LiveMarkup.Proofs.Rearranging
import Mathlib.Data.Fintype.EquivFin

/-
This file follows events through the tree that their listeners change. An event finds its way node by node, so
that it reaches all ancestors of its target as long as the nodes on the way keep their parents.
-/

namespace LiveMarkup

namespace Forest

variable {Handler : Type} {forest : Forest Handler} {id : Nat} {route : List Nat}

/-- A route leads from a node outwards, from parent to parent, up to a node without one. -/
inductive Ascends (forest : Forest Handler) : Nat → List Nat → Prop where
  | root {id : Nat} (orphan : forest.parent? id = none) : Ascends forest id [id]
  | up {id parent : Nat} {route : List Nat} (found : forest.parent? id = some parent)
      (ascends : Ascends forest parent route) : Ascends forest id (id :: route)

namespace Ascends

theorem head?_eq (ascends : forest.Ascends id route) : route.head? = some id := by
  cases ascends <;> rfl

theorem unique {other : List Nat} (first : forest.Ascends id route) (second : forest.Ascends id other) :
    route = other := by
  induction first generalizing other with
  | root orphan =>
      cases second with
      | root _ => rfl
      | up found _ => cases orphan.symm.trans found
  | up found _ inductionHypothesis =>
      cases second with
      | root orphan => cases orphan.symm.trans found
      | up again ascends =>
          cases found.symm.trans again
          rw [inductionHypothesis ascends]

/-- The route of a node on the way is the rest of the way. -/
theorem of_mem {node : Nat} (ascends : forest.Ascends id route) (member : node ∈ route) :
    ∃ rest, forest.Ascends node rest ∧ rest <:+ route := by
  induction ascends with
  | root orphan =>
      cases List.mem_singleton.mp member
      exact ⟨_, .root orphan, List.suffix_refl _⟩
  | up found ascends inductionHypothesis =>
      rcases List.mem_cons.mp member with rfl | later
      · exact ⟨_, .up found ascends, List.suffix_refl _⟩
      · obtain ⟨rest, outwards, suffix⟩ := inductionHypothesis later
        exact ⟨rest, outwards, suffix.trans (List.suffix_cons _ _)⟩

/-- A route that came back to a node would never end. -/
theorem nodup (ascends : forest.Ascends id route) : route.Nodup := by
  induction ascends with
  | root _ => exact List.nodup_singleton _
  | up found ascends inductionHypothesis =>
      refine List.nodup_cons.mpr ⟨fun member => ?_, inductionHypothesis⟩
      obtain ⟨rest, again, suffix⟩ := ascends.of_mem member
      have longer := suffix.length_le
      rw [again.unique (.up found ascends), List.length_cons] at longer
      exact Nat.not_succ_le_self _ longer

/-- All nodes that have a parent exist, and only the last one has none. -/
theorem length_le (ascends : forest.Ascends id route) : route.length ≤ forest.size + 1 := by
  have inside : ∀ node ∈ route.dropLast, node < forest.size := by
    induction ascends with
    | root _ => simp
    | up found ascends inductionHypothesis =>
        rw [List.dropLast_cons_of_ne_nil (List.ne_nil_of_mem (List.mem_of_mem_head? ascends.head?_eq))]
        intro node member
        rcases List.mem_cons.mp member with rfl | later
        · exact lt_size_of_parent? found
        · exact inductionHypothesis node later
  have fewer := length_le_of_distinct (ascends.nodup.sublist (List.dropLast_sublist route)) inside
  rw [List.length_dropLast] at fewer
  exact Nat.le_add_of_sub_le fewer

end Ascends

end Forest

/-- An event visited a node. The listeners that were called left a world. -/
structure Visit where
  node : NodeId
  listeners : List Handler
  left : World

namespace Visit

/-- A node that was visited has the same parent as earlier when its listeners are through. -/
def Stays (visit : Visit) (earlier : Forest Handler) : Prop :=
  visit.left.forest.parent? visit.node = earlier.parent? visit.node

/-- This many listeners are called on all visits. -/
def calls (visits : List Visit) : Nat := (visits.flatMap Visit.listeners).length

end Visit

namespace Live

variable {run : Runner} {event : Event} {kind : String} {target id : NodeId} {place : Option NodeId}
  {before after : World} {start : Forest Handler} {visits early late : List Visit} {route : List NodeId}

/-- Each listener is called once, in order. -/
inductive Calls (run : Runner) (event : Event) : List Handler → World → World → Prop where
  | done {world : World} : Calls run event [] world world
  | call {handler : Handler} {rest : List Handler} {value : Value} {before left after : World}
      (returns : run (.handler handler event) before = .ok value left) (calls : Calls run event rest left after) :
      Calls run event (handler :: rest) before after

/-- An event visits a node, and then the parent that the node has once its listeners are through. -/
inductive Tour (run : Runner) (kind : String) (target : NodeId) :
    Option NodeId → World → List Visit → World → Prop where
  | ends {world : World} : Tour run kind target none world [] world
  | visit {node : NodeId} {before left after : World} {visits : List Visit}
      (calls : Calls run { kind, target, current := node } (before.forest.listenersFor node kind) before left)
      (tour : Tour run kind target (left.forest.parent? node) left visits after) :
      Tour run kind target (some node) before
        ({ node, listeners := before.forest.listenersFor node kind, left } :: visits) after

/-- Visits lead along a route. On each node all listeners are called that were there at the start, in order, and
before those that were added since. -/
def Heard (kind : String) (start : Forest Handler) : List NodeId → List Visit → Prop :=
  List.Forall₂ fun node visit => visit.node = node ∧ start.listenersFor node kind <+: visit.listeners

/-! Events that return have made a tour. -/

theorem Heard.nodes (heard : Heard kind start route visits) : visits.map Visit.node = route := by
  induction heard with
  | nil => rfl
  | cons first _ inductionHypothesis => rw [List.map_cons, first.1, inductionHypothesis]

theorem Calls.attends {handlers : List Handler} (keeps : run.Keeps Conduct.attentive)
    (calls : Calls run event handlers before after) : before.forest.Attends after.forest := by
  induction calls with
  | done => exact .of_eq rfl
  | call returns _ inductionHypothesis =>
      exact ((keeps _ _ trivial).calm returns).trans inductionHypothesis

theorem Tour.head?_eq (tour : Tour run kind target place before visits after) :
    visits.head?.map Visit.node = place := by
  cases tour <;> rfl

theorem Tour.of_none (tour : Tour run kind target none before visits after) : visits = [] := by
  cases tour
  rfl

/-- As long as the visited nodes stay, an event keeps to the route of its target. -/
theorem Tour.heard (keeps : run.Keeps Conduct.attentive) (ascends : start.Ascends id route)
    (attends : start.Attends before.forest) (tour : Tour run kind target (some id) before (early ++ late) after)
    (stay : ∀ visit ∈ early, visit.Stays start) :
    ∃ passed rest, route = passed ++ rest ∧ Heard kind start passed early ∧
      late.head?.map Visit.node = rest.head? := by
  induction ascends generalizing before early with
  | @root id orphan =>
      cases early with
      | nil => exact ⟨[], [id], rfl, .nil, tour.head?_eq⟩
      | cons visit others =>
          cases tour with
          | visit calls tour =>
              obtain ⟨here, -⟩ := List.forall_mem_cons.mp stay
              rw [show _ = _ from here, orphan] at tour
              obtain ⟨rfl, rfl⟩ : others = [] ∧ late = [] := List.append_eq_nil_iff.mp tour.of_none
              exact ⟨[id], [], rfl, .cons ⟨rfl, attends.listenersFor id kind⟩ .nil, rfl⟩
  | @up id parent route found ascends inductionHypothesis =>
      cases early with
      | nil => exact ⟨[], id :: route, rfl, .nil, tour.head?_eq⟩
      | cons visit others =>
          cases tour with
          | visit calls tour =>
              obtain ⟨here, above⟩ := List.forall_mem_cons.mp stay
              rw [show _ = _ from here, found] at tour
              obtain ⟨passed, rest, rfl, heard, next⟩ :=
                inductionHypothesis (attends.trans (calls.attends keeps)) tour above
              exact ⟨id :: passed, rest, rfl, .cons ⟨rfl, attends.listenersFor id kind⟩ heard, next⟩

/-- A host shows a button that counts, and its container listens as well. -/
def countingPage : World :=
  (World.empty.play [.node (.parse "doc" "<div id=\"app\"></div>"),
    .createHost "doc"
      { name := "h", selector := "#app", initial := .object [("n", .integer 0)]
        template := "<button v-on:click=\"hit()\">+</button>"
        methods := [("hit", [.state (.increase "h" "n" 1)])], hooks := [], rendered := none },
    .host (.mount "h"), .listen "h.root" "click" [.value (.integer 7)]]).2

end Live

end LiveMarkup
