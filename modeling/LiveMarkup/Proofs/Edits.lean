import LiveMarkup.Proofs.Basic
import LiveMarkup.Proofs.Keeping
import LiveMarkup.Proofs.Listening

/-
This file shows that the commands which edit nodes follow each conduct that allows edits.
-/

namespace LiveMarkup

/-- A conduct allows edits if nodes may change that hang below no root but those which show the edit. An edit
takes no handler away, and adds none. -/
def Conduct.Edits (conduct : Conduct) : Prop :=
  ∀ (world : World) (holders : List NodeId) (forest : Forest Handler),
    world.forest.size ≤ forest.size →
      (∀ root < world.forest.size, root ∉ holders → Forest.Keeps root world.forest forest) →
      (∀ id < world.forest.size, forest.handlersAt id = world.forest.handlersAt id) →
        conduct.calm world { world.attest (.edited holders) with forest }

namespace Conduct.Edits

open Live

variable {conduct : Conduct}

theorem editForest (edits : conduct.Edits) (node : String)
    {holders : Forest Handler → NodeId → List NodeId}
    {change : Forest Handler → NodeId → Forest Handler}
    (grows : ∀ (forest : Forest Handler) id, forest.size ≤ (change forest id).size)
    (keeps : ∀ (forest : Forest Handler) id root, root < forest.size → root ∉ holders forest id →
      Forest.Keeps root forest (change forest id))
    (hears : ∀ (forest : Forest Handler) id other, other < forest.size →
      (change forest id).handlersAt other = forest.handlersAt other) (world : World) :
    Follows conduct (Live.editForest node holders change) world := by
  refine (Plain.nodeNamed node).bind fun id after _ => ?_
  have edited := edits after (holders after.forest id) _ (grows after.forest id) (keeps after.forest id)
    (hears after.forest id)
  exact edited

theorem performEdit (edits : conduct.Edits) (run : Runner) (command : NodeCommand) (world : World)
    (isEdit : command.isEdit = true) : Follows conduct (Live.performNode run command) world := by
  cases command with
  | append parent child =>
      exact (Plain.nodeNamed child).bind fun childId after _ =>
        edits.editForest parent
          (fun forest id => Nat.le_of_eq (Forest.size_append forest id childId).symm)
          (fun _ _ _ _ absent => .append absent)
          (fun forest id _ _ => Forest.handlersAt_append forest id childId) after
  | detach node =>
      exact edits.editForest node
        (fun forest id => Nat.le_of_eq (Forest.size_detach forest id).symm)
        (fun _ _ _ _ absent => .detach absent)
        (fun forest id _ _ => Forest.handlersAt_detach forest id) world
  | clear node =>
      exact edits.editForest node
        (fun forest id => Nat.le_of_eq (Forest.size_clear forest id).symm)
        (fun _ _ _ _ absent => .clear absent)
        (fun forest id _ _ => Forest.handlersAt_clear forest id) world
  | setText node text =>
      exact edits.editForest node (fun forest id => Forest.size_setTextContent forest id text)
        (fun _ _ _ known absent => .setTextContent text known absent)
        (fun _ _ _ known => Forest.handlersAt_setTextContent known text) world
  | setAttribute node name value =>
      exact edits.editForest node
        (fun forest id => Nat.le_of_eq (Forest.size_setAttribute forest id name value).symm)
        (fun _ _ _ _ absent => .modifyElement absent)
        (fun _ _ _ _ => Forest.handlersAt_modifyElement fun _ => rfl) world
  | removeAttribute node name =>
      exact edits.editForest node
        (fun forest id => Nat.le_of_eq (Forest.size_removeAttribute forest id name).symm)
        (fun _ _ _ _ absent => .modifyElement absent)
        (fun _ _ _ _ => Forest.handlersAt_modifyElement fun _ => rfl) world
  | _ => cases isEdit

theorem dropDirective (edits : conduct.Edits) (node : NodeId) (name : String) (world : World) :
    Follows conduct (Live.dropDirective node name) world := by
  have dropped := edits world (world.forest.above node) _
    (Nat.le_of_eq (Forest.size_removeAttribute world.forest node name).symm)
    (fun _ _ absent => Forest.Keeps.modifyElement absent)
    fun _ _ => Forest.handlersAt_modifyElement fun _ => rfl
  exact dropped

end Conduct.Edits

end LiveMarkup
