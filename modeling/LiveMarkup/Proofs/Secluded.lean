import LiveMarkup.Proofs.Display
import LiveMarkup.Proofs.Plain
import LiveMarkup.Proofs.Basic

/-
This file says which deeds stay out of what hangs below a root, and that edits of nodes which stay out
keep it.
-/

namespace LiveMarkup

/-- A deed does not touch what hangs below a root, or it shows something there on behalf of an effect
that may do so. -/
def Deed.StaysOut (root : NodeId) (owns : EffectId → Prop) : Deed → Prop
  | .edited holders => root ∉ holders
  | .shown effect holders => root ∈ holders → ∃ id, effect = some id ∧ owns id
  | .preset _ => True
  | .released _ => True
  | .parsed _ _ => True
  | .rendered _ _ holders => root ∉ holders
  | .destroyed _ holders => root ∉ holders
  | .recovered _ => True
  | .strayed _ => True

theorem Deed.LeavesAlone.staysOut {state : TargetId} {root : NodeId} {owns : EffectId → Prop}
    {deed : Deed} (leaves : deed.LeavesAlone state root owns) : deed.StaysOut root owns := by
  cases deed with
  | edited holders => exact leaves
  | shown effect holders => exact leaves
  | preset other => trivial
  | released target => trivial
  | parsed host template => trivial
  | rendered host effects holders => exact leaves
  | destroyed host holders => exact leaves
  | recovered payload => trivial
  | strayed target => trivial

namespace Display

open Live

/-- A conduct admits edits that are attested and keep what hangs below the root, if those that stay out
do so while the display stands. -/
structure Admits (display : Display) (conduct : Conduct) : Prop where
  plain : Plain conduct
  formed : display.Formed
  attested : ∀ (world : World) (deed : Deed) (forest : Forest Handler),
    world.forest.size ≤ forest.size →
      (display.Stands world → deed.StaysOut display.root display.Owns →
        Forest.Keeps display.root world.forest forest) →
      conduct.calm world { world.attest deed with forest }

namespace Admits

variable {display : Display} {conduct : Conduct}

theorem edits (admits : display.Admits conduct) : conduct.Edits :=
  fun world holders forest grows keeps _ => admits.attested world (.edited holders) forest grows
    fun stands out => keeps display.root (root_lt_size admits.formed stands) out

/-- The active effect is none of the effects of the sites, so that it may not show below the root. -/
theorem showAt (admits : display.Admits conduct) (node : NodeId) (text : String) (world : World) :
    Follows conduct (Live.showAt node text) world := by
  have shown := admits.attested world (.shown world.graph.active? (world.forest.holders node)) _
    (Forest.size_setTextContent world.forest node text) fun stands out => by
      apply Forest.Keeps.setTextContent text (root_lt_size admits.formed stands)
      intro member
      obtain ⟨id, active, owned⟩ := out member
      exact stands.idle id owned (Graph.mem_stack_of_active? active)
  exact shown

/-- Another container may show something else. -/
theorem replaced (admits : display.Admits conduct) (id : HostId) (effects : List EffectId)
    (container fragment : NodeId) (world : World) :
    conduct.calm world
      { world.attest (.rendered id effects (world.forest.holders container ++
          world.forest.appendHolders container fragment)) with
        forest := (world.forest.clear container).append container fragment } :=
  admits.attested world _ _ (Nat.le_of_eq (by rw [Forest.size_append, Forest.size_clear]))
    fun _ absent => by
      obtain ⟨gone, away⟩ := not_or.mp (mt List.mem_append.mpr absent)
      exact .replace gone away

theorem cleared (admits : display.Admits conduct) (id : HostId) (container : NodeId)
    (world : World) :
    conduct.calm world
      { world.attest (.destroyed id (world.forest.holders container)) with
        forest := world.forest.clear container } :=
  admits.attested world _ _ (Nat.le_of_eq (Forest.size_clear world.forest container).symm)
    fun _ absent => Forest.Keeps.clear absent

end Admits

end Display

end LiveMarkup
