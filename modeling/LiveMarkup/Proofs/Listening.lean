import LiveMarkup.Proofs.Hanging
import LiveMarkup.World.Basic

/-
This file follows the handlers of elements through the changes of a forest.
-/

namespace LiveMarkup.Forest

variable {forest : Forest Handler} {id other : NodeId}

/-- These are the handlers of an element for all kinds of events. -/
def handlersAt (forest : Forest Handler) (id : NodeId) : List (String × Handler) :=
  match forest.element? id with
  | some element => element.listeners
  | none => []

theorem listenersFor_eq (forest : Forest Handler) (id : NodeId) (kind : String) :
    forest.listenersFor id kind =
      ((forest.handlersAt id).filter fun entry => entry.1 = kind).map Prod.snd := by
  unfold listenersFor handlersAt
  cases forest.element? id <;> rfl

theorem handlersAt_congr {before after : Forest Handler}
    (same : (after.element? id).map Element.listeners = (before.element? id).map Element.listeners) :
    after.handlersAt id = before.handlersAt id := by
  unfold handlersAt
  cases old : before.element? id <;> cases new : after.element? id <;> rw [old, new] at same
  · cases same
  · cases same
  · exact Option.some.inj same

theorem handlersAt_modifyElement {change : Element Handler → Element Handler}
    (same : ∀ element, (change element).listeners = element.listeners) :
    (forest.modifyElement id change).handlersAt other = forest.handlersAt other := by
  apply handlersAt_congr
  rw [element?_modifyElement]
  split
  · rw [Option.map_map]
    exact congrArg (Option.map · _) (funext same)
  · rfl

theorem handlersAt_setValue (text : String) :
    (forest.setValue id text).handlersAt other = forest.handlersAt other :=
  handlersAt_modifyElement fun _ => rfl

theorem handlersAt_setTextContent (known : other < forest.size) (text : String) :
    (forest.setTextContent id text).handlersAt other = forest.handlersAt other := by
  unfold handlersAt
  rw [element?_setTextContent known]

theorem handlersAt_listen {element : Element Handler} (found : forest.element? id = some element)
    (kind : String) (handler : Handler) :
    (forest.listen id kind handler).handlersAt other =
      forest.handlersAt other ++ if id = other then [(kind, handler)] else [] := by
  unfold listen handlersAt
  rw [element?_modifyElement]
  by_cases same : id = other
  · rw [if_pos same, if_pos same, ← same, found]
    rfl
  · rw [if_neg same, if_neg same, List.append_nil]

/-! Handlers belong to the content of a node. -/

theorem handlersAt_of_content? {before after : Forest Handler}
    (same : after.content? id = before.content? id) : after.handlersAt id = before.handlersAt id := by
  unfold handlersAt element?
  rw [same]

theorem handlersAt_append (forest : Forest Handler) (parent child : NodeId) :
    (forest.append parent child).handlersAt other = forest.handlersAt other :=
  handlersAt_of_content? (content?_append forest parent child)

theorem handlersAt_detach (forest : Forest Handler) (id : NodeId) :
    (forest.detach id).handlersAt other = forest.handlersAt other :=
  handlersAt_of_content? (content?_detach forest id)

theorem handlersAt_clear (forest : Forest Handler) (id : NodeId) :
    (forest.clear id).handlersAt other = forest.handlersAt other :=
  handlersAt_of_content? (content?_clear forest id)

end LiveMarkup.Forest
