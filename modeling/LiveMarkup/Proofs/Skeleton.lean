import LiveMarkup.Proofs.RoundTrip
import LiveMarkup.Proofs.Sites

/-
This file shows that the texts of bound markup have no part in its elements, attributes and comments,
also when it is written and parsed again.
-/

namespace LiveMarkup

namespace Markup

mutual

/-- The skeleton of markup consists of its elements and comments. -/
def skeleton : Markup → List Markup
  | .text _ => []
  | .comment content => [.comment content]
  | .element tag attributes children => [.element tag attributes (skeletonAll children)]

def skeletonAll : List Markup → List Markup
  | [] => []
  | first :: rest => skeleton first ++ skeletonAll rest

end

mutual

/-- This is the skeleton that markup has when it is bound. It depends on no value. -/
def outline : Markup → List Markup
  | .text _ => []
  | .comment content => [.comment content]
  | .element tag attributes children =>
      [.element tag (keptAttributes tag attributes)
        (if (textSource? attributes).isSome then [] else outlineAll children)]

def outlineAll : List Markup → List Markup
  | [] => []
  | first :: rest => outline first ++ outlineAll rest

end

mutual

/-- A void element loses its content, which is not written. -/
def hollowed : Markup → Markup
  | .text content => .text content
  | .comment content => .comment content
  | .element tag attributes children =>
      .element tag attributes (if isVoid tag then [] else hollowedAll children)

def hollowedAll : List Markup → List Markup
  | [] => []
  | first :: rest => hollowed first :: hollowedAll rest

end

mutual

theorem print_hollowed : ∀ tree : Markup, print (hollowed tree) = print tree
  | .text _ => rfl
  | .comment _ => rfl
  | .element tag attributes children => by
      cases void : isVoid tag with
      | true => simp only [hollowed, print, void, if_true]
      | false =>
          simp only [hollowed, print, void, Bool.false_eq_true, if_false, printAll_hollowedAll children]

theorem printAll_hollowedAll : ∀ trees : List Markup, printAll (hollowedAll trees) = printAll trees
  | [] => rfl
  | first :: rest => by
      rw [hollowedAll, printAll, print_hollowed first, printAll_hollowedAll rest, printAll]

end

/-! Texts do not count. -/

theorem skeletonAll_prepend (tree : Markup) (rest : List Markup) :
    skeletonAll (prepend tree rest) = skeleton tree ++ skeletonAll rest := by
  unfold prepend
  split
  · split
    · rfl
    · split <;> rfl
  · rfl

mutual

theorem skeleton_joined : ∀ tree : Markup, skeleton (joined tree) = skeleton tree
  | .text _ => rfl
  | .comment _ => rfl
  | .element tag attributes children => by
      simp only [joined, skeleton, skeletonAll_joinedAll children]

/-- Markup whose texts are joined keeps its skeleton. -/
theorem skeletonAll_joinedAll : ∀ trees : List Markup,
    skeletonAll (joinedAll trees) = skeletonAll trees
  | [] => rfl
  | first :: rest => by
      rw [joinedAll, skeletonAll_prepend, skeleton_joined first, skeletonAll_joinedAll rest, skeletonAll]

end

theorem skeletonAll_ofText (text : String) : skeletonAll (ofText text) = [] := by
  unfold ofText
  split <;> rfl

theorem hollowedAll_ofText (text : String) : hollowedAll (ofText text) = ofText text := by
  unfold ofText
  split <;> rfl

theorem legal_ofText (text : String) : EverywhereAll Legal (ofText text) := by
  unfold ofText
  split
  · trivial
  · exact ⟨trivial, trivial⟩

variable (shown : Site → String)

mutual

theorem skeleton_filled : ∀ (tree : Markup) (parent id : Nat), tree.Everywhere Legal →
    skeleton (hollowed (filled shown parent id tree)) = outline tree
  | .text content, parent, id, _ => rfl
  | .comment content, parent, id, _ => rfl
  | .element tag attributes children, parent, id, ⟨legal, inside⟩ => by
      unfold filled hollowed skeleton outline
      cases textSource? attributes with
      | some source =>
          dsimp only [Option.isSome_some]
          rw [hollowedAll_ofText, if_pos rfl]
          split
          · rfl
          · rw [skeletonAll_ofText]
      | none =>
          dsimp only [Option.isSome_none]
          rw [if_neg Bool.false_ne_true]
          split
          · rename_i void
            rw [legal.hollow void]
            rfl
          · rw [skeletonAll_filledAll children id (id + 1) inside]

/-- Whatever is shown at its sites, the skeleton of bound markup is the outline of its template. -/
theorem skeletonAll_filledAll : ∀ (trees : List Markup) (parent id : Nat),
    EverywhereAll Legal trees →
      skeletonAll (hollowedAll (filledAll shown parent id trees)) = outlineAll trees
  | [], _, _, _ => rfl
  | first :: rest, parent, id, ⟨legal, later⟩ => by
      rw [filledAll, hollowedAll, skeletonAll, outlineAll, skeleton_filled first parent id legal,
        skeletonAll_filledAll rest parent (id + first.count) later]

end

theorem legalElement_kept {tag : String} {attributes : List (String × String)}
    {children content : List Markup} (legal : LegalElement tag attributes children)
    (hollow : isVoid tag = true → content = []) :
    LegalElement tag (keptAttributes tag attributes) content where
  tagged := legal.tagged
  lowered := legal.lowered
  named entry member := legal.named entry (List.mem_of_mem_filter member)
  distinct := legal.distinct.sublist (List.filter_sublist.map Prod.fst)
  hollow := hollow

mutual

theorem legal_filled : ∀ (tree : Markup) (parent id : Nat), tree.Everywhere Legal →
    (hollowed (filled shown parent id tree)).Everywhere Legal
  | .text content, parent, id, _ => trivial
  | .comment content, parent, id, legal => legal
  | .element tag attributes children, parent, id, ⟨legal, inside⟩ => by
      unfold filled hollowed
      refine ⟨legalElement_kept legal fun void => if_pos void, ?_⟩
      split
      · trivial
      · cases textSource? attributes with
        | some source =>
            dsimp only
            rw [hollowedAll_ofText]
            exact legal_ofText _
        | none => exact legal_filledAll children id (id + 1) inside

/-- Any texts may be shown in legal markup. -/
theorem legal_filledAll : ∀ (trees : List Markup) (parent id : Nat), EverywhereAll Legal trees →
    EverywhereAll Legal (hollowedAll (filledAll shown parent id trees))
  | [], _, _, _ => trivial
  | first :: rest, parent, id, ⟨legal, later⟩ =>
      ⟨legal_filled first parent id legal, legal_filledAll rest parent (id + first.count) later⟩

end

/-- Bound markup is written and parsed again, whatever is shown at its sites. No text is read as an
element, an attribute or a comment. -/
theorem parse_filledAll {trees : List Markup} (legal : EverywhereAll Legal trees) (parent id : Nat) :
    ∃ copy, parse (String.ofList (printAll (filledAll shown parent id trees))) = .ok copy ∧
      skeletonAll copy = outlineAll trees := by
  rw [← printAll_hollowedAll]
  refine ⟨_, parse_printAll (legal_filledAll shown trees parent id legal), ?_⟩
  rw [skeletonAll_joinedAll, skeletonAll_filledAll shown trees parent id legal]

end Markup

end LiveMarkup
