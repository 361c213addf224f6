/-
This file gives sets of numbers below a bound, in which each number can be looked up at once.
-/

namespace LiveMarkup

/-- A marking has one mark for each number below its bound. -/
structure Marking where
  marks : Array Bool

namespace Marking

/-- This function marks the members of a list. Numbers at the bound or above it are left out. -/
def ofList (bound : Nat) (members : List Nat) : Marking where
  marks := members.foldl (fun marks member => marks.setIfInBounds member true)
    (Array.replicate bound false)

def has (marking : Marking) (number : Nat) : Bool := marking.marks[number]?.getD false

theorem has_foldl (members : List Nat) (marks : Array Bool) {number : Nat}
    (below : number < marks.size) :
    Marking.has ⟨members.foldl (fun marks member => marks.setIfInBounds member true) marks⟩ number =
      (members.contains number || Marking.has ⟨marks⟩ number) := by
  induction members generalizing marks with
  | nil => simp
  | cons member rest inductionHypothesis =>
      have step := inductionHypothesis (marks.setIfInBounds member true) (by simpa using below)
      rw [List.foldl_cons, step]
      by_cases same : member = number
      · subst same
        simp [has, below]
      · simp [has, same, Ne.symm same]

/-- Below the bound exactly the members are marked. -/
theorem has_ofList {bound number : Nat} (members : List Nat) (below : number < bound) :
    (ofList bound members).has number = true ↔ number ∈ members := by
  have marked := has_foldl members (Array.replicate bound false) (by simpa using below)
  rw [ofList, marked]
  simp [has, below]

end Marking

end LiveMarkup
