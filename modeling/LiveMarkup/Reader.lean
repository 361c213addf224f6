/-
This file gives readers, which take a form off the front of a text.
-/

namespace LiveMarkup

/-- A reader gives what it read and the rest of the text, or nothing. -/
abbrev Reader (A : Type) := List Char → Option (A × List Char)

namespace Reader

variable {A : Type}

/-- This function applies a reader as often as it succeeds, at most `limit` times. -/
def repeated (item : Reader A) : Nat → List Char → List A × List Char
  | 0, text => ([], text)
  | limit + 1, text =>
      match item text with
      | none => ([], text)
      | some (value, rest) =>
          let (values, ending) := repeated item limit rest
          (value :: values, ending)

/-- A reader that takes at least one character succeeds at most once for each character. -/
def many (item : Reader A) (text : List Char) : List A × List Char :=
  repeated item text.length text

/-- A reader makes progress if its rest is always shorter than its text. -/
def MakesProgress (item : Reader A) : Prop :=
  ∀ text value rest, item text = some (value, rest) → rest.length < text.length

theorem MakesProgress.orElse {first second : Reader A} (firstProgress : MakesProgress first)
    (secondProgress : MakesProgress second) :
    MakesProgress fun text => (first text).orElse fun _ => second text := by
  intro text value rest found
  cases attempt : first text with
  | none => exact secondProgress text value rest (by simpa [attempt] using found)
  | some result =>
      have same : result = (value, rest) := by simpa [attempt] using found
      exact firstProgress text value rest (same ▸ attempt)

theorem length_repeated_le {item : Reader A} (progress : MakesProgress item) :
    ∀ (limit : Nat) (text : List Char), (repeated item limit text).2.length ≤ text.length := by
  intro limit
  induction limit with
  | zero => exact fun text => Nat.le_refl _
  | succ limit inductionHypothesis =>
      intro text
      cases found : item text with
      | none => simp [repeated, found]
      | some result =>
          have shorter : result.2.length < text.length := progress text result.1 result.2 found
          have tail := inductionHypothesis result.2
          simp only [repeated, found]
          omega

/-- What is left after all repetitions cannot be read once more. -/
theorem item_many {item : Reader A} (progress : MakesProgress item) (text : List Char) :
    item (many item text).2 = none ∨ (many item text).2 = [] := by
  have general : ∀ (limit : Nat) (text : List Char), text.length ≤ limit →
      item (repeated item limit text).2 = none ∨ (repeated item limit text).2 = [] := by
    intro limit
    induction limit with
    | zero =>
        intro text short
        exact Or.inr (List.length_eq_zero_iff.mp (Nat.le_zero.mp short))
    | succ limit inductionHypothesis =>
        intro text short
        cases found : item text with
        | none => exact Or.inl (by simp [repeated, found])
        | some result =>
            have shorter : result.2.length < text.length := progress text result.1 result.2 found
            have next := inductionHypothesis result.2 (by omega)
            simpa [repeated, found] using next
  exact general text.length text (Nat.le_refl _)

end Reader

end LiveMarkup
