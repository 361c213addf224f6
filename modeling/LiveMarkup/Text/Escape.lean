/-
This file reads the escapes of string literals.
-/

namespace LiveMarkup.Text

/-- A letter after a backslash stands for a character. An unknown one keeps its backslash. -/
def escaped : Char → List Char
  | 'n' => ['\n']
  | 't' => ['\t']
  | 'r' => ['\r']
  | '\\' => ['\\']
  | '"' => ['"']
  | '\'' => ['\'']
  | other => ['\\', other]

/-- This function reads the characters of a literal in pairs. A backslash at the end stays. -/
def unescape : List Char → List Char
  | '\\' :: c :: rest => escaped c ++ unescape rest
  | c :: rest => c :: unescape rest
  | [] => []

theorem unescape_of_not_mem {text : List Char} (plain : '\\' ∉ text) : unescape text = text := by
  induction text with
  | nil => rfl
  | cons c rest inductionHypothesis =>
      have first : c ≠ '\\' := fun equal => plain (equal ▸ List.mem_cons_self)
      have later : '\\' ∉ rest := fun member => plain (List.mem_cons_of_mem c member)
      rw [unescape, inductionHypothesis later]
      intro c' rest' h
      exact absurd (by cases h; rfl) first

end LiveMarkup.Text
