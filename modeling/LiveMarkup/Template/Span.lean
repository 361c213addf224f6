import LiveMarkup.Text.Blank

/-
This file says which texts between double braces are spans. A span drops the blanks before its
expression, and ends at the first closing braces after it.
-/

namespace LiveMarkup.Interpolation

/-- Blanks may stand before the closing braces. -/
def closing (text : List Char) : Option (List Char) :=
  match text.dropWhile Text.isBlank with
  | '}' :: '}' :: rest => some rest
  | _ => none

/-- An expression has at least one character and no line feed, and is as short as possible. -/
def capture : List Char → Option (List Char × List Char)
  | [] => none
  | c :: rest =>
      if c = '\n' then none
      else match closing rest with
        | some ending => some ([c], ending)
        | none => (capture rest).map fun (source, ending) => (c :: source, ending)

/-- As many blanks as possible are dropped, and fewer if no expression follows otherwise. -/
def body : List Char → Option (List Char × List Char)
  | [] => none
  | c :: rest =>
      if Text.isBlank c then (body rest).orElse fun _ => capture (c :: rest)
      else capture (c :: rest)

/-- This function reads a span at the front of a text. -/
def span? (text : List Char) : Option (List Char × List Char) :=
  match text with
  | '{' :: '{' :: rest => body rest
  | _ => none

theorem closing_cons (c : Char) (rest : List Char) :
    closing (c :: rest) =
      if Text.isBlank c then closing rest
      else if c = '}' then (if rest.head? = some '}' then some rest.tail else none)
      else none := by
  unfold closing
  by_cases blank : Text.isBlank c = true
  · simp [blank]
  · by_cases brace : c = '}'
    · subst brace
      cases rest with
      | nil => simp [blank]
      | cons next rest =>
          by_cases second : next = '}'
          · subst second
            simp [blank]
          · simp [blank, second]
    · simp [blank, brace]

theorem span?_cons (c : Char) (rest : List Char) :
    span? (c :: rest) =
      if c = '{' ∧ rest.head? = some '{' then body rest.tail else none := by
  unfold span?
  by_cases brace : c = '{'
  · subst brace
    cases rest with
    | nil => simp
    | cons next rest =>
        by_cases second : next = '{'
        · subst second
          simp
        · simp [second]
  · simp [brace]

end LiveMarkup.Interpolation
