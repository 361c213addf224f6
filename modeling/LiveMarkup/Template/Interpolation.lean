import LiveMarkup.Template.Span

/-
This file decomposes a text into spans and the characters between them. A span starts as far left as
possible. One pass from the end of the text finds all spans, so that no place is looked at twice.
-/

namespace LiveMarkup.Interpolation

/-- A text is a sequence of characters that stay and of expressions that are replaced. -/
inductive Segment where
  | literal (c : Char)
  | expression (source : List Char)
deriving DecidableEq, Repr

namespace Segment

def isExpression : Segment → Bool
  | .expression _ => true
  | .literal _ => false

end Segment

/-- An expression comes with the segments of the text after its span. -/
abbrev Found := List Char × List Segment

/-- From a place of a text one sees the segments of the rest, and what could start here: closing
braces, an expression, an expression after blanks, or one of these after a brace. -/
structure Outlook where
  segments : List Segment := []
  afterBrace : Option (List Segment) := none
  closing : Option (List Segment) := none
  capture : Option Found := none
  body : Option Found := none
  opened : Option Found := none

namespace Outlook

def closingAt (c : Char) (next : Outlook) : Option (List Segment) :=
  if Text.isBlank c then next.closing
  else if c = '}' then next.afterBrace
  else none

def captureAt (c : Char) (next : Outlook) : Option Found :=
  if c = '\n' then none
  else match next.closing with
    | some after => some ([c], after)
    | none => next.capture.map fun found => (c :: found.1, found.2)

def bodyAt (c : Char) (next : Outlook) : Option Found :=
  if Text.isBlank c then next.body.orElse fun _ => captureAt c next else captureAt c next

def segmentsAt (c : Char) (next : Outlook) : List Segment :=
  match if c = '{' then next.opened else none with
  | some found => .expression found.1 :: found.2
  | none => .literal c :: next.segments

/-- This function takes one step to the left, over the character that stands there. -/
def extend (c : Char) (next : Outlook) : Outlook where
  segments := segmentsAt c next
  afterBrace := if c = '}' then some next.segments else none
  closing := closingAt c next
  capture := captureAt c next
  body := bodyAt c next
  opened := if c = '{' then next.body else none

def ofText (text : List Char) : Outlook := text.foldr extend {}

end Outlook

/-- This function decomposes a text. -/
def segments (text : List Char) : List Segment := (Outlook.ofText text).segments

def hasSpan (text : String) : Bool := (segments text.toList).any Segment.isExpression

/-- A span is found with the segments after it. -/
def found (span : List Char × List Char) : Found := (span.1, segments span.2)

namespace Outlook

theorem ofText_cons (c : Char) (rest : List Char) :
    ofText (c :: rest) = extend c (ofText rest) := rfl

theorem afterBrace_ofText (text : List Char) :
    (ofText text).afterBrace =
      if text.head? = some '}' then some (Interpolation.segments text.tail) else none := by
  cases text with
  | nil => rfl
  | cons c rest => simp [ofText_cons, extend, Interpolation.segments]

theorem closing_ofText (text : List Char) :
    (ofText text).closing = (Interpolation.closing text).map Interpolation.segments := by
  induction text with
  | nil => rfl
  | cons c rest inductionHypothesis =>
      rw [closing_cons, ofText_cons]
      simp only [extend, closingAt, afterBrace_ofText, inductionHypothesis]
      repeat' split
      all_goals rfl

theorem capture_ofText (text : List Char) :
    (ofText text).capture = (Interpolation.capture text).map found := by
  induction text with
  | nil => rfl
  | cons c rest inductionHypothesis =>
      rw [ofText_cons]
      simp only [extend, captureAt, Interpolation.capture, closing_ofText, inductionHypothesis]
      by_cases feed : c = '\n'
      · simp [feed]
      · cases Interpolation.closing rest with
        | some ending => simp [feed, found]
        | none => cases Interpolation.capture rest <;> simp [feed, found]

theorem body_ofText (text : List Char) :
    (ofText text).body = (Interpolation.body text).map found := by
  induction text with
  | nil => rfl
  | cons c rest inductionHypothesis =>
      have here : captureAt c (ofText rest) = (Interpolation.capture (c :: rest)).map found :=
        capture_ofText (c :: rest)
      rw [ofText_cons]
      simp only [extend, bodyAt, Interpolation.body, here, inductionHypothesis]
      by_cases blank : Text.isBlank c = true
      · cases Interpolation.body rest <;> simp [blank]
      · simp [blank]

theorem opened_ofText (text : List Char) :
    (ofText text).opened =
      if text.head? = some '{' then (Interpolation.body text.tail).map found else none := by
  cases text with
  | nil => rfl
  | cons c rest => simp [ofText_cons, extend, body_ofText]

end Outlook

@[simp] theorem segments_nil : segments [] = [] := rfl

/-- The first segment is a span if the text starts with one, and else its first character. -/
theorem segments_cons (c : Char) (rest : List Char) :
    segments (c :: rest) =
      match span? (c :: rest) with
      | some (source, ending) => .expression source :: segments ending
      | none => .literal c :: segments rest := by
  have step : segments (c :: rest) = Outlook.segmentsAt c (Outlook.ofText rest) := rfl
  rw [step, span?_cons]
  simp only [Outlook.segmentsAt, Outlook.opened_ofText]
  by_cases brace : c = '{'
  · by_cases second : rest.head? = some '{'
    · cases body rest.tail <;> simp [brace, second, found, segments]
    · simp [brace, second, segments]
  · simp [brace, segments]

end LiveMarkup.Interpolation
