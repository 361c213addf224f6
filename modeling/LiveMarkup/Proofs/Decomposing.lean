import LiveMarkup.Proofs.Spans
import LiveMarkup.World.States

/-
This file shows that a text has one decomposition into spans and the gaps between them, and that
an interpolation copies the gaps and puts the value of each expression in the place of its span.
-/

namespace LiveMarkup.Interpolation

/-- A text is gaps with a span after each of them, and an ending. -/
@[ext]
structure Decomposition where
  pieces : List (List Char × Span)
  ending : List Char

namespace Decomposition

def spans (decomposition : Decomposition) : List Span := decomposition.pieces.map Prod.snd

def gaps (decomposition : Decomposition) : List (List Char) :=
  decomposition.pieces.map Prod.fst ++ [decomposition.ending]

/-- This function keeps the gaps and writes a text for each span, without a look at what it writes. -/
def fill (decomposition : Decomposition) (texts : List (List Char)) : List Char :=
  (List.zipWith (fun piece text => piece.1 ++ text) decomposition.pieces texts).flatten ++
    decomposition.ending

/-- No span starts inside of a gap when `rest` comes after it. -/
def Gap (gap rest : List Char) : Prop :=
  ∀ before c after, gap = before ++ c :: after → ∀ span : Span, ¬ span.text <+: c :: (after ++ rest)

/-- Each span starts as far left as possible after the span before it, and is the preferred one there.
The decomposition is over where no span starts any more. -/
inductive Leftmost (ending : List Char) : List (List Char × Span) → List Char → Prop where
  | last (gap : Gap ending []) : Leftmost ending [] ending
  | next {gap : List Char} {span : Span} {pieces : List (List Char × Span)} {rest : List Char}
      (isGap : Gap gap (span.text ++ rest)) (preferred : span.Preferred (span.text ++ rest))
      (later : Leftmost ending pieces rest) :
      Leftmost ending ((gap, span) :: pieces) (gap ++ (span.text ++ rest))

def Of (decomposition : Decomposition) (text : List Char) : Prop :=
  Leftmost decomposition.ending decomposition.pieces text

theorem Gap.nil (rest : List Char) : Gap [] rest := by
  intro before c after same
  simp at same

theorem Gap.cons {c : Char} {gap rest : List Char} (isGap : Gap gap rest)
    (nothing : ∀ span : Span, ¬ span.text <+: c :: (gap ++ rest)) : Gap (c :: gap) rest := by
  intro before first after same
  cases before with
  | nil =>
      obtain ⟨rfl, rfl⟩ := List.cons.inj same
      exact nothing
  | cons _ before => exact isGap before first after (List.cons.inj same).2

/-- A span inside of a gap would start there. -/
theorem Gap.not_infix {gap rest : List Char} (isGap : Gap gap rest) (span : Span) :
    ¬ span.text <:+: gap := by
  rintro ⟨before, after, whole⟩
  obtain ⟨c, more, starts⟩ : ∃ c more, span.text = c :: more := ⟨_, _, rfl⟩
  refine isGap before c (more ++ after) ?_ span ⟨after ++ rest, ?_⟩
  · rw [← whole, starts]
    simp
  · rw [starts]
    simp

/-- A span cannot start before the end of a gap. -/
theorem Gap.length_le {gap rest before : List Char} {span : Span} {ending : List Char}
    (isGap : Gap gap rest) (whole : gap ++ rest = before ++ (span.text ++ ending)) :
    gap.length ≤ before.length := by
  refine Nat.le_of_not_lt fun longer => ?_
  obtain ⟨after, same⟩ : before <+: gap :=
    List.prefix_of_prefix_length_le ⟨_, whole.symm⟩ (List.prefix_append gap rest) (by omega)
  cases after with
  | nil =>
      rw [List.append_nil] at same
      exact absurd (congrArg List.length same) (Nat.ne_of_lt longer)
  | cons c after =>
      refine isGap before c after same.symm span ⟨ending, ?_⟩
      rw [← same, List.append_assoc] at whole
      exact (List.append_cancel_left whole).symm

theorem Leftmost.text_eq {ending text : List Char} {pieces : List (List Char × Span)}
    (leftmost : Leftmost ending pieces text) :
    fill ⟨pieces, ending⟩ ((spans ⟨pieces, ending⟩).map Span.text) = text := by
  induction leftmost with
  | last => rfl
  | next _ _ _ inductionHypothesis =>
      rw [← inductionHypothesis]
      simp [fill, spans]

theorem Leftmost.gaps_free {ending text : List Char} {pieces : List (List Char × Span)}
    (leftmost : Leftmost ending pieces text) :
    ∀ gap ∈ gaps ⟨pieces, ending⟩, ∀ span : Span, ¬ span.text <:+: gap := by
  induction leftmost with
  | last isGap =>
      intro gap member
      obtain rfl := List.mem_singleton.mp member
      exact isGap.not_infix
  | next isGap _ _ inductionHypothesis =>
      intro gap member
      rcases List.mem_cons.mp member with rfl | later
      · exact isGap.not_infix
      · exact inductionHypothesis gap later

/-- The places of the spans leave no choice. -/
theorem Leftmost.unique {ending text : List Char} {pieces : List (List Char × Span)}
    (leftmost : Leftmost ending pieces text) {other : List Char} {others : List (List Char × Span)}
    (also : Leftmost other others text) : pieces = others ∧ ending = other := by
  induction leftmost generalizing others with
  | last isGap =>
      generalize same : ending = whole at also
      cases also with
      | last => exact ⟨rfl, rfl⟩
      | @next gap span _ rest =>
          exact absurd ⟨gap, rest, by rw [same, List.append_assoc]⟩ (isGap.not_infix span)
  | next isGap preferred later inductionHypothesis =>
      rename_i gap span pieces rest
      generalize same : gap ++ (span.text ++ rest) = whole at also
      cases also with
      | last noSpan => exact absurd ⟨gap, rest, by rw [← same, List.append_assoc]⟩ (noSpan.not_infix span)
      | next noSpan alsoPreferred alsoLater =>
          have shorter := isGap.length_le same
          have longer := noSpan.length_le same.symm
          obtain ⟨rfl, tails⟩ := List.append_inj same (by omega)
          rw [← tails] at alsoPreferred
          obtain ⟨rfl, rfl⟩ := preferred.unique alsoPreferred rfl tails
          obtain ⟨rfl, rfl⟩ := inductionHypothesis alsoLater
          exact ⟨rfl, rfl⟩

/-- The pass over a text finds the spans where the decomposition has them. -/
def segments (decomposition : Decomposition) : List Segment :=
  decomposition.pieces.flatMap (fun piece =>
    piece.1.map Segment.literal ++ [Segment.expression piece.2.source]) ++
    decomposition.ending.map Segment.literal

theorem any_segments (decomposition : Decomposition) :
    decomposition.segments.any Segment.isExpression = true ↔ 0 < decomposition.spans.length := by
  obtain ⟨pieces, ending⟩ := decomposition
  cases pieces <;> simp [segments, spans, Segment.isExpression]

/-- A character in front of a decomposition goes into the first gap. -/
theorem exists_cons {c : Char} {text : List Char} {decomposition : Decomposition}
    (nothing : ∀ span : Span, ¬ span.text <+: c :: text) (found : decomposition.Of text) :
    ∃ longer : Decomposition, longer.Of (c :: text) ∧
      longer.segments = .literal c :: decomposition.segments := by
  obtain ⟨pieces, ending⟩ := decomposition
  dsimp only [Of] at found
  cases found with
  | last isGap =>
      have longer : Gap (c :: text) [] := isGap.cons (by simpa using nothing)
      exact ⟨⟨[], c :: text⟩, .last longer, rfl⟩
  | @next gap span pieces rest isGap preferred later =>
      exact ⟨⟨(c :: gap, span) :: pieces, ending⟩, .next (isGap.cons nothing) preferred later, rfl⟩

theorem exists_of (text : List Char) : ∃ decomposition : Decomposition, decomposition.Of text ∧
    Interpolation.segments text = decomposition.segments := by
  match text with
  | [] => exact ⟨⟨[], []⟩, .last (Gap.nil []), rfl⟩
  | c :: rest =>
      rw [segments_cons]
      cases taken : span? (c :: rest) with
      | none =>
          obtain ⟨decomposition, found, same⟩ := exists_of rest
          obtain ⟨longer, isLonger, segments⟩ := exists_cons (not_starts_of_span? taken) found
          exact ⟨longer, isLonger, by rw [segments, ← same]⟩
      | some result =>
          obtain ⟨source, ending⟩ := result
          obtain ⟨span, preferred, rfl, whole⟩ := preferred_of_span? taken
          obtain ⟨⟨pieces, last⟩, found, same⟩ := exists_of ending
          rw [whole] at preferred ⊢
          exact ⟨⟨([], span) :: pieces, last⟩, .next (Gap.nil _) preferred found,
            congrArg (Segment.expression span.source :: ·) same⟩
termination_by text.length
decreasing_by
  · simp
  · rw [whole]
    simp only [Span.text, List.length_append, List.length_cons]
    omega

/-- What decomposes a text as it should is what the pass over the text finds. -/
theorem Of.segments_eq {decomposition : Decomposition} {text : List Char} (found : decomposition.Of text) :
    Interpolation.segments text = decomposition.segments := by
  obtain ⟨other, also, same⟩ := exists_of text
  obtain ⟨pieces, ending⟩ := found.unique also
  rw [same, Decomposition.ext pieces ending]

end Decomposition

end LiveMarkup.Interpolation

namespace LiveMarkup.Live

open Interpolation

theorem interpolateSegments_append (run : Runner) (state : TargetId) (gap : List Char)
    (rest : List Segment) : interpolateSegments run state (gap.map Segment.literal ++ rest) =
      (gap ++ ·) <$> interpolateSegments run state rest := by
  induction gap with
  | nil => exact (id_map _).symm
  | cons c gap inductionHypothesis =>
      rw [List.map_cons, List.cons_append, interpolateSegments, inductionHypothesis]
      simp

/-- The values of the expressions are written where the spans are. -/
theorem interpolateSegments_segments (run : Runner) (state : TargetId) (decomposition : Decomposition) :
    interpolateSegments run state decomposition.segments = (do
      let shown ← decomposition.spans.mapM fun span => evaluateText run state (String.ofList span.source)
      pure (decomposition.fill (shown.map String.toList))) := by
  obtain ⟨pieces, ending⟩ := decomposition
  induction pieces with
  | nil =>
      have only := interpolateSegments_append run state ending []
      simp only [List.append_nil] at only
      simpa [Decomposition.segments, Decomposition.spans, Decomposition.fill, interpolateSegments] using only
  | cons piece pieces inductionHypothesis =>
      obtain ⟨gap, span⟩ := piece
      have split : Decomposition.segments ⟨(gap, span) :: pieces, ending⟩ =
          gap.map Segment.literal ++ (.expression span.source :: Decomposition.segments ⟨pieces, ending⟩) := by
        simp [Decomposition.segments]
      rw [split, interpolateSegments_append, interpolateSegments, inductionHypothesis]
      simp [Decomposition.spans, Decomposition.fill]

theorem interpolate_of {decomposition : Decomposition} {text : String} (found : decomposition.Of text.toList)
    (run : Runner) (state : TargetId) : interpolate run state text = (do
      let shown ← decomposition.spans.mapM fun span => evaluateText run state (String.ofList span.source)
      pure (String.ofList (decomposition.fill (shown.map String.toList)))) := by
  rw [interpolate, found.segments_eq, interpolateSegments_segments]
  simp

/-- A text has one decomposition. The gaps of it contain no span and stay as they are, and the spans
are replaced by what their expressions show, each of which is evaluated once, in order. -/
theorem interpolate_eq_fill (text : String) :
    ∃ decomposition : Decomposition, decomposition.Of text.toList ∧
      (∀ other : Decomposition, other.Of text.toList → other = decomposition) ∧
      decomposition.fill (decomposition.spans.map Span.text) = text.toList ∧
      (∀ gap ∈ decomposition.gaps, ∀ span : Span, ¬ span.text <:+: gap) ∧
      (hasSpan text = true ↔ 0 < decomposition.spans.length) ∧
      ∀ (run : Runner) (state : TargetId), interpolate run state text = (do
        let shown ← decomposition.spans.mapM fun span =>
          evaluateText run state (String.ofList span.source)
        pure (String.ofList (decomposition.fill (shown.map String.toList)))) := by
  obtain ⟨decomposition, found, same⟩ := Decomposition.exists_of text.toList
  refine ⟨decomposition, found, ?_, found.text_eq, found.gaps_free, ?_, interpolate_of found⟩
  · intro other also
    obtain ⟨pieces, ending⟩ := also.unique found
    exact Decomposition.ext pieces ending
  · rw [hasSpan, same, decomposition.any_segments]

end LiveMarkup.Live
