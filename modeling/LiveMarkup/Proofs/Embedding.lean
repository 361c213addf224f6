import LiveMarkup.Proofs.Delimiting
import LiveMarkup.Proofs.Unseen
import Mathlib.Data.List.Basic

/-
This file shows that expressions work as interpolations, among literal texts, as long as each of them stands on
one line. An expression that is broken into lines is no span, although the parser of expressions accepts it.
-/

namespace LiveMarkup

namespace Interpolation

/-- A literal text contains no opening braces and does not end in one. -/
def IsLiteral (text : List Char) : Prop := ¬ ['{', '{'] <:+: text ∧ text.getLast? ≠ some '{'

instance (text : List Char) : Decidable (IsLiteral text) := inferInstanceAs (Decidable (_ ∧ _))

/-- A source can stand between braces if it is accepted and contains no closing braces. -/
structure Embeds (source : String) : Prop where
  accepted : ∃ expr, Expr.parse source = .ok expr
  closed : ¬ ['}', '}'] <:+: source.toList

/-- An expression is on one line if no line feed is in it. Around it there may be some. -/
def OneLine (source : String) : Prop := '\n' ∉ Text.trim source.toList

instance (source : String) : Decidable (OneLine source) := inferInstanceAs (Decidable (_ ∉ _))

theorem Embeds.of_decided {source : String} (accepted : (Expr.parse source).toOption.isSome = true)
    (closed : ¬ ['}', '}'] <:+: source.toList) : Embeds source := by
  refine ⟨?_, closed⟩
  cases parsed : Expr.parse source with
  | ok expr => exact ⟨expr, rfl⟩
  | error error =>
      rw [parsed] at accepted
      cases accepted

def embed (source : String) : List Char := '{' :: '{' :: (source.toList ++ ['}', '}'])

/-- Each source stands between braces after its literal text. -/
def embedAll (pieces : List (List Char × String)) (ending : List Char) : List Char :=
  pieces.flatMap (fun piece => piece.1 ++ embed piece.2) ++ ending

/-- The values stand where the sources are. -/
def showAll (pieces : List (List Char × String)) (values : List String) (ending : List Char) : List Char :=
  (List.zipWith (fun piece value => piece.1 ++ value.toList) pieces values).flatten ++ ending

namespace Decomposition

/-- A span does not start inside of a literal text, whatever comes after it. -/
theorem gap_of_isLiteral {text : List Char} (isLiteral : IsLiteral text) (rest : List Char) : Gap text rest := by
  rintro before c after rfl span ⟨ending, starts⟩
  rw [Span.text_append] at starts
  obtain ⟨rfl, second⟩ := List.cons.inj starts
  cases after with
  | nil => exact isLiteral.2 (by simp)
  | cons next after =>
      obtain rfl := (List.cons.inj second).1
      exact isLiteral.1 ⟨before, after, by simp⟩

theorem Gap.append {first second rest : List Char} (before : Gap first (second ++ rest))
    (after : Gap second rest) : Gap (first ++ second) rest := by
  induction first with
  | nil => exact after
  | cons c first inductionHypothesis =>
      refine Gap.cons (inductionHypothesis ?_) ?_
      · intro front next back same
        exact before (c :: front) next back (congrArg (c :: ·) same)
      · have start := before [] c first rfl
        rwa [← List.append_assoc] at start

theorem gap_of_ne {c : Char} {gap rest : List Char} (other : c ≠ '{') (isGap : Gap gap rest) :
    Gap (c :: gap) rest := by
  refine isGap.cons ?_
  rintro span ⟨ending, starts⟩
  rw [Span.text_append] at starts
  exact other (List.cons.inj starts).1.symm

end Decomposition

namespace Embeds

variable {source : String}

/-- A source is a solid text with blanks around it. -/
theorem trimmed (embeds : Embeds source) : Text.IsSolid (Text.trim source.toList) ∧
    ∃ before after, (∀ c ∈ before, Text.isBlank c = true) ∧ (∀ c ∈ after, Text.isBlank c = true) ∧
      source.toList = before ++ (Text.trim source.toList ++ after) := by
  obtain ⟨expr, accepted⟩ := embeds.accepted
  obtain ⟨renders, around⟩ := ((Expr.parse_eq_ok_iff_written source expr).mp accepted).trimmed
  exact ⟨Expr.isSolid_of_renders renders, around⟩

/-- An expression on one line is a span, and the whole of it is what is captured. -/
theorem exists_span (embeds : Embeds source) (oneLine : OneLine source) :
    ∃ span : Span, span.source = Text.trim source.toList ∧ span.text = embed source ∧
      ∀ rest, span.Preferred (span.text ++ rest) := by
  obtain ⟨solid, before, after, leading, trailing, whole⟩ := embeds.trimmed
  have closed := embeds.closed
  unfold OneLine at oneLine
  unfold embed
  generalize Text.trim source.toList = text at solid oneLine whole ⊢
  refine ⟨⟨before, text, after, leading, trailing, solid.present, oneLine⟩, rfl, ?_, ?_⟩
  · rw [whole]
    simp [Span.text]
  · refine Span.preferred_of_isSolid solid fun inside => closed (inside.trans ⟨before, after, ?_⟩)
    rw [whole, List.append_assoc]

/-- A source is like a literal text if it contains no opening braces. -/
theorem isLiteral (embeds : Embeds source) (free : ¬ ['{', '{'] <:+: source.toList) :
    IsLiteral source.toList := by
  obtain ⟨solid, before, after, -, trailing, whole⟩ := embeds.trimmed
  refine ⟨free, fun ended => ?_⟩
  rw [whole, List.getLast?_append_of_ne_nil _ (by simp [solid.present])] at ended
  cases after with
  | nil =>
      rw [List.append_nil] at ended
      exact (solid.last '{' ended).2.1 rfl
  | cons c after =>
      rw [List.getLast?_append_of_ne_nil _ (List.cons_ne_nil c after)] at ended
      exact absurd (trailing '{' (List.mem_of_getLast? ended)) (by decide)

/-- No span starts with a source that is broken into lines. -/
theorem not_starts_of_broken (embeds : Embeds source) (broken : ¬ OneLine source) (span : Span) :
    ¬ span.text <+: embed source := by
  rintro ⟨ending, starts⟩
  obtain ⟨solid, before, after, -, -, whole⟩ := embeds.trimmed
  have closed := embeds.closed
  unfold OneLine at broken
  unfold embed at starts
  generalize Text.trim source.toList = text at solid broken whole
  rw [Span.text_append] at starts
  have inner := (List.cons.inj (List.cons.inj starts).2).2
  rw [whole, List.append_assoc, List.append_assoc] at inner
  obtain ⟨more, rfl, behind⟩ := exists_of_leading solid span.blank_leading inner
  -- The line feed would be part of what is captured.
  have longer : (more ++ text).length ≤ span.source.length := by
    refine length_le_of_closed ?_ ?_ span.blank_trailing (behind.trans (List.append_assoc more text _).symm)
    · rw [List.getLast?_append_of_ne_nil _ solid.present]
      exact fun c member => ⟨(solid.last c member).1, (solid.last c member).2.2⟩
    · intro inside
      refine closed (inside.trans ⟨span.leading, after, ?_⟩)
      rw [whole]
      simp
  have captured : more ++ text <+: span.source :=
    List.prefix_of_prefix_length_le ⟨_, by rw [List.append_assoc]; exact behind.symm⟩
      (List.prefix_append span.source _) longer
  exact broken fun feed => span.single (captured.subset (List.mem_append_right more feed))

/-- A source that is broken into lines stays as it is between its braces, if it contains no opening braces. -/
theorem gap_of_broken (embeds : Embeds source) (broken : ¬ OneLine source)
    (free : ¬ ['{', '{'] <:+: source.toList) : Decomposition.Gap (embed source) [] := by
  have braces : Decomposition.Gap ['}', '}'] [] :=
    Decomposition.gap_of_ne (by decide) (Decomposition.gap_of_ne (by decide) (.nil []))
  have inner : Decomposition.Gap (source.toList ++ ['}', '}']) [] :=
    (Decomposition.gap_of_isLiteral (embeds.isLiteral free) _).append braces
  obtain ⟨solid, before, after, leading, -, whole⟩ := embeds.trimmed
  refine (inner.cons ?_).cons (by simpa [embed] using embeds.not_starts_of_broken broken)
  rintro span ⟨ending, starts⟩
  rw [Span.text_append, List.append_nil, whole, List.append_assoc] at starts
  have second := (List.cons.inj starts).2
  cases before with
  | nil =>
      obtain ⟨first, tail, same⟩ := List.exists_cons_of_ne_nil solid.present
      have other := (solid.first first (by rw [same]; rfl)).2
      rw [same] at second
      exact other (List.cons.inj second).1.symm
  | cons c before =>
      obtain rfl : '{' = c := (List.cons.inj second).1
      exact absurd (leading '{' List.mem_cons_self) (by decide)

end Embeds

/-- The expressions of a text are its spans, and the literal texts are the gaps between them. -/
theorem exists_decomposition {pieces : List (List Char × String)} {ending : List Char}
    (each : ∀ piece ∈ pieces, IsLiteral piece.1 ∧ Embeds piece.2 ∧ OneLine piece.2) (last : IsLiteral ending) :
    ∃ decomposition : Decomposition, decomposition.Of (embedAll pieces ending) ∧
      decomposition.ending = ending ∧ decomposition.pieces.map Prod.fst = pieces.map Prod.fst ∧
      decomposition.spans.map Span.source = pieces.map fun piece => Text.trim piece.2.toList := by
  induction pieces with
  | nil => exact ⟨⟨[], ending⟩, .last (Decomposition.gap_of_isLiteral last []), rfl, rfl, rfl⟩
  | cons piece pieces inductionHypothesis =>
      obtain ⟨decomposition, found, same, gaps, sources⟩ :=
        inductionHypothesis fun other member => each other (List.mem_cons_of_mem piece member)
      obtain ⟨literal, embeds, oneLine⟩ := each piece List.mem_cons_self
      obtain ⟨span, source, text, preferred⟩ := embeds.exists_span oneLine
      have whole : embedAll (piece :: pieces) ending = piece.1 ++ (span.text ++ embedAll pieces ending) := by
        simp [embedAll, text]
      refine ⟨⟨(piece.1, span) :: decomposition.pieces, decomposition.ending⟩, ?_, same, ?_, ?_⟩
      · rw [whole]
        exact .next (Decomposition.gap_of_isLiteral literal _) (preferred _) found
      · simp [gaps]
      · rw [List.map_cons, ← sources, ← source]
        rfl

/-- The values are written where the spans are that the expressions make. -/
theorem fill_eq_showAll {decomposition : Decomposition} {pieces : List (List Char × String)}
    (gaps : decomposition.pieces.map Prod.fst = pieces.map Prod.fst) (values : List String) :
    decomposition.fill (values.map String.toList) = showAll pieces values decomposition.ending := by
  have filled : ∀ {B : Type} (entries : List (List Char × B)),
      List.zipWith (fun entry value => entry.1 ++ String.toList value) entries values =
        List.zipWith (fun gap value => gap ++ String.toList value) (entries.map Prod.fst) values := by
    intro B entries
    rw [List.zipWith_map_left]
  rw [Decomposition.fill, showAll, List.zipWith_map_right, filled, filled, gaps]

end Interpolation

open Live Interpolation

/-- To interpolate embedded expressions is to evaluate them in order. -/
theorem interpolate_agrees (depth : Nat) (state : TargetId) {pieces : List (List Char × String)}
    {ending : List Char} (each : ∀ piece ∈ pieces, IsLiteral piece.1 ∧ Embeds piece.2 ∧ OneLine piece.2)
    (last : IsLiteral ending) :
    Agree (interpolate (runTo depth) state (String.ofList (embedAll pieces ending))) (do
      let values ← pieces.mapM fun piece => evaluateText (runTo depth) state piece.2
      pure (String.ofList (showAll pieces values ending))) := by
  obtain ⟨decomposition, found, rfl, gaps, sources⟩ := exists_decomposition each last
  have evaluated : (decomposition.spans.mapM fun span =>
      evaluateText (runTo depth) state (String.ofList span.source)) =
        pieces.mapM fun piece => evaluateText (runTo depth) state
          (String.ofList (Text.trim piece.2.toList)) := by
    have both := congrArg (List.mapM fun source => evaluateText (runTo depth) state (String.ofList source)) sources
    rwa [List.mapM_map, List.mapM_map] at both
  rw [interpolate_of (by rwa [String.toList_ofList]), evaluated]
  refine (Agree.mapM fun piece member => ?_).bind fun values => ?_
  · obtain ⟨expr, accepted⟩ := (each piece member).2.1.accepted
    exact (isBlind_runTo depth).evaluateText_agree state ((Expr.parse_trim accepted).trans accepted.symm)
  · rw [fill_eq_showAll gaps]
    exact Blind.pure _

/-- Expressions that stand on one line work as interpolations, one by one and among literal texts: these stay as
they are, and each expression is replaced by what its evaluation gives. A single expression that is broken into
lines is not evaluated, and its text stays as it is. -/
theorem embedded_expressions_evaluated (depth : Nat) (state : TargetId) :
    (∀ (pieces : List (List Char × String)) (ending : List Char),
      (∀ piece ∈ pieces, IsLiteral piece.1 ∧ Embeds piece.2 ∧ OneLine piece.2) → IsLiteral ending →
      Agree (interpolate (runTo depth) state (String.ofList (embedAll pieces ending))) (do
        let values ← pieces.mapM fun piece => evaluateText (runTo depth) state piece.2
        pure (String.ofList (showAll pieces values ending)))) ∧
    (∀ source : String, Embeds source → OneLine source →
      Agree (interpolate (runTo depth) state (String.ofList (embed source)))
        (evaluateText (runTo depth) state source)) ∧
    ∀ source : String, Embeds source → ¬ OneLine source → ¬ ['{', '{'] <:+: source.toList →
      interpolate (runTo depth) state (String.ofList (embed source)) = pure (String.ofList (embed source)) := by
  have nothing : IsLiteral [] := ⟨by simp, by simp⟩
  refine ⟨fun pieces ending => interpolate_agrees depth state, ?_, ?_⟩
  · intro source embeds oneLine
    have each : ∀ piece ∈ [(([] : List Char), source)], IsLiteral piece.1 ∧ Embeds piece.2 ∧ OneLine piece.2 := by
      simpa using ⟨nothing, embeds, oneLine⟩
    simpa [embedAll, showAll] using interpolate_agrees depth state each nothing
  · intro source embeds broken free
    have decomposed : Decomposition.Of ⟨[], embed source⟩ (String.ofList (embed source)).toList := by
      rw [String.toList_ofList]
      exact .last (embeds.gap_of_broken broken free)
    rw [interpolate_of decomposed]
    simp [Decomposition.spans, Decomposition.fill]

/-- A sum is evaluated in its sentence and on its own, with blanks of all kinds around and in it, and stays as it
is when it is broken into lines. -/
theorem evaluates_embedded_sum :
    let pieces := [("sum: ".toList, "\n a +\tb "), (" of ".toList, "\"\x7b\x7b\" + b")]
    (∀ piece ∈ pieces, IsLiteral piece.1 ∧ Embeds piece.2 ∧ OneLine piece.2) ∧ IsLiteral "!".toList ∧
      Agree (interpolate (runTo 1) 0 (String.ofList (embedAll pieces "!".toList))) (do
        let values ← pieces.mapM fun piece => evaluateText (runTo 1) 0 piece.2
        pure (String.ofList (showAll pieces values "!".toList))) ∧
      Agree (interpolate (runTo 1) 0 (String.ofList (embed "\n a +\tb ")))
        (evaluateText (runTo 1) 0 "\n a +\tb ") ∧
      Embeds "a +\n b" ∧ ¬ OneLine "a +\n b" ∧ ¬ ['{', '{'] <:+: "a +\n b".toList ∧
      interpolate (runTo 1) 0 (String.ofList (embed "a +\n b")) = pure (String.ofList (embed "a +\n b")) := by
  intro pieces
  obtain ⟨several, single, broken⟩ := embedded_expressions_evaluated 1 0
  have sum : Embeds "\n a +\tb " := .of_decided (by decide +kernel) (by decide +kernel)
  have item : Embeds "\"\x7b\x7b\" + b" := .of_decided (by decide +kernel) (by decide +kernel)
  have lines : Embeds "a +\n b" := .of_decided (by decide +kernel) (by decide +kernel)
  have oneLine : OneLine "\n a +\tb " := by decide +kernel
  have each : ∀ piece ∈ pieces, IsLiteral piece.1 ∧ Embeds piece.2 ∧ OneLine piece.2 := by
    intro piece member
    rcases List.mem_cons.mp member with rfl | later
    · exact ⟨by decide +kernel, sum, oneLine⟩
    · obtain rfl := List.mem_singleton.mp later
      exact ⟨by decide +kernel, item, by decide +kernel⟩
  have last : IsLiteral "!".toList := by decide +kernel
  have feeds : ¬ OneLine "a +\n b" := by decide +kernel
  have free : ¬ ['{', '{'] <:+: "a +\n b".toList := by decide +kernel
  exact ⟨each, last, several pieces _ each last, single _ sum oneLine, lines, feeds, free,
    broken _ lines feeds free⟩

/-- This function gives what code returns, if it does. -/
def Live.returned? {A : Type} (action : Live A) (world : World) : Option A :=
  match action world with
  | .ok value _ => some value
  | .error _ _ => none

theorem Live.Agree.returned?_eq {A : Type} {first second : Live A} (agree : Agree first second) (world : World) :
    returned? first world = returned? second world := by
  have ends := agree world world (.refl world)
  unfold returned?
  generalize first world = one at ends
  generalize second world = other at ends
  cases ends <;> rfl

/-- There is one state, and it holds two numbers. -/
def World.ofTwoNumbers : World :=
  { World.empty with targets := #[some { values := [("a", .integer 1), ("b", .integer 2)] }] }

/-- A sum that is broken into lines can be evaluated, but its text is shown instead of it. -/
theorem broken_sum_shown_as_text : Embeds "a +\n b" ∧
    returned? (evaluateText (runTo 0) 0 "a +\n b") .ofTwoNumbers = some "3" ∧
    returned? (interpolate (runTo 0) 0 (String.ofList (embed "a +\n b"))) .ofTwoNumbers =
      some "\x7b\x7ba +\n b\x7d\x7d" ∧
    ¬ Agree (interpolate (runTo 0) 0 (String.ofList (embed "a +\n b"))) (evaluateText (runTo 0) 0 "a +\n b") := by
  have evaluated : returned? (evaluateText (runTo 0) 0 "a +\n b") .ofTwoNumbers = some "3" := by decide +kernel
  have shown : returned? (interpolate (runTo 0) 0 (String.ofList (embed "a +\n b"))) .ofTwoNumbers =
      some "\x7b\x7ba +\n b\x7d\x7d" := by decide +kernel
  refine ⟨.of_decided (by decide +kernel) (by decide +kernel), evaluated, shown, fun agree => ?_⟩
  have same := agree.returned?_eq .ofTwoNumbers
  rw [evaluated, shown] at same
  exact absurd same (by decide)

end LiveMarkup
