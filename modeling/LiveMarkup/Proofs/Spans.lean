import LiveMarkup.Template.Span

/-
This file shows which of the spans that start a text is taken. Several may start at one place,
because a blank may count as part of the expression and braces may lie inside of it.
-/

namespace LiveMarkup.Interpolation

/-- A span is an expression between double braces, with blanks around it that do not count. -/
@[ext]
structure Span where
  leading : List Char
  source : List Char
  trailing : List Char
  blank_leading : ∀ c ∈ leading, Text.isBlank c = true
  blank_trailing : ∀ c ∈ trailing, Text.isBlank c = true
  present : source ≠ []
  single : '\n' ∉ source

namespace Span

def text (span : Span) : List Char :=
  '{' :: '{' :: (span.leading ++ (span.source ++ (span.trailing ++ ['}', '}'])))

/-- Of all spans that start a text, the preferred one drops the most blanks before its expression,
and of those with as many it has the shortest expression. -/
structure Preferred (span : Span) (text : List Char) : Prop where
  starts : span.text <+: text
  first : ∀ other : Span, other.text <+: text → other.leading.length < span.leading.length ∨
    (other.leading.length = span.leading.length ∧ span.source.length ≤ other.source.length)

end Span

theorem isBlank_brace : Text.isBlank '}' = false := by decide

/-- The blanks before closing braces are all dropped, since a brace is no blank. -/
theorem closing_eq_some_iff {text rest : List Char} :
    closing text = some rest ↔ ∃ trailing : List Char, (∀ c ∈ trailing, Text.isBlank c = true) ∧
      text = trailing ++ '}' :: '}' :: rest := by
  constructor
  · intro closed
    refine ⟨text.takeWhile Text.isBlank, List.all_eq_true.mp List.all_takeWhile, ?_⟩
    unfold closing at closed
    split at closed
    · rename_i ending braces
      cases closed
      rw [← braces, List.takeWhile_append_dropWhile]
    · cases closed
  · rintro ⟨trailing, blank, rfl⟩
    simp [closing, List.dropWhile_append_of_pos blank, isBlank_brace]

/-- An expression may be captured at the front of a text if closing braces follow it. -/
def Captures (text source rest : List Char) : Prop :=
  source ≠ [] ∧ '\n' ∉ source ∧ ∃ after, text = source ++ after ∧ closing after = some rest

theorem Captures.cons {c : Char} {text source rest : List Char} (captures : Captures text source rest)
    (other : c ≠ '\n') : Captures (c :: text) (c :: source) rest := by
  obtain ⟨-, single, after, rfl, closed⟩ := captures
  refine ⟨List.cons_ne_nil c source, ?_, after, rfl, closed⟩
  simpa [other.symm] using single

/-- A capture takes one character, or one character and then a capture from the next. -/
theorem captures_cons {c : Char} {text source rest : List Char}
    (captures : Captures (c :: text) source rest) :
    c ≠ '\n' ∧ (source = [c] ∧ closing text = some rest ∨
      ∃ shorter, source = c :: shorter ∧ Captures text shorter rest) := by
  obtain ⟨present, single, after, whole, closed⟩ := captures
  cases source with
  | nil => exact absurd rfl present
  | cons first shorter =>
      obtain ⟨rfl, rfl⟩ := List.cons.inj whole
      have other : c ≠ '\n' := fun same => single (same ▸ List.mem_cons_self)
      refine ⟨other, ?_⟩
      cases shorter with
      | nil => exact Or.inl ⟨rfl, closed⟩
      | cons second more =>
          have later : '\n' ∉ second :: more := fun member => single (List.mem_cons_of_mem c member)
          exact Or.inr ⟨second :: more, rfl, List.cons_ne_nil second more, later, after, rfl, closed⟩

/-- The shortest expression is captured, if there is any. -/
theorem captures_of_capture {text source rest : List Char} (found : capture text = some (source, rest)) :
    Captures text source rest ∧
      ∀ other ending, Captures text other ending → source.length ≤ other.length := by
  induction text generalizing source with
  | nil => cases found
  | cons c tail inductionHypothesis =>
      rw [capture] at found
      split at found
      · cases found
      · rename_i other
        split at found
        · rename_i ending closed
          cases found
          refine ⟨⟨List.cons_ne_nil c [], by simpa using Ne.symm other, tail, rfl, closed⟩, ?_⟩
          intro longer _ captures
          exact List.length_pos_iff.mpr captures.1
        · rename_i unclosed
          obtain ⟨⟨shorter, after⟩, later, same⟩ := Option.map_eq_some_iff.mp found
          cases same
          obtain ⟨captures, shortest⟩ := inductionHypothesis later
          refine ⟨captures.cons other, ?_⟩
          intro longer ending candidate
          obtain ⟨-, ⟨-, closed⟩ | ⟨more, rfl, inner⟩⟩ := captures_cons candidate
          · rw [unclosed] at closed
            cases closed
          · exact Nat.succ_le_succ (shortest more ending inner)

theorem not_captures_of_capture {text : List Char} (nothing : capture text = none)
    (source rest : List Char) : ¬ Captures text source rest := by
  induction text generalizing source with
  | nil =>
      rintro ⟨present, -, after, whole, -⟩
      exact present (List.append_eq_nil_iff.mp whole.symm).1
  | cons c tail inductionHypothesis =>
      intro captures
      obtain ⟨other, cases⟩ := captures_cons captures
      rw [capture, if_neg other] at nothing
      split at nothing
      · cases nothing
      · rename_i unclosed
        rcases cases with ⟨-, closed⟩ | ⟨shorter, -, inner⟩
        · rw [unclosed] at closed
          cases closed
        · exact inductionHypothesis (Option.map_eq_none_iff.mp nothing) shorter inner

/-- A span goes on after its opening braces with blanks and a capture. -/
def Fills (text leading source rest : List Char) : Prop :=
  (∀ c ∈ leading, Text.isBlank c = true) ∧ ∃ after, text = leading ++ after ∧ Captures after source rest

theorem Captures.fills {text source rest : List Char} (captures : Captures text source rest) :
    Fills text [] source rest :=
  ⟨fun _ member => absurd member List.not_mem_nil, text, rfl, captures⟩

theorem Fills.cons {c : Char} {text leading source rest : List Char}
    (fills : Fills text leading source rest) (blank : Text.isBlank c = true) :
    Fills (c :: text) (c :: leading) source rest := by
  obtain ⟨blanks, after, rfl, captures⟩ := fills
  refine ⟨?_, after, rfl, captures⟩
  intro other member
  rcases List.mem_cons.mp member with rfl | later
  · exact blank
  · exact blanks other later

/-- Either no blank is dropped, or the first character is one that is. -/
theorem fills_cons {c : Char} {text leading source rest : List Char}
    (fills : Fills (c :: text) leading source rest) :
    leading = [] ∧ Captures (c :: text) source rest ∨
      ∃ fewer, leading = c :: fewer ∧ Text.isBlank c = true ∧ Fills text fewer source rest := by
  obtain ⟨blanks, after, whole, captures⟩ := fills
  cases leading with
  | nil =>
      cases whole
      exact Or.inl ⟨rfl, captures⟩
  | cons first fewer =>
      obtain ⟨rfl, rfl⟩ := List.cons.inj whole
      refine Or.inr ⟨fewer, rfl, blanks c List.mem_cons_self, ?_, after, rfl, captures⟩
      exact fun other member => blanks other (List.mem_cons_of_mem c member)

theorem not_fills_of_body {text : List Char} (nothing : body text = none)
    (leading source rest : List Char) : ¬ Fills text leading source rest := by
  induction text generalizing leading with
  | nil =>
      rintro ⟨-, after, whole, present, -, more, inner, -⟩
      have empty : after = [] := (List.append_eq_nil_iff.mp whole.symm).2
      exact present (List.append_eq_nil_iff.mp (inner.symm.trans empty)).1
  | cons c tail inductionHypothesis =>
      intro fills
      rw [body] at nothing
      rcases fills_cons fills with ⟨-, captures⟩ | ⟨fewer, -, blank, inner⟩
      · have uncaptured : capture (c :: tail) = none := by
          split at nothing
          · exact (Option.or_eq_none_iff.mp (Option.orElse_eq_or.symm.trans nothing)).2
          · exact nothing
        exact not_captures_of_capture uncaptured source rest captures
      · rw [if_pos blank, Option.orElse_eq_or] at nothing
        exact inductionHypothesis (Option.or_eq_none_iff.mp nothing).1 fewer inner

/-- As many blanks as possible are dropped, and the shortest expression after them is captured. -/
theorem fills_of_body {text source rest : List Char} (found : body text = some (source, rest)) :
    ∃ leading, Fills text leading source rest ∧ ∀ blanks other ending, Fills text blanks other ending →
      blanks.length < leading.length ∨
        (blanks.length = leading.length ∧ source.length ≤ other.length) := by
  induction text with
  | nil => cases found
  | cons c tail inductionHypothesis =>
      rw [body] at found
      split at found
      · rename_i blank
        rw [Option.orElse_eq_or, Option.or_eq_some_iff] at found
        rcases found with further | ⟨nothing, captured⟩
        · obtain ⟨leading, fills, first⟩ := inductionHypothesis further
          refine ⟨c :: leading, fills.cons blank, ?_⟩
          intro blanks other ending candidate
          rcases fills_cons candidate with ⟨rfl, -⟩ | ⟨fewer, rfl, -, inner⟩
          · exact Or.inl (Nat.succ_pos leading.length)
          · simpa using first fewer other ending inner
        · obtain ⟨captures, shortest⟩ := captures_of_capture captured
          refine ⟨[], captures.fills, ?_⟩
          intro blanks other ending candidate
          rcases fills_cons candidate with ⟨rfl, inner⟩ | ⟨fewer, -, -, inner⟩
          · exact Or.inr ⟨rfl, shortest other ending inner⟩
          · exact absurd inner (not_fills_of_body nothing fewer other ending)
      · rename_i solid
        obtain ⟨captures, shortest⟩ := captures_of_capture found
        refine ⟨[], captures.fills, ?_⟩
        intro blanks other ending candidate
        rcases fills_cons candidate with ⟨rfl, inner⟩ | ⟨-, -, blank, -⟩
        · exact Or.inr ⟨rfl, shortest other ending inner⟩
        · exact absurd blank solid

namespace Span

theorem text_append (span : Span) (rest : List Char) : span.text ++ rest =
    '{' :: '{' :: (span.leading ++ (span.source ++ (span.trailing ++ '}' :: '}' :: rest))) := by
  simp [text]

/-- A span fills the text after its opening braces. -/
theorem fills (span : Span) (rest : List Char) :
    Fills (span.leading ++ (span.source ++ (span.trailing ++ '}' :: '}' :: rest)))
      span.leading span.source rest :=
  ⟨span.blank_leading, _, rfl, span.present, span.single, _, rfl,
    closing_eq_some_iff.mpr ⟨span.trailing, span.blank_trailing, rfl⟩⟩

/-- What fills the text after opening braces is a span with them. -/
theorem exists_of_fills {text leading source rest : List Char}
    (fills : Fills text leading source rest) : ∃ span : Span, span.leading = leading ∧
      span.source = source ∧ '{' :: '{' :: text = span.text ++ rest := by
  obtain ⟨blank, _, rfl, present, single, after, rfl, closed⟩ := fills
  obtain ⟨trailing, blanks, rfl⟩ := closing_eq_some_iff.mp closed
  refine ⟨⟨leading, source, trailing, blank, blanks, present, single⟩, rfl, rfl, ?_⟩
  rw [text_append]

/-- At most one span is preferred, with what comes after it. -/
theorem Preferred.unique {first second : Span} {text rest ending : List Char}
    (preferred : first.Preferred text) (also : second.Preferred text)
    (whole : text = first.text ++ rest) (same : text = second.text ++ ending) :
    first = second ∧ rest = ending := by
  have forward := preferred.first second also.starts
  have backward := also.first first preferred.starts
  have leadings : first.leading.length = second.leading.length := by omega
  have sources : first.source.length = second.source.length := by omega
  rw [whole, text_append, text_append] at same
  injection same with _ same
  injection same with _ same
  obtain ⟨leading, same⟩ := List.append_inj same leadings
  obtain ⟨source, same⟩ := List.append_inj same sources
  -- Both cut the same text into blanks and closing braces.
  have closed : closing (first.trailing ++ '}' :: '}' :: rest) = some rest :=
    closing_eq_some_iff.mpr ⟨first.trailing, first.blank_trailing, rfl⟩
  have again : closing (first.trailing ++ '}' :: '}' :: rest) = some ending :=
    closing_eq_some_iff.mpr ⟨second.trailing, second.blank_trailing, same⟩
  obtain rfl : rest = ending := Option.some.inj (closed.symm.trans again)
  exact ⟨Span.ext leading source (List.append_cancel_right same), rfl⟩

end Span

/-- A span that is found is the preferred one. -/
theorem preferred_of_span? {text source rest : List Char} (found : span? text = some (source, rest)) :
    ∃ span : Span, span.Preferred text ∧ span.source = source ∧ text = span.text ++ rest := by
  unfold span? at found
  split at found
  · rename_i inner
    obtain ⟨leading, fills, first⟩ := fills_of_body found
    obtain ⟨span, rfl, rfl, whole⟩ := Span.exists_of_fills fills
    refine ⟨span, ⟨whole ▸ List.prefix_append span.text rest, ?_⟩, rfl, whole⟩
    rintro other ⟨ending, starts⟩
    rw [Span.text_append] at starts
    obtain rfl := (List.cons.inj (List.cons.inj starts).2).2
    exact first _ _ _ (other.fills ending)
  · cases found

/-- Where no span is found, none starts. -/
theorem not_starts_of_span? {text : List Char} (nothing : span? text = none) (span : Span) :
    ¬ span.text <+: text := by
  rintro ⟨rest, rfl⟩
  rw [Span.text_append] at nothing
  exact not_fills_of_body nothing _ _ _ (span.fills rest)

/-- The preferred span is found. -/
theorem Span.Preferred.found {span : Span} {rest : List Char}
    (preferred : span.Preferred (span.text ++ rest)) :
    span? (span.text ++ rest) = some (span.source, rest) := by
  cases taken : span? (span.text ++ rest) with
  | none => exact absurd preferred.starts (not_starts_of_span? taken span)
  | some result =>
      obtain ⟨other, also, source, whole⟩ := preferred_of_span? taken
      obtain ⟨rfl, same⟩ := preferred.unique also rfl whole
      rw [source, same]

end LiveMarkup.Interpolation
