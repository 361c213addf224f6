import LiveMarkup.Proofs.Decomposing
import LiveMarkup.Proofs.Spelling

/-
This file shows where the expression of a span begins and ends: at the first and the last character of its
rendering, as long as these stand on one line and no closing braces stand between them.
-/

namespace LiveMarkup

namespace Expr

/-- A rendering ends with a name, a digit, a quote or a bracket. -/
def ends (c : Char) : Bool := isNameChar c || c == '"' || c == '\'' || c == ')' || c == ']'

/-- A text ends as renderings do. -/
def Ended (text : List Char) : Prop := ∃ before last, text = before ++ [last] ∧ ends last = true

theorem Ended.append {text : List Char} (ended : Ended text) (before : List Char) : Ended (before ++ text) := by
  obtain ⟨front, last, rfl, isEnd⟩ := ended
  exact ⟨before ++ front, last, by simp, isEnd⟩

theorem ended_of_forall {text : List Char} (present : text ≠ [])
    (inside : ∀ c ∈ text, isNameChar c = true) : Ended text := by
  refine ⟨text.dropLast, text.getLast present, (List.dropLast_concat_getLast present).symm, ?_⟩
  simp [ends, inside _ (List.getLast_mem present)]

theorem ended_of_isDigits {digits : List Char} (isDigits : IsDigits digits) : Ended digits := by
  refine ended_of_forall isDigits.1 fun c member => ?_
  simp [isNameChar, Char.isAlphanum, isDigits.2 c member]

theorem ended_of_isNumeral {numeral : List Char} (isNumeral : IsNumeral numeral) : Ended numeral := by
  obtain ⟨isWhole, isFraction, isExponent⟩ := isNumeral
  rcases isExponent with rfl | ⟨letter, sign, digits, -, -, isDigits, rfl⟩
  · rw [List.append_nil]
    rcases isFraction with rfl | ⟨digits, isDigits, rfl⟩
    · rw [List.append_nil]
      exact ended_of_isDigits isWhole
    · exact ((ended_of_isDigits isDigits).append ['.']).append _
  · exact ((ended_of_isDigits isDigits).append (letter :: sign)).append _

theorem ended_of_isName {name : String} (named : isName name = true) : Ended name.toList := by
  obtain ⟨first, more, same, start, inside, -⟩ := isName_iff.mp named
  rw [same]
  refine ended_of_forall (List.cons_ne_nil first more) fun c member => ?_
  rcases List.mem_cons.mp member with rfl | later
  · exact isNameChar_of_isNameStart start
  · exact inside c later

theorem ended_of_renders {level : Level} {expr : Expr} {text : List Char}
    (written : Renders level expr text) : Ended text := by
  induction written with
  | number isNumeral _ => exact ended_of_isNumeral isNumeral
  | string isQuote _ => exact ⟨_, _, rfl, by obtain rfl | rfl := isQuote <;> rfl⟩
  | word listed =>
      simp only [words, List.mem_cons, Prod.mk.injEq, List.not_mem_nil, or_false] at listed
      obtain ⟨rfl, rfl⟩ | ⟨rfl, rfl⟩ | ⟨rfl, rfl⟩ | ⟨rfl, rfl⟩ := listed <;>
        exact ended_of_forall (by decide) (List.all_eq_true.mp (by decide))
  | ident named => exact ended_of_isName named
  | call _ _ _ _ _ => exact ⟨_, ')', rfl, rfl⟩
  | parenthesised _ _ _ _ => exact ⟨_, ')', rfl, rfl⟩
  | bare _ inductionHypothesis => exact inductionHypothesis
  | member _ _ _ named _ => exact (ended_of_isName named).append _
  | index _ _ _ _ _ _ _ => exact ⟨_, ']', rfl, rfl⟩
  | plain _ inductionHypothesis => exact inductionHypothesis
  | unary _ _ _ inductionHypothesis => exact inductionHypothesis.append _
  | single _ _ inductionHypothesis => exact inductionHypothesis
  | higher _ inductionHypothesis => exact inductionHypothesis
  | binary _ _ _ _ _ _ inductionHypothesis => exact inductionHypothesis.append _
  | unconditional _ inductionHypothesis => exact inductionHypothesis
  | conditional _ _ _ _ _ _ _ _ _ inductionHypothesis =>
      exact inductionHypothesis.append _

/-- White space has codes below those of all signs, or above them. -/
theorem not_isBlank_of_code {c : Char} (above : 32 < c.toNat) (below : c.toNat < 128) :
    Text.isBlank c = false := by
  simp only [Text.isBlank, Bool.or_eq_false_iff, Bool.and_eq_false_iff, decide_eq_false_iff_not,
    beq_eq_false_iff_ne]
  omega

theorem code_of_isNameChar {c : Char} (inName : isNameChar c = true) : 32 < c.toNat ∧ c.toNat < 128 := by
  simp only [isNameChar, Bool.or_eq_true, beq_iff_eq] at inName
  rcases inName with (inRange | rfl) | rfl
  · unfold Char.isAlphanum Char.isAlpha Char.isUpper Char.isLower Char.isDigit at inRange
    simp only [Bool.or_eq_true, Bool.and_eq_true, decide_eq_true_eq, ge_iff_le, UInt32.le_iff_toNat_le] at inRange
    simp only [Char.reduceVal, UInt32.reduceToNat] at inRange
    have code : c.toNat = c.val.toNat := rfl
    omega
  · decide
  · decide

theorem not_isBlank_of_starts {c : Char} (isStart : starts c = true) : Text.isBlank c = false := by
  have codes : 32 < c.toNat ∧ c.toNat < 128 := by
    simp only [starts, opens, Bool.or_eq_true, beq_iff_eq, or_assoc] at isStart
    rcases isStart with digit | letter | rfl | rfl | rfl | rfl | rfl | rfl
    · exact code_of_isNameChar (by simp [isNameChar, Char.isAlphanum, digit])
    · exact code_of_isNameChar (isNameChar_of_isNameStart letter)
    all_goals decide
  exact not_isBlank_of_code codes.1 codes.2

theorem not_isBlank_of_ends {c : Char} (isEnd : ends c = true) : Text.isBlank c = false := by
  have codes : 32 < c.toNat ∧ c.toNat < 128 := by
    simp only [ends, Bool.or_eq_true, beq_iff_eq, or_assoc] at isEnd
    rcases isEnd with inName | rfl | rfl | rfl | rfl
    · exact code_of_isNameChar inName
    all_goals decide
  exact not_isBlank_of_code codes.1 codes.2

theorem isBlank_of_isGap {c : Char} (gap : isGap c = true) : Text.isBlank c = true := by
  simp only [isGap, Bool.or_eq_true, beq_iff_eq] at gap
  rcases gap with ((rfl | rfl) | rfl) | rfl <;> decide

end Expr

/-- A text is solid if neither a blank nor a brace stands at its ends. -/
structure Text.IsSolid (text : List Char) : Prop where
  present : text ≠ []
  first : ∀ c ∈ text.head?, isBlank c = false ∧ c ≠ '{'
  last : ∀ c ∈ text.getLast?, isBlank c = false ∧ c ≠ '{' ∧ c ≠ '}'

/-- Trimming drops the blanks around a solid text. -/
theorem Text.IsSolid.trim {text before after : List Char} (solid : IsSolid text)
    (leading : ∀ c ∈ before, isBlank c = true) (trailing : ∀ c ∈ after, isBlank c = true) :
    trim (before ++ (text ++ after)) = text := by
  have stays : ∀ text : List Char, (∀ c ∈ text.head?, isBlank c = false) → text.dropWhile isBlank = text := by
    intro text first
    cases text with
    | nil => rfl
    | cons c rest => exact List.dropWhile_cons_of_neg (by simp [first c rfl])
  have reversed : ∀ c ∈ after.reverse, isBlank c = true := fun c member => trailing c (List.mem_reverse.mp member)
  obtain ⟨c, rest, rfl⟩ := List.exists_cons_of_ne_nil solid.present
  have last : ∀ final ∈ (c :: rest).reverse.head?, isBlank final = false := by
    rw [List.head?_reverse]
    exact fun final member => (solid.last final member).1
  unfold Text.trim
  rw [List.dropWhile_append_of_pos leading, stays (c :: rest ++ after) fun c member => (solid.first c member).1,
    List.reverse_append, List.dropWhile_append_of_pos reversed, stays _ last, List.reverse_reverse]

namespace Expr

theorem isSolid_of_renders {expr : Expr} {text : List Char} (renders : Renders .conditional expr text) :
    Text.IsSolid text := by
  obtain ⟨first, tail, rfl, isStart⟩ := exists_head renders
  refine ⟨List.cons_ne_nil first tail, ?_, ?_⟩
  · rintro c ⟨⟩
    refine ⟨not_isBlank_of_starts isStart, ?_⟩
    rintro rfl
    exact absurd isStart (by decide)
  · obtain ⟨front, last, same, isEnd⟩ := ended_of_renders renders
    rw [same]
    intro c member
    obtain rfl : last = c := by simpa using member
    refine ⟨not_isBlank_of_ends isEnd, ?_, ?_⟩
    · rintro rfl
      exact absurd isEnd (by decide)
    · rintro rfl
      exact absurd isEnd (by decide)

/-- What is left of a source when it is trimmed is a rendering. -/
theorem Written.trimmed {expr : Expr} {source : String} (written : Written expr source) :
    Renders .conditional expr (Text.trim source.toList) ∧
      ∃ before after, (∀ c ∈ before, Text.isBlank c = true) ∧ (∀ c ∈ after, Text.isBlank c = true) ∧
        source.toList = before ++ (Text.trim source.toList ++ after) := by
  obtain ⟨before, text, after, beforeBlank, afterBlank, same, renders⟩ := written
  have leading := fun c member => isBlank_of_isGap (beforeBlank c member)
  have trailing := fun c member => isBlank_of_isGap (afterBlank c member)
  rw [List.append_assoc] at same
  have trim : Text.trim source.toList = text := by
    rw [same]
    exact (isSolid_of_renders renders).trim leading trailing
  rw [trim]
  exact ⟨renders, before, after, leading, trailing, same⟩

/-- Blanks around a source make no difference to its parse. -/
theorem parse_trim {source : String} {expr : Expr} (accepted : parse source = .ok expr) :
    parse (String.ofList (Text.trim source.toList)) = .ok expr := by
  rw [parse_eq_ok_iff_written] at accepted ⊢
  exact ⟨[], _, [], isBlank_nil, isBlank_nil, by simp, accepted.trimmed.1⟩

end Expr

namespace Interpolation

/-- Closing braces stand behind a solid text if none are in it. -/
theorem length_le_of_closed {source tail other trailing ending : List Char}
    (last : ∀ c ∈ source.getLast?, Text.isBlank c = false ∧ c ≠ '}') (free : ¬ ['}', '}'] <:+: source)
    (blank : ∀ c ∈ trailing, Text.isBlank c = true)
    (same : other ++ (trailing ++ '}' :: '}' :: ending) = source ++ tail) :
    source.length ≤ other.length := by
  rcases List.append_eq_append_iff.mp same with ⟨more, rfl, inner⟩ | ⟨more, rfl, -⟩
  · rcases List.eq_nil_or_concat more with rfl | ⟨front, final, rfl⟩
    · simp
    rw [List.concat_eq_append] at last free inner ⊢
    obtain ⟨solid, noBrace⟩ := last final (by simp)
    have outside : final ∉ trailing := fun member => by simp [blank final member] at solid
    rcases List.append_eq_append_iff.mp inner with ⟨braces, whole, behind⟩ | ⟨_, whole, -⟩
    · match braces with
      | [] =>
          rw [List.append_nil] at whole
          exact absurd (whole ▸ by simp) outside
      | [brace] =>
          obtain rfl : final = brace := List.cons.inj (List.append_inj' whole rfl).2 |>.1
          cases behind
          exact absurd rfl noBrace
      | brace :: second :: others =>
          cases behind
          refine absurd ⟨other ++ trailing, others, ?_⟩ free
          rw [whole]
          simp
    · exact absurd (by rw [whole]; simp) outside
  · simp

/-- Blanks are dropped up to a solid text and no further. -/
theorem exists_of_leading {text before leading rest ending : List Char} (solid : Text.IsSolid text)
    (blank : ∀ c ∈ leading, Text.isBlank c = true) (same : leading ++ rest = before ++ (text ++ ending)) :
    ∃ more, before = leading ++ more ∧ rest = more ++ (text ++ ending) := by
  rcases List.append_eq_append_iff.mp same with ⟨more, front, behind⟩ | ⟨more, front, behind⟩
  · exact ⟨more, front, behind⟩
  · cases more with
    | nil => exact ⟨[], by simpa using front.symm, by simpa using behind.symm⟩
    | cons c more =>
        obtain ⟨start, tail, rfl⟩ := List.exists_cons_of_ne_nil solid.present
        obtain rfl : start = c := (List.cons.inj behind).1
        have filled := (solid.first start rfl).1
        rw [blank start (by rw [front]; simp)] at filled
        cases filled

/-- A span is preferred if its expression is solid and contains no closing braces. -/
theorem Span.preferred_of_isSolid {span : Span} (solid : Text.IsSolid span.source)
    (free : ¬ ['}', '}'] <:+: span.source) (rest : List Char) : span.Preferred (span.text ++ rest) := by
  refine ⟨List.prefix_append span.text rest, ?_⟩
  rintro other ⟨ending, same⟩
  rw [text_append, text_append] at same
  have inner := (List.cons.inj (List.cons.inj same).2).2
  obtain ⟨more, leading, after⟩ := exists_of_leading solid other.blank_leading inner
  cases more with
  | nil =>
      rw [List.append_nil] at leading
      refine Or.inr ⟨congrArg List.length leading.symm, length_le_of_closed ?_ free other.blank_trailing after⟩
      exact fun c member => ⟨(solid.last c member).1, (solid.last c member).2.2⟩
  | cons c more =>
      rw [leading]
      exact Or.inl (by simp)

end Interpolation

end LiveMarkup
