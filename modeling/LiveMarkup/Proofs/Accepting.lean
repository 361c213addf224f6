import LiveMarkup.Proofs.Parsing

/-
This file shows that every rendering is read as the expression that it renders.
-/

namespace LiveMarkup.Expr

open Reader

variable {inner : Reader Expr} {rest : List Char}

/-! How renderings start. -/

/-- A primary form starts with one of these. -/
def opens (c : Char) : Bool := c.isDigit || isNameStart c || c == '"' || c == '\'' || c == '('

def starts (c : Char) : Bool := opens c || c == '!' || c == '-' || c == '+'

/-- A form may start with a unary operator unless a primary form stands first in it. -/
def startsAt : Level → Char → Bool
  | .primary, c => opens c
  | .access, c => opens c
  | _, c => starts c

theorem starts_of_opens {c : Char} (isOpening : opens c = true) : starts c = true := by
  simp [starts, isOpening]

theorem isGap_of_startsAt {level : Level} {c : Char} (start : startsAt level c = true) :
    isGap c = false := by
  have wide : starts c = true := by
    cases level
    case primary => exact starts_of_opens start
    case access => exact starts_of_opens start
    all_goals exact start
  exact not_isGap_of (by decide) wide

theorem exists_head {level : Level} {expr : Expr} {text : List Char}
    (written : Renders level expr text) : ∃ c tail, text = c :: tail ∧ startsAt level c = true := by
  have named : ∀ {name tail}, isName name = true →
      ∃ c more, name.toList ++ tail = c :: more ∧ startsAt .primary c = true := by
    intro name tail isName
    obtain ⟨c, more, same, start, -, -⟩ := isName_iff.mp isName
    exact ⟨c, more ++ tail, by rw [same]; rfl, by simp [startsAt, opens, start]⟩
  induction written with
  | number isNumeral _ =>
      obtain ⟨isDigits, -, -⟩ := isNumeral
      obtain ⟨digit, more, rfl⟩ := List.exists_cons_of_ne_nil isDigits.1
      exact ⟨digit, _, rfl, by simp [startsAt, opens, isDigits.2 digit List.mem_cons_self]⟩
  | string isQuote _ => exact ⟨_, _, rfl, by obtain rfl | rfl := isQuote <;> rfl⟩
  | word listed =>
      simp only [words, List.mem_cons, Prod.mk.injEq, List.not_mem_nil, or_false] at listed
      obtain ⟨rfl, rfl⟩ | ⟨rfl, rfl⟩ | ⟨rfl, rfl⟩ | ⟨rfl, rfl⟩ := listed <;> exact ⟨_, _, rfl, rfl⟩
  | ident isName =>
      rw [← List.append_nil (String.toList _)]
      exact named isName
  | call isName _ _ _ _ =>
      rw [List.append_assoc, List.append_assoc]
      exact named isName
  | parenthesised _ _ _ _ => exact ⟨'(', _, rfl, rfl⟩
  | unary operator _ _ _ => cases operator <;> exact ⟨_, _, rfl, rfl⟩
  | bare _ inductionHypothesis => exact inductionHypothesis
  | member _ _ _ _ inductionHypothesis =>
      obtain ⟨c, tail, rfl, start⟩ := inductionHypothesis
      exact ⟨c, _, rfl, start⟩
  | index _ _ _ _ _ inductionHypothesis _ =>
      obtain ⟨c, tail, rfl, start⟩ := inductionHypothesis
      exact ⟨c, _, rfl, start⟩
  | plain _ inductionHypothesis =>
      obtain ⟨c, tail, rfl, start⟩ := inductionHypothesis
      exact ⟨c, _, rfl, starts_of_opens start⟩
  | single _ _ inductionHypothesis => exact inductionHypothesis
  | higher _ inductionHypothesis => exact inductionHypothesis
  | binary _ _ _ _ _ inductionHypothesis _ =>
      obtain ⟨c, tail, rfl, start⟩ := inductionHypothesis
      exact ⟨c, _, rfl, start⟩
  | unconditional _ inductionHypothesis => exact inductionHypothesis
  | conditional _ _ _ _ _ _ _ inductionHypothesis _ _ =>
      obtain ⟨c, tail, rfl, start⟩ := inductionHypothesis
      exact ⟨c, _, rfl, start⟩

/-- No rendering starts with a gap. -/
theorem skipGap_written {level : Level} {expr : Expr} {text : List Char}
    (written : Renders level expr text) (rest : List Char) : skipGap (text ++ rest) = text ++ rest := by
  obtain ⟨c, tail, rfl, start⟩ := exists_head written
  exact skipGap_cons (isGap_of_startsAt start) _

theorem skipGap_gap_written {level : Level} {expr : Expr} {gap text : List Char}
    (blank : IsBlank gap) (written : Renders level expr text) (rest : List Char) :
    skipGap (gap ++ (text ++ rest)) = text ++ rest := by
  rw [skipGap_append blank, skipGap_written written]

/-! What stands after renderings. -/

/-- After a primary form no name goes on, no fraction begins and no arguments follow. -/
def EndsPrimary (rest : List Char) : Prop :=
  (∀ c ∈ next rest, isNameChar c = false ∧ c ≠ '(') ∧
    ∀ digit tail, rest = '.' :: digit :: tail → digit.isDigit = false

/-- After an operand no access follows. -/
def EndsOperand (rest : List Char) : Prop :=
  ∀ c ∈ next rest, isNameChar c = false ∧ c ∉ ['(', '.', '[']

/-- After a chain of operands the text is over or one of these follows. -/
def EndsBinary (rest : List Char) : Prop := ∀ c ∈ next rest, c ∈ ['?', ')', ']', ',', ':']

/-- After a whole expression no conditional follows. -/
def Closed (rest : List Char) : Prop := ∀ c ∈ next rest, c ∈ [')', ']', ',', ':']

theorem EndsPrimary.stops (ends : EndsPrimary rest) : ∀ c ∈ rest.head?, isNameChar c = false := by
  intro c first
  rcases isGap_or_next first with gap | next
  · cases name : isNameChar c with
    | false => rfl
    | true => rw [isGap_of_isNameChar name] at gap; cases gap
  · exact (ends.1 c next).1

theorem EndsPrimary.endsNumeral (ends : EndsPrimary rest) : EndsNumeral rest := ⟨ends.stops, ends.2⟩

theorem EndsOperand.endsPrimary (ends : EndsOperand rest) : EndsPrimary rest := by
  refine ⟨fun c first => ⟨(ends c first).1, ?_⟩, ?_⟩
  · rintro rfl
    exact (ends '(' first).2 (by decide)
  · rintro digit tail rfl
    exact absurd (by decide) (ends '.' (next_cons (by decide) _)).2

theorem EndsBinary.endsOperand (ends : EndsBinary rest) : EndsOperand rest := by
  intro c first
  have among := ends c first
  simp only [List.mem_cons, List.not_mem_nil, or_false] at among
  obtain rfl | rfl | rfl | rfl | rfl := among <;> decide

theorem Closed.endsBinary (closed : Closed rest) : EndsBinary rest :=
  fun c first => List.mem_cons_of_mem _ (closed c first)

/-- After a gap, one character decides what ends. -/
theorem closed_append {gap : List Char} (blank : IsBlank gap) {c : Char}
    (closes : c ∈ [')', ']', ',', ':']) (rest : List Char) : Closed (gap ++ c :: rest) := by
  intro first found
  have dark : isGap c = false := by
    simp only [List.mem_cons, List.not_mem_nil, or_false] at closes
    obtain rfl | rfl | rfl | rfl := closes <;> rfl
  rw [next_gap blank dark] at found
  cases found
  exact closes

theorem closed_of_blank {gap : List Char} (blank : IsBlank gap) : Closed gap := by
  intro c first
  rw [← List.append_nil gap, next_append blank] at first
  cases first

theorem endsBinary_append {gap : List Char} (blank : IsBlank gap) (rest : List Char) :
    EndsBinary (gap ++ '?' :: rest) := by
  intro c first
  rw [next_gap blank (by decide)] at first
  cases first
  decide

theorem endsOperand_append {gap : List Char} (blank : IsBlank gap) (operator : BinaryOperator)
    (rest : List Char) : EndsOperand (gap ++ operator.symbol.toList ++ rest) := by
  intro c first
  rw [List.append_assoc, next_append blank] at first
  cases operator <;> (cases first; decide)

/-- A text that starts with a gap starts with no point. -/
theorem eq_nil_of_point {gap : List Char} (blank : IsBlank gap) {c : Char} {tail : List Char}
    (same : gap ++ c :: rest = '.' :: tail) : gap = [] := by
  cases gap with
  | nil => rfl
  | cons head more =>
      rw [List.cons_append] at same
      have dark := blank head List.mem_cons_self
      rw [(List.cons.inj same).1] at dark
      cases dark

theorem endsPrimary_point {gap : List Char} (blank : IsBlank gap)
    (point : ∀ c ∈ rest.head?, c.isDigit = false) : EndsPrimary (gap ++ '.' :: rest) := by
  refine ⟨fun c first => ?_, fun digit tail same => ?_⟩
  · rw [next_gap blank (by decide)] at first
    cases first
    decide
  · cases eq_nil_of_point blank same
    cases same
    exact point digit rfl

theorem endsPrimary_bracket {gap : List Char} (blank : IsBlank gap) (rest : List Char) :
    EndsPrimary (gap ++ '[' :: rest) := by
  refine ⟨fun c first => ?_, fun digit tail same => ?_⟩
  · rw [next_gap blank (by decide)] at first
    cases first
    decide
  · cases eq_nil_of_point blank same
    cases same

/-! Primary forms. -/

/-- The reader of inner expressions gives back what this text renders. -/
def Nested (inner : Reader Expr) (expr : Expr) (text : List Char) : Prop :=
  Renders .conditional expr text ∧ ∀ rest, Closed rest → inner (text ++ rest) = some (expr, rest)

theorem Nested.skip {expr : Expr} {text gap : List Char} (nested : Nested inner expr text)
    (blank : IsBlank gap) (closed : Closed rest) :
    inner (skipGap (gap ++ (text ++ rest))) = some (expr, rest) := by
  rw [skipGap_gap_written blank nested.1, nested.2 rest closed]

theorem readPrimary_of_literal {text : List Char} {result : Expr × List Char}
    (literal : readLiteral text = some result) : readPrimary inner text = some result := by
  rw [readPrimary, literal, Option.orElse_some]

/-- A name is no literal, whatever follows after it. -/
theorem readLiteral_name {name : String} (named : isName name = true)
    (stops : ∀ c ∈ rest.head?, isNameChar c = false) : readLiteral (name.toList ++ rest) = none := by
  rw [readLiteral_of_isNameStart, readKeyword_name named stops]
  obtain ⟨first, more, same, start, -, -⟩ := isName_iff.mp named
  simp [same, start]

theorem mark_open_eq_none (ends : EndsPrimary rest) : mark '(' rest = none :=
  mark_eq_none fun first => (ends.1 '(' first).2 rfl

theorem readPrimary_ident {name : String} (named : isName name = true) (ends : EndsPrimary rest) :
    readPrimary inner (name.toList ++ rest) = some (.ident name, rest) := by
  have reads := readName_append named ends.stops
  have noCall : readCall inner (name.toList ++ rest) = none := by
    simp only [readCall, reads, Option.bind_some, mark_open_eq_none ends, Option.bind_none]
  rw [readPrimary, readLiteral_name named ends.stops, noCall, reads]
  rfl

theorem readPrimary_parenthesised {expr : Expr} {before text after : List Char}
    (nested : Nested inner expr text) (beforeBlank : IsBlank before) (afterBlank : IsBlank after)
    (rest : List Char) :
    readPrimary inner ('(' :: before ++ text ++ after ++ [')'] ++ rest) = some (expr, rest) := by
  have whole : '(' :: before ++ text ++ after ++ [')'] ++ rest =
      '(' :: (before ++ (text ++ (after ++ ')' :: rest))) := by simp
  have noLiteral : readLiteral ('(' :: (before ++ (text ++ (after ++ ')' :: rest)))) = none := rfl
  have noName : readName ('(' :: (before ++ (text ++ (after ++ ')' :: rest)))) = none := rfl
  have noCall : readCall inner ('(' :: (before ++ (text ++ (after ++ ')' :: rest)))) = none := rfl
  have reads : readParenthesised inner ('(' :: (before ++ (text ++ (after ++ ')' :: rest)))) =
      some (expr, rest) := by
    have opened : mark '(' ('(' :: (before ++ (text ++ (after ++ ')' :: rest)))) =
        some ((), before ++ (text ++ (after ++ ')' :: rest))) := rfl
    have item := nested.skip beforeBlank
      (closed_append afterBlank (by decide : ')' ∈ [')', ']', ',', ':']) rest)
    have closed := mark_append afterBlank (by decide : isGap ')' = false) rest
    simp only [readParenthesised, opened, Option.bind_some, item, closed, Option.map_some]
  rw [whole, readPrimary, noLiteral, noCall, noName, reads]
  rfl

/-! Arguments. -/

theorem makesProgress_readFurther (innerSound : Sound inner (Renders .conditional)) :
    MakesProgress (readFurther inner) := by
  intro text expr rest found
  obtain ⟨⟨_, afterMark⟩, comma, item⟩ := Option.bind_eq_some_iff.mp found
  have shorter := (sound_mark ',' _ _ _ comma).length_lt (by rintro _ rfl; simp)
  have less := (innerSound _ _ _ item).skip.length_lt fun lexeme written => by
    obtain ⟨c, tail, rfl, -⟩ := exists_head written
    simp
  omega

/-- The arguments after the first one are read one by one, up to the closing parenthesis. -/
theorem reads_further {parts : List (Expr × List Char)} (present : parts ≠ [])
    (each : ∀ part ∈ parts, Nested inner part.1 part.2) {text : List Char}
    (separated : Separated (parts.map Prod.snd) text) (rest : List Char) :
    ∃ first others before middle after, parts.map Prod.fst = first.1 :: others ∧ first ∈ parts ∧
      text = before ++ first.2 ++ middle ∧ IsBlank before ∧ IsBlank after ∧
      Closed (middle ++ ')' :: rest) ∧
      Reads (readFurther inner) (middle ++ ')' :: rest) others (after ++ ')' :: rest) := by
  induction parts generalizing text with
  | nil => exact absurd rfl present
  | cons part parts inductionHypothesis =>
      obtain ⟨expr, lexeme⟩ := part
      rw [List.map_cons] at separated
      generalize listed : parts.map Prod.snd = texts at separated
      cases separated with
      | one beforeBlank afterBlank =>
          cases List.map_eq_nil_iff.mp listed
          rename_i before after
          exact ⟨(expr, lexeme), [], before, after, after, rfl, List.mem_cons_self, rfl, beforeBlank,
            afterBlank, closed_append afterBlank (by decide) rest, Reads.done⟩
      | more beforeBlank afterBlank someTexts separated =>
          rename_i before after behind
          subst listed
          have someParts : parts ≠ [] := by
            rintro rfl
            exact someTexts rfl
          obtain ⟨second, others, start, middle, ending, same, member, rfl, startBlank, endingBlank,
            closed, reads⟩ := inductionHypothesis someParts
              (fun part member => each part (List.mem_cons_of_mem _ member)) separated
          have found : readFurther inner
              ((after ++ ',' :: (start ++ second.2 ++ middle)) ++ ')' :: rest) =
                some (second.1, middle ++ ')' :: rest) := by
            have nested := each second (List.mem_cons_of_mem _ member)
            have marked : mark ',' (after ++ ',' :: (start ++ (second.2 ++ (middle ++ ')' :: rest)))) =
                some ((), start ++ (second.2 ++ (middle ++ ')' :: rest))) :=
              mark_append afterBlank (by decide) _
            simp only [List.append_assoc, List.cons_append, readFurther, marked, Option.bind_some,
              nested.skip startBlank closed]
          refine ⟨(expr, lexeme), second.1 :: others, before,
            after ++ ',' :: (start ++ second.2 ++ middle), ending, ?_, List.mem_cons_self, ?_,
            beforeBlank, endingBlank, ?_, Reads.next found reads⟩
          · rw [List.map_cons, same]
          · simp
          · rw [List.append_assoc]
            exact closed_append afterBlank (by decide) _

theorem readArguments_append (innerSound : Sound inner (Renders .conditional))
    {parts : List (Expr × List Char)} (each : ∀ part ∈ parts, Nested inner part.1 part.2)
    {text : List Char} (separated : Separated (parts.map Prod.snd) text) (rest : List Char) :
    ∃ after, IsBlank after ∧
      readArguments inner (text ++ ')' :: rest) = some (parts.map Prod.fst, after ++ ')' :: rest) := by
  cases parts with
  | nil =>
      cases separated with
      | none blank =>
          have noItem : inner (skipGap (text ++ ')' :: rest)) = Option.none := by
            rw [skipGap_append_cons blank (by decide)]
            cases found : inner (')' :: rest) with
            | none => rfl
            | some result =>
                -- No rendering starts with a closing parenthesis.
                obtain ⟨gap, lexeme, gapBlank, same, written⟩ := innerSound _ _ _ found
                obtain ⟨c, tail, rfl, start⟩ := exists_head written
                have skipped := skipGap_append_cons gapBlank (isGap_of_startsAt start)
                  (tail ++ result.2)
                simp only [List.append_assoc, List.cons_append] at same
                rw [← same, skipGap_cons (by decide)] at skipped
                rw [← (List.cons.inj skipped).1] at start
                cases start
          refine ⟨text, blank, ?_⟩
          rw [readArguments_eq, noItem]
          rfl
  | cons part parts =>
      obtain ⟨first, others, before, middle, after, same, member, rfl, beforeBlank, afterBlank, closed,
        reads⟩ := reads_further (List.cons_ne_nil part parts) each separated rest
      have stuck : readFurther inner (after ++ ')' :: rest) = none := by
        rw [readFurther, mark_eq_none, Option.bind_none]
        rw [next_gap afterBlank (by decide)]
        decide
      have item := (each first member).skip beforeBlank closed
      refine ⟨after, afterBlank, ?_⟩
      simp only [List.append_assoc]
      rw [readArguments_eq, item]
      simp only [many_of_reads (makesProgress_readFurther innerSound) reads stuck, same]

theorem readPrimary_call (innerSound : Sound inner (Renders .conditional)) {name : String}
    (named : isName name = true) {gap text : List Char} (blank : IsBlank gap)
    {parts : List (Expr × List Char)} (each : ∀ part ∈ parts, Nested inner part.1 part.2)
    (separated : Separated (parts.map Prod.snd) text) (rest : List Char) :
    readPrimary inner (name.toList ++ gap ++ '(' :: text ++ [')'] ++ rest) =
      some (.call name (parts.map Prod.fst), rest) := by
  have whole : name.toList ++ gap ++ '(' :: text ++ [')'] ++ rest =
      name.toList ++ (gap ++ '(' :: (text ++ ')' :: rest)) := by simp
  have stops : ∀ c ∈ (gap ++ '(' :: (text ++ ')' :: rest)).head?, isNameChar c = false := by
    intro c first
    cases inName : isNameChar c with
    | false => rfl
    | true =>
        rcases isGap_or_next first with dark | next
        · rw [isGap_of_isNameChar inName] at dark
          cases dark
        · rw [next_gap blank (by decide)] at next
          cases next
          cases inName
  obtain ⟨after, afterBlank, listed⟩ := readArguments_append innerSound each separated rest
  have reads : readCall inner (name.toList ++ (gap ++ '(' :: (text ++ ')' :: rest))) =
      some (.call name (parts.map Prod.fst), rest) := by
    have opened := mark_append blank (by decide : isGap '(' = false) (text ++ ')' :: rest)
    have closed := mark_append afterBlank (by decide : isGap ')' = false) rest
    simp only [readCall, readName_append named stops, opened, listed, closed, Option.bind_some,
      Option.map_some]
  rw [whole, readPrimary, readLiteral_name named stops, reads]
  rfl

/-! Accesses. -/

/-- A point with a name after it starts no fraction. -/
theorem not_isDigit_before_name {gap : List Char} (blank : IsBlank gap) {name : String}
    (named : isName name = true) (rest : List Char) :
    ∀ c ∈ (gap ++ (name.toList ++ rest)).head?, c.isDigit = false := by
  intro c first
  cases gap with
  | nil =>
      obtain ⟨start, more, same, starts, -, -⟩ := isName_iff.mp named
      rw [same] at first
      cases first
      exact not_isDigit_of_isNameStart starts
  | cons head more =>
      cases first
      cases digit : c.isDigit with
      | false => rfl
      | true =>
          have dark := isGap_of_isNameChar (isNameChar_of_isDigit digit)
          rw [blank c List.mem_cons_self] at dark
          cases dark

theorem readAccess_member {property : String} (named : isName property = true)
    {before after : List Char} (beforeBlank : IsBlank before) (afterBlank : IsBlank after)
    (ends : EndsPrimary rest) :
    readAccess inner (before ++ '.' :: (after ++ (property.toList ++ rest))) =
      some (.member property, rest) := by
  have skipped : skipGap (after ++ (property.toList ++ rest)) = property.toList ++ rest :=
    skipGap_gap_written afterBlank (Renders.ident named) rest
  have marked := mark_append beforeBlank (by decide : isGap '.' = false)
    (after ++ (property.toList ++ rest))
  simp only [readAccess, marked, Option.bind_some, skipped, readName_append named ends.stops,
    Option.map_some, Option.orElse_some]

theorem readAccess_index {position : Expr} {before after text ending : List Char}
    (beforeBlank : IsBlank before) (afterBlank : IsBlank after) (endingBlank : IsBlank ending)
    (nested : Nested inner position text) (rest : List Char) :
    readAccess inner (before ++ '[' :: (after ++ (text ++ (ending ++ ']' :: rest)))) =
      some (.index position, rest) := by
  have noPoint : mark '.' (before ++ '[' :: (after ++ (text ++ (ending ++ ']' :: rest)))) = none := by
    refine mark_eq_none ?_
    rw [next_gap beforeBlank (by decide)]
    decide
  have opened := mark_append beforeBlank (by decide : isGap '[' = false)
    (after ++ (text ++ (ending ++ ']' :: rest)))
  have item := nested.skip afterBlank
    (closed_append endingBlank (by decide : ']' ∈ [')', ']', ',', ':']) rest)
  have closed := mark_append endingBlank (by decide : isGap ']' = false) rest
  simp only [readAccess, noPoint, Option.bind_none, Option.orElse_none, opened, Option.bind_some, item,
    closed, Option.map_some]

theorem readAccess_eq_none (ends : EndsOperand rest) : readAccess inner rest = none := by
  have noPoint : mark '.' rest = none :=
    mark_eq_none fun first => absurd (by decide) (ends '.' first).2
  have noBracket : mark '[' rest = none :=
    mark_eq_none fun first => absurd (by decide) (ends '[' first).2
  simp only [readAccess, noPoint, noBracket, Option.bind_none, Option.orElse_none]

/-! Operands. -/

theorem makesProgress_readUnaryOperator : MakesProgress readUnaryOperator :=
  sound_readUnaryOperator.makesProgress fun operator lexeme same => by
    subst same
    cases operator <;> decide

theorem readUnaryOperator_written {level : Level} (form : level = .primary ∨ level = .access)
    {expr : Expr} {text : List Char} (written : Renders level expr text) (rest : List Char) :
    readUnaryOperator (text ++ rest) = none := by
  obtain ⟨c, tail, rfl, start⟩ := exists_head written
  have isOpening : opens c = true := by
    obtain rfl | rfl := form <;> exact start
  refine readUnaryOperator_eq_none fun operator first => ?_
  rw [List.cons_append, next_cons (isGap_of_startsAt start)] at first
  cases operator <;> (cases first; cases isOpening)

theorem readOperand_plain (innerSound : Sound inner (Renders .conditional)) {expr : Expr}
    {text middle : List Char} (written : Renders .access expr text) {primary : Expr}
    {accesses : List Access}
    (item : readPrimary inner (text ++ rest) = some (primary, middle))
    (reads : Reads (readAccess inner) middle accesses rest) (ends : EndsOperand rest) :
    readOperand inner (text ++ rest) = some (accesses.foldl Access.apply primary, rest) := by
  have noOperator := many_of_none (readUnaryOperator_written (Or.inr rfl) written rest)
  have accessed := many_of_reads
    ((sound_readAccess innerSound).makesProgress fun _ _ follows => follows.1) reads
    (readAccess_eq_none ends)
  simp only [readOperand_eq, noOperator, skipGap_written written, item, accessed, Option.map_some,
    List.foldr_nil]

theorem readOperand_gap {gap : List Char} (blank : IsBlank gap) (text : List Char) :
    readOperand inner (gap ++ text) = readOperand inner text := by
  have same : readUnaryOperator (gap ++ text) = readUnaryOperator text := by
    simp only [readUnaryOperator, skipGap_append blank]
  cases found : readUnaryOperator text with
  | none =>
      have here := many_of_none found
      have there := many_of_none (same.trans found)
      simp only [readOperand_eq, here, there, skipGap_append blank]
  | some result =>
      have here := many_of_some makesProgress_readUnaryOperator found
      have there := many_of_some makesProgress_readUnaryOperator (same.trans found)
      simp only [readOperand_eq, here, there]

theorem readOperand_unary (operator : UnaryOperator) {gap text : List Char} {operand : Expr}
    (blank : IsBlank gap) (item : readOperand inner text = some (operand, rest)) :
    readOperand inner (operator.symbol.toList ++ (gap ++ text)) =
      some (.unary operator operand, rest) := by
  have here := many_of_some makesProgress_readUnaryOperator
    (readUnaryOperator_append operator (gap ++ text))
  rw [← readOperand_gap blank] at item
  rw [readOperand_eq] at item ⊢
  obtain ⟨⟨primary, afterPrimary⟩, found, same⟩ := Option.map_eq_some_iff.mp item
  cases same
  simp only [here, found, Option.map_some, List.foldr_cons]

/-! Chains. -/

theorem makesProgress_readStep (innerSound : Sound inner (Renders .conditional)) :
    MakesProgress (readStep inner) := by
  intro text part rest found
  obtain ⟨⟨operator, afterOperator⟩, operated, found⟩ := Option.bind_eq_some_iff.mp found
  obtain ⟨⟨operand, ending⟩, item, same⟩ := Option.map_eq_some_iff.mp found
  cases same
  have shorter := (sound_readBinaryOperator _ _ _ operated).length_lt (by
    rintro _ rfl
    cases operator <;> decide)
  have less := (sound_readOperand innerSound _ _ _ item).skip.length_lt fun lexeme written => by
    obtain ⟨c, tail, rfl, -⟩ := exists_head written
    simp
  omega

theorem readStep_append (operator : BinaryOperator) {before after text middle : List Char}
    {level : Level} {expr operand : Expr} (beforeBlank : IsBlank before) (afterBlank : IsBlank after)
    (written : Renders level expr text)
    (item : readOperand inner (text ++ rest) = some (operand, middle)) :
    readStep inner (before ++ operator.symbol.toList ++ (after ++ (text ++ rest))) =
      some ((operator, operand), middle) := by
  -- Neither a gap nor a rendering starts with an equals sign, which would make a longer symbol.
  have starts : ∃ c tail, after ++ (text ++ rest) = c :: tail ∧ c ≠ '=' := by
    cases after with
    | nil =>
        obtain ⟨c, tail, rfl, start⟩ := exists_head written
        refine ⟨c, tail ++ rest, rfl, ?_⟩
        rintro rfl
        cases level <;> cases start
    | cons c more =>
        refine ⟨c, more ++ (text ++ rest), rfl, ?_⟩
        rintro rfl
        exact absurd (afterBlank '=' List.mem_cons_self) (by decide)
  obtain ⟨c, tail, same, other⟩ := starts
  have operated := readBinaryOperator_append beforeBlank operator other tail
  rw [← same] at operated
  simp only [readStep, operated, Option.bind_some, skipGap_gap_written afterBlank written, item,
    Option.map_some]

theorem readStep_eq_none (ends : EndsBinary rest) : readStep inner rest = none := by
  have noOperator : readBinaryOperator rest = none := by
    refine readBinaryOperator_eq_none fun operator first => ?_
    cases operator <;> exact absurd (ends _ first) (by decide)
  rw [readStep, noOperator, Option.bind_none]

/-! Conditionals. -/

theorem readConditionalWith_plain {text : List Char} {expr : Expr}
    (item : readBinary inner text = some (expr, rest)) (closed : Closed rest) :
    readConditionalWith inner text = some (expr, rest) := by
  have noMark : mark '?' rest = none :=
    mark_eq_none fun first => absurd (closed '?' first) (by decide)
  simp only [readConditionalWith, item, noMark, Option.map_some, Option.bind_none]

theorem readConditionalWith_chosen {text second third before after behind ahead : List Char}
    {test yes no : Expr} (beforeBlank : IsBlank before) (afterBlank : IsBlank after)
    (behindBlank : IsBlank behind) (aheadBlank : IsBlank ahead)
    (item : readBinary inner text = some (test, before ++ '?' :: (after ++ (second ++
      (behind ++ ':' :: (ahead ++ (third ++ rest)))))))
    (yesNested : Nested inner yes second) (noNested : Nested inner no third) (closed : Closed rest) :
    readConditionalWith inner text = some (.conditional test yes no, rest) := by
  have asked := mark_append beforeBlank (by decide : isGap '?' = false)
    (after ++ (second ++ (behind ++ ':' :: (ahead ++ (third ++ rest)))))
  have yesItem := yesNested.skip afterBlank
    (closed_append behindBlank (by decide : ':' ∈ [')', ']', ',', ':']) (ahead ++ (third ++ rest)))
  have parted := mark_append behindBlank (by decide : isGap ':' = false) (ahead ++ (third ++ rest))
  have noItem := noNested.skip aheadBlank closed
  simp only [readConditionalWith, item, asked, yesItem, parted, noItem, Option.map_some,
    Option.bind_some]

/-! All forms. -/

/-- With this inner reader each level's reader gives back what a text renders. -/
def ReadsBack (inner : Reader Expr) : Level → Expr → List Char → Prop
  | .primary, expr, text => ∀ rest, EndsPrimary rest →
      readPrimary inner (text ++ rest) = some (expr, rest)
  | .access, expr, text => ∀ rest, EndsPrimary rest → ∃ primary accesses middle,
      readPrimary inner (text ++ rest) = some (primary, middle) ∧
      Reads (readAccess inner) middle accesses rest ∧ accesses.foldl Access.apply primary = expr
  | .operand, expr, text => ∀ rest, EndsOperand rest →
      readOperand inner (text ++ rest) = some (expr, rest)
  | .binary level, expr, text => ∀ rest, EndsOperand rest → ∃ first chain middle,
      readOperand inner (text ++ rest) = some (first, middle) ∧
      Reads (readStep inner) middle chain rest ∧ Grouped level expr first chain
  | .conditional, expr, text => ∀ rest, Closed rest →
      readConditionalWith inner (text ++ rest) = some (expr, rest)

theorem ReadsBack.readBinary_eq (innerSound : Sound inner (Renders .conditional)) {expr : Expr}
    {text : List Char} (back : ReadsBack inner (.binary 0) expr text) (ends : EndsBinary rest) :
    readBinary inner (text ++ rest) = some (expr, rest) := by
  obtain ⟨first, chain, middle, item, reads, grouped⟩ := back rest ends.endsOperand
  have chained := many_of_reads (makesProgress_readStep innerSound) reads (readStep_eq_none ends)
  simp only [Expr.readBinary_eq, item, chained, Option.map_some, grouped.joinLevels_eq]

/-- A shorter text is read back at a smaller depth. -/
theorem nested_of_readsBack {expr : Expr} {text : List Char} {depth : Nat}
    (written : Renders .conditional expr text)
    (back : ∀ depth, text.length ≤ depth → ReadsBack (readConditional depth) .conditional expr text)
    (shorter : text.length < depth) : Nested (readConditional depth) expr text := by
  obtain ⟨smaller, rfl⟩ : ∃ smaller, depth = smaller + 1 := ⟨depth - 1, by omega⟩
  exact ⟨written, back smaller (by omega)⟩

theorem length_le_of_separated {texts : List (List Char)} {text : List Char}
    (separated : Separated texts text) {part : List Char} (member : part ∈ texts) :
    part.length ≤ text.length := by
  induction separated with
  | none => cases member
  | one =>
      rw [List.mem_singleton.mp member]
      simp only [List.length_append]
      omega
  | more _ _ _ _ inductionHypothesis =>
      simp only [List.length_append, List.length_cons]
      rcases List.mem_cons.mp member with rfl | later
      · omega
      · have := inductionHypothesis later
        omega

/-- Each form reads back. The induction is on the rendering, with one reader for each level. -/
theorem readsBack {level : Level} {expr : Expr} {text : List Char} (written : Renders level expr text) :
    ∀ depth, text.length ≤ depth → ReadsBack (readConditional depth) level expr text := by
  induction written with
  | number isNumeral meaning =>
      exact fun depth _ rest ends =>
        readPrimary_of_literal (readLiteral_number isNumeral meaning ends.endsNumeral)
  | string isQuote isBody =>
      exact fun depth _ rest _ => readPrimary_of_literal (readLiteral_string isQuote isBody rest)
  | word listed =>
      exact fun depth _ rest ends => readPrimary_of_literal (readLiteral_word listed ends.stops)
  | ident isName => exact fun depth _ rest ends => readPrimary_ident isName ends
  | call isName blank written separated inductionHypothesis =>
      intro depth enough rest _
      have sound := sound_readConditional depth
      refine readPrimary_call sound isName blank ?_ separated rest
      intro part member
      have inside := length_le_of_separated separated (List.mem_map_of_mem member)
      simp only [List.length_append, List.length_cons] at enough
      exact nested_of_readsBack (written part member) (inductionHypothesis part member) (by omega)
  | parenthesised beforeBlank afterBlank written inductionHypothesis =>
      intro depth enough rest _
      simp only [List.length_append, List.length_cons] at enough
      exact readPrimary_parenthesised
        (nested_of_readsBack written inductionHypothesis (by omega)) beforeBlank afterBlank rest
  | bare _ inductionHypothesis =>
      exact fun depth enough rest ends =>
        ⟨_, [], rest, inductionHypothesis depth enough rest ends, Reads.done, rfl⟩
  | member _ beforeBlank afterBlank isName inductionHypothesis =>
      intro depth enough rest ends
      rename_i object property text before after _
      simp only [List.length_append, List.length_cons] at enough
      have point := not_isDigit_before_name afterBlank isName rest
      obtain ⟨primary, accesses, middle, item, reads, same⟩ :=
        inductionHypothesis depth (by omega) _ (endsPrimary_point beforeBlank point)
      exact ⟨primary, accesses ++ [.member property], middle, by simpa using item,
        reads.append (Reads.single (readAccess_member isName beforeBlank afterBlank ends)),
        by simp [same, Access.apply]⟩
  | index _ beforeBlank afterBlank endingBlank written inductionHypothesis positionHypothesis =>
      intro depth enough rest _
      simp only [List.length_append, List.length_cons] at enough
      obtain ⟨primary, accesses, middle, item, reads, same⟩ :=
        inductionHypothesis depth (by omega) _ (endsPrimary_bracket beforeBlank _)
      have nested : Nested (readConditional depth) _ _ :=
        nested_of_readsBack written positionHypothesis (by omega)
      have accessed := readAccess_index beforeBlank afterBlank endingBlank nested rest
      exact ⟨primary, accesses ++ [_], middle, by simpa using item,
        reads.append (Reads.single accessed), by simp [same, Access.apply]⟩
  | plain written inductionHypothesis =>
      intro depth enough rest ends
      obtain ⟨primary, accesses, middle, item, reads, rfl⟩ :=
        inductionHypothesis depth enough rest ends.endsPrimary
      exact readOperand_plain (sound_readConditional depth) written item reads ends
  | unary operator blank _ inductionHypothesis =>
      intro depth enough rest ends
      simp only [List.length_append] at enough
      simp only [List.append_assoc]
      exact readOperand_unary operator blank (inductionHypothesis depth (by omega) rest ends)
  | single level _ inductionHypothesis =>
      exact fun depth enough rest ends =>
        ⟨_, [], rest, inductionHypothesis depth enough rest ends, Reads.done, Grouped.single level _⟩
  | higher _ inductionHypothesis =>
      intro depth enough rest ends
      obtain ⟨first, chain, middle, item, reads, grouped⟩ := inductionHypothesis depth enough rest ends
      exact ⟨first, chain, middle, item, reads, Grouped.higher grouped⟩
  | binary operator _ beforeBlank afterBlank written leftHypothesis rightHypothesis =>
      intro depth enough rest ends
      rename_i before after _
      simp only [List.length_append] at enough
      obtain ⟨second, behind, ending, operand, further, right⟩ :=
        rightHypothesis depth (by omega) rest ends
      obtain ⟨first, ahead, middle, item, reads, left⟩ :=
        leftHypothesis depth (by omega) _ (endsOperand_append beforeBlank operator _)
      have joined := readStep_append operator beforeBlank afterBlank written operand
      exact ⟨first, ahead ++ (operator, second) :: behind, middle, by simpa using item,
        reads.append (Reads.next joined further), Grouped.binary operator left right⟩
  | unconditional _ inductionHypothesis =>
      intro depth enough rest closed
      have tested := inductionHypothesis depth enough
      exact readConditionalWith_plain
        (tested.readBinary_eq (sound_readConditional depth) closed.endsBinary) closed
  | conditional _ beforeBlank afterBlank behindBlank aheadBlank yesWritten noWritten testHypothesis
      yesHypothesis noHypothesis =>
      intro depth enough rest closed
      simp only [List.length_append, List.length_cons] at enough
      have yesNested : Nested (readConditional depth) _ _ :=
        nested_of_readsBack yesWritten yesHypothesis (by omega)
      have noNested : Nested (readConditional depth) _ _ :=
        nested_of_readsBack noWritten noHypothesis (by omega)
      have tested := testHypothesis depth (by omega)
      simp only [List.append_assoc, List.cons_append]
      exact readConditionalWith_chosen beforeBlank afterBlank behindBlank aheadBlank
        (tested.readBinary_eq (sound_readConditional depth) (endsBinary_append beforeBlank _))
        yesNested noNested closed

theorem read?_of_written {expr : Expr} {before text after : List Char} (beforeBlank : IsBlank before)
    (afterBlank : IsBlank after) (written : Renders .conditional expr text) :
    read? (before ++ text ++ after) = some expr := by
  have enough : text.length ≤ (before ++ text ++ after).length := by
    simp only [List.length_append]
    omega
  have item : readConditional ((before ++ text ++ after).length + 1) (text ++ after) =
      some (expr, after) := readsBack written _ enough after (closed_of_blank afterBlank)
  have atEnd : skipGap after = [] := by
    rw [← List.append_nil after, skipGap_append afterBlank]
    rfl
  rw [read?, List.append_assoc, skipGap_gap_written beforeBlank written, ← List.append_assoc, item]
  simp [atEnd]

end LiveMarkup.Expr
