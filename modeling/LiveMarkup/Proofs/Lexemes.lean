import LiveMarkup.Expr.Grammar
import LiveMarkup.Proofs.Scanning

/-
This file shows that the lexemes of expressions are read exactly where the grammar has them.
-/

namespace LiveMarkup.Expr

/-! Gaps. -/

theorem IsBlank.append {first second : List Char} (firstBlank : IsBlank first)
    (secondBlank : IsBlank second) : IsBlank (first ++ second) := by
  intro c member
  rcases List.mem_append.mp member with here | there
  · exact firstBlank c here
  · exact secondBlank c there

theorem isBlank_nil : IsBlank [] := List.forall_mem_nil _

theorem isBlank_space : IsBlank [' '] := by
  intro c member
  rw [List.mem_singleton.mp member]
  rfl

theorem skipGap_append {gap : List Char} (blank : IsBlank gap) (rest : List Char) :
    skipGap (gap ++ rest) = skipGap rest := List.dropWhile_append_of_pos blank

theorem skipGap_cons {c : Char} (dark : isGap c = false) (rest : List Char) :
    skipGap (c :: rest) = c :: rest := List.dropWhile_cons_of_neg (by simp [dark])

theorem skipGap_append_cons {gap : List Char} (blank : IsBlank gap) {c : Char}
    (dark : isGap c = false) (rest : List Char) : skipGap (gap ++ c :: rest) = c :: rest := by
  rw [skipGap_append blank, skipGap_cons dark]

theorem exists_gap (text : List Char) : ∃ gap, IsBlank gap ∧ text = gap ++ skipGap text :=
  ⟨text.takeWhile isGap, List.all_eq_true.mp List.all_takeWhile,
    List.takeWhile_append_dropWhile.symm⟩

/-- After a gap a text goes on with this character. -/
def next (text : List Char) : Option Char := (skipGap text).head?

theorem next_append {gap : List Char} (blank : IsBlank gap) (rest : List Char) :
    next (gap ++ rest) = next rest := congrArg List.head? (skipGap_append blank rest)

theorem next_cons {c : Char} (dark : isGap c = false) (rest : List Char) :
    next (c :: rest) = some c := congrArg List.head? (skipGap_cons dark rest)

theorem next_gap {gap : List Char} (blank : IsBlank gap) {c : Char} (dark : isGap c = false)
    (rest : List Char) : next (gap ++ c :: rest) = some c := by
  rw [next_append blank, next_cons dark]

theorem isGap_or_next {text : List Char} {c : Char} (first : text.head? = some c) :
    isGap c = true ∨ next text = some c := by
  cases text with
  | nil => cases first
  | cons head rest =>
      cases first
      cases gap : isGap c with
      | true => exact Or.inl rfl
      | false => exact Or.inr (next_cons gap rest)

/-- What holds of the space characters alone is decided by the four of them. -/
theorem not_isGap_of {inClass : Char → Bool}
    (outside : [' ', '\t', '\r', '\n'].any inClass = false) {c : Char}
    (inside : inClass c = true) : isGap c = false := by
  cases gap : isGap c with
  | false => rfl
  | true =>
      have among : c ∈ [' ', '\t', '\r', '\n'] := by
        simpa [isGap, or_assoc] using gap
      rw [List.any_eq_true.mpr ⟨c, among, inside⟩] at outside
      cases outside

theorem isGap_of_isNameChar {c : Char} (inName : isNameChar c = true) : isGap c = false :=
  not_isGap_of (by decide) inName

/-! A reader is sound if what it reads is written as the grammar says. -/

/-- A text begins with a gap and a lexeme, and the rest stands after them. -/
def Begins (written : List Char → Prop) (text rest : List Char) : Prop :=
  ∃ gap lexeme, IsBlank gap ∧ text = gap ++ lexeme ++ rest ∧ written lexeme

def Sound {A : Type} (item : Reader A) (written : A → List Char → Prop) : Prop :=
  ∀ text value rest, item text = some (value, rest) → Begins (written value) text rest

variable {A B : Type} {written other : List Char → Prop} {text rest : List Char}

theorem Begins.imp (begins : Begins written text rest)
    (weaker : ∀ lexeme, written lexeme → other lexeme) : Begins other text rest := by
  obtain ⟨gap, lexeme, blank, same, holds⟩ := begins
  exact ⟨gap, lexeme, blank, same, weaker lexeme holds⟩

theorem Begins.skip (begins : Begins written (skipGap text) rest) : Begins written text rest := by
  obtain ⟨before, blank, same⟩ := exists_gap text
  obtain ⟨gap, lexeme, more, skipped, holds⟩ := begins
  refine ⟨before ++ gap, lexeme, blank.append more, ?_, holds⟩
  rw [same, skipped, List.append_assoc, List.append_assoc, List.append_assoc]

/-- A text that begins with what is never empty gets shorter. -/
theorem Begins.length_lt (begins : Begins written text rest)
    (present : ∀ lexeme, written lexeme → lexeme ≠ []) : rest.length < text.length := by
  obtain ⟨gap, lexeme, -, rfl, holds⟩ := begins
  have some := List.length_pos_iff.mpr (present lexeme holds)
  simp only [List.length_append]
  omega

theorem Sound.imp {item : Reader A} {first second : A → List Char → Prop} (sound : Sound item first)
    (weaker : ∀ value lexeme, first value lexeme → second value lexeme) : Sound item second :=
  fun text value rest found => (sound text value rest found).imp (weaker value)

theorem Sound.orElse {first second : Reader A} {form : A → List Char → Prop}
    (firstSound : Sound first form) (secondSound : Sound second form) :
    Sound (fun text => (first text).orElse fun _ => second text) form := by
  intro text value rest found
  cases attempt : first text with
  | none => exact secondSound text value rest (by simpa [attempt] using found)
  | some result =>
      have same : result = (value, rest) := by simpa [attempt] using found
      exact firstSound text value rest (same ▸ attempt)

theorem Sound.makesProgress {item : Reader A} {form : A → List Char → Prop}
    (sound : Sound item form) (present : ∀ value lexeme, form value lexeme → lexeme ≠ []) :
    Reader.MakesProgress item :=
  fun text value rest found => (sound text value rest found).length_lt (present value)

/-! Marks. -/

theorem sound_mark (expected : Char) : Sound (mark expected) fun _ lexeme => lexeme = [expected] := by
  intro text value rest found
  obtain ⟨gap, blank, same⟩ := exists_gap text
  unfold mark at found
  split at found
  · rename_i c tail skipped
    split at found
    · rename_i expects
      cases found
      exact ⟨gap, [expected], blank, by rw [same, skipped, expects]; simp, rfl⟩
    · cases found
  · cases found

theorem mark_append {gap : List Char} (blank : IsBlank gap) {expected : Char}
    (dark : isGap expected = false) (rest : List Char) :
    mark expected (gap ++ expected :: rest) = some ((), rest) := by
  rw [mark, skipGap_append_cons blank dark]
  exact if_pos rfl

theorem mark_eq_none {expected : Char} (differs : next text ≠ some expected) :
    mark expected text = none := by
  unfold mark
  split
  · rename_i c tail skipped
    exact if_neg fun same => differs (by rw [next, skipped, same]; rfl)
  · rfl

/-! Names and words. -/

theorem span_name {word : List Char} (inside : ∀ c ∈ word, isNameChar c = true)
    (stops : ∀ c ∈ rest.head?, isNameChar c = false) :
    (word ++ rest).takeWhile isNameChar = word ∧ (word ++ rest).dropWhile isNameChar = rest :=
  Token.span_append inside stops

theorem isNameChar_of_isNameStart {c : Char} (starts : isNameStart c = true) :
    isNameChar c = true := by
  simp only [isNameStart, isNameChar, Char.isAlphanum, Bool.or_eq_true] at starts ⊢
  grind

/-- A name starts as names do, goes on with characters of names, and is no keyword. -/
theorem isName_iff {name : String} : isName name = true ↔
    ∃ first more, name.toList = first :: more ∧ isNameStart first = true ∧
      (∀ c ∈ more, isNameChar c = true) ∧ name ∉ keywords := by
  unfold isName
  split
  · rename_i empty
    simp [empty]
  · rename_i first more same
    simp only [same, Bool.and_eq_true, List.all_eq_true, Bool.not_eq_true', List.contains_iff_mem,
      ← Bool.not_eq_true, List.cons.injEq]
    constructor
    · rintro ⟨⟨starts, inside⟩, free⟩
      exact ⟨first, more, ⟨rfl, rfl⟩, starts, inside, free⟩
    · rintro ⟨_, _, ⟨rfl, rfl⟩, starts, inside, free⟩
      exact ⟨⟨starts, inside⟩, free⟩

theorem sound_readName :
    Sound readName fun name lexeme => isName name = true ∧ lexeme = name.toList := by
  intro text name rest found
  unfold readName at found
  split at found
  · cases found
  · rename_i first tail
    simp only at found
    split at found
    · rename_i accepted
      cases found
      rw [Bool.and_eq_true] at accepted
      obtain ⟨starts, free⟩ := accepted
      have taken := List.takeWhile_cons_of_pos (p := isNameChar) (l := tail)
        (isNameChar_of_isNameStart starts)
      refine ⟨[], _, isBlank_nil, ?_, isName_iff.mpr ?_, rfl⟩
      · simp only [List.nil_append, String.toList_ofList]
        exact List.takeWhile_append_dropWhile.symm
      · refine ⟨first, tail.takeWhile isNameChar, by rw [String.toList_ofList, taken], starts,
          List.all_eq_true.mp List.all_takeWhile, ?_⟩
        simpa using free
    · cases found

theorem readName_append {name : String} (named : isName name = true)
    (stops : ∀ c ∈ rest.head?, isNameChar c = false) :
    readName (name.toList ++ rest) = some (name, rest) := by
  obtain ⟨first, more, same, starts, inside, free⟩ := isName_iff.mp named
  have every : ∀ c ∈ name.toList, isNameChar c = true := by
    rw [same]
    exact List.forall_mem_cons.mpr ⟨isNameChar_of_isNameStart starts, inside⟩
  obtain ⟨taken, dropped⟩ := span_name every stops
  have whole : String.ofList (first :: more) = name := by rw [← same, String.ofList_toList]
  rw [same] at taken dropped ⊢
  simp only [readName, List.cons_append] at taken dropped ⊢
  rw [taken, dropped, whole]
  simp [starts, free]

theorem sound_readKeyword :
    Sound readKeyword fun meaning lexeme => ∃ word, (word, meaning) ∈ words ∧ lexeme = word.toList := by
  intro text meaning rest found
  have whole : text.takeWhile isNameChar ++ text.dropWhile isNameChar = text :=
    List.takeWhile_append_dropWhile
  have begins : ∀ word, (word, meaning) ∈ words →
      String.ofList (text.takeWhile isNameChar) = word → text.dropWhile isNameChar = rest →
      Begins (fun lexeme => ∃ word, (word, meaning) ∈ words ∧ lexeme = word.toList) text rest := by
    intro word listed taken dropped
    refine ⟨[], text.takeWhile isNameChar, isBlank_nil, ?_, word, listed, ?_⟩
    · rw [List.nil_append, ← dropped, whole]
    · rw [← taken, String.toList_ofList]
  unfold readKeyword at found
  simp only at found
  split at found
  · cases found
    exact begins "true" (by simp [words]) ‹_› rfl
  · cases found
    exact begins "false" (by simp [words]) ‹_› rfl
  · cases found
    exact begins "null" (by simp [words]) ‹_› rfl
  · cases found
    exact begins "undefined" (by simp [words]) ‹_› rfl
  · cases found

theorem readKeyword_append {word : String} {meaning : Expr} (listed : (word, meaning) ∈ words)
    (stops : ∀ c ∈ rest.head?, isNameChar c = false) :
    readKeyword (word.toList ++ rest) = some (meaning, rest) := by
  have inside : ∀ c ∈ word.toList, isNameChar c = true := by
    have every : ∀ entry ∈ words, entry.1.toList.all isNameChar = true := by simp [words]; decide
    exact List.all_eq_true.mp (every (word, meaning) listed)
  obtain ⟨taken, dropped⟩ := span_name inside stops
  simp only [readKeyword, taken, dropped, String.ofList_toList]
  simp only [words, List.mem_cons, Prod.mk.injEq, List.not_mem_nil, or_false] at listed
  obtain ⟨rfl, rfl⟩ | ⟨rfl, rfl⟩ | ⟨rfl, rfl⟩ | ⟨rfl, rfl⟩ := listed <;> rfl

/-- A word of the table is a keyword, so no name is read as one. -/
theorem readKeyword_name {name : String} (named : isName name = true)
    (stops : ∀ c ∈ rest.head?, isNameChar c = false) : readKeyword (name.toList ++ rest) = none := by
  obtain ⟨first, more, same, starts, inside, free⟩ := isName_iff.mp named
  have every : ∀ c ∈ name.toList, isNameChar c = true := by
    rw [same]
    exact List.forall_mem_cons.mpr ⟨isNameChar_of_isNameStart starts, inside⟩
  obtain ⟨taken, dropped⟩ := span_name every stops
  simp only [readKeyword, taken, String.ofList_toList]
  simp only [keywords, List.mem_cons, List.not_mem_nil, or_false, not_or] at free
  split <;> simp_all

/-! Numbers. -/

/-- Where a numeral ends, no name goes on and no fraction begins. -/
def EndsNumeral (rest : List Char) : Prop :=
  (∀ c ∈ rest.head?, isNameChar c = false) ∧ ∀ digit tail, rest = '.' :: digit :: tail →
    digit.isDigit = false

theorem isNameChar_of_isDigit {c : Char} (digit : c.isDigit = true) : isNameChar c = true := by
  simp [isNameChar, Char.isAlphanum, digit]

theorem EndsNumeral.not_isDigit (ends : EndsNumeral rest) : ∀ c ∈ rest.head?, c.isDigit = false := by
  intro c first
  cases digit : c.isDigit with
  | false => rfl
  | true => exact absurd (isNameChar_of_isDigit digit) (by simp [ends.1 c first])

theorem digitsAfter_eq {start part ending : List Char} (found : digitsAfter start text = (part, ending))
    (present : part.isEmpty = false) :
    ∃ digits, IsDigits digits ∧ part = start ++ digits ∧ text = digits ++ ending := by
  unfold digitsAfter at found
  simp only at found
  split at found
  · cases found
    cases present
  · rename_i filled
    cases found
    exact ⟨text.takeWhile Char.isDigit, ⟨by simpa using filled, List.all_eq_true.mp List.all_takeWhile⟩,
      rfl, List.takeWhile_append_dropWhile.symm⟩

theorem digitsAfter_append {digits : List Char} (isDigits : IsDigits digits)
    (stops : ∀ c ∈ rest.head?, c.isDigit = false) (start : List Char) :
    digitsAfter start (digits ++ rest) = (start ++ digits, rest) := by
  obtain ⟨taken, dropped⟩ := Token.span_append isDigits.2 stops
  simp only [digitsAfter, taken, dropped]
  simp [isDigits.1]

theorem fractionPart_eq {part ending : List Char} (found : fractionPart text = (part, ending)) :
    IsFraction part ∧ text = part ++ ending := by
  unfold fractionPart at found
  split at found
  · rename_i tail
    cases after : digitsAfter ['.'] tail with
    | mk more behind =>
        simp only [after] at found
        split at found
        · cases found
          exact ⟨Or.inl rfl, rfl⟩
        · rename_i filled
          cases found
          obtain ⟨digits, isDigits, rfl, rfl⟩ := digitsAfter_eq after (by simpa using filled)
          exact ⟨Or.inr ⟨digits, isDigits, rfl⟩, rfl⟩
  · cases found
    exact ⟨Or.inl rfl, rfl⟩

/-- After its letter an exponent has digits with or without a sign, or it is none. -/
theorem exponentPart_letter {letter : Char} (isLetter : letter = 'e' ∨ letter = 'E')
    (tail : List Char) : ∃ sign digits, (sign = [] ∨ sign = ['+'] ∨ sign = ['-']) ∧
      tail = sign ++ digits ∧ exponentPart (letter :: tail) =
        if (digitsAfter (letter :: sign) digits).1.isEmpty then ([], letter :: tail)
        else digitsAfter (letter :: sign) digits := by
  simp only [exponentPart, if_pos isLetter]
  split
  · exact ⟨['+'], _, Or.inr (Or.inl rfl), rfl, rfl⟩
  · exact ⟨['-'], _, Or.inr (Or.inr rfl), rfl, rfl⟩
  · exact ⟨[], _, Or.inl rfl, rfl, rfl⟩

theorem exponentPart_eq {part ending : List Char} (found : exponentPart text = (part, ending)) :
    IsExponent part ∧ text = part ++ ending := by
  cases text with
  | nil =>
      cases found
      exact ⟨Or.inl rfl, rfl⟩
  | cons letter tail =>
      by_cases isLetter : letter = 'e' ∨ letter = 'E'
      · obtain ⟨sign, digits, isSign, rfl, same⟩ := exponentPart_letter isLetter tail
        rw [same] at found
        split at found
        · cases found
          exact ⟨Or.inl rfl, rfl⟩
        · rename_i filled
          obtain ⟨run, isDigits, rfl, rfl⟩ :=
            digitsAfter_eq found (by rw [found] at filled; simpa using filled)
          exact ⟨Or.inr ⟨letter, sign, run, isLetter, isSign, isDigits, rfl⟩, by simp⟩
      · simp only [exponentPart, if_neg isLetter] at found
        cases found
        exact ⟨Or.inl rfl, rfl⟩

theorem sound_numberLexeme :
    Sound numberLexeme fun value lexeme => IsNumeral value ∧ lexeme = value := by
  intro text value rest found
  unfold numberLexeme at found
  simp only at found
  split at found
  · cases found
  · rename_i filled
    have isDigits : IsDigits (text.takeWhile Char.isDigit) :=
      ⟨by simpa using filled, List.all_eq_true.mp List.all_takeWhile⟩
    cases fractionIs : fractionPart (text.dropWhile Char.isDigit) with
    | mk fraction afterFraction =>
        cases exponentIs : exponentPart afterFraction with
        | mk exponent ending =>
            simp only [fractionIs, exponentIs] at found
            cases found
            obtain ⟨isFraction, left⟩ := fractionPart_eq fractionIs
            obtain ⟨isExponent, right⟩ := exponentPart_eq exponentIs
            refine ⟨[], _, isBlank_nil, ?_, IsNumeral.parts isDigits isFraction isExponent, rfl⟩
            calc text
              _ = text.takeWhile Char.isDigit ++ text.dropWhile Char.isDigit :=
                  List.takeWhile_append_dropWhile.symm
              _ = _ := by rw [left, right]; simp

theorem fractionPart_append {fraction : List Char} (isFraction : IsFraction fraction)
    (stops : ∀ c ∈ rest.head?, c.isDigit = false)
    (plain : ∀ digit tail, rest = '.' :: digit :: tail → digit.isDigit = false) :
    fractionPart (fraction ++ rest) = (fraction, rest) := by
  obtain rfl | ⟨digits, isDigits, rfl⟩ := isFraction
  · -- A point without a digit after it starts no fraction.
    cases found : fractionPart ([] ++ rest) with
    | mk part ending =>
        obtain ⟨rfl | ⟨digits, isDigits, rfl⟩, same⟩ := fractionPart_eq found
        · rw [show rest = ending from same]
        · obtain ⟨digit, more, rfl⟩ := List.exists_cons_of_ne_nil isDigits.1
          have no := plain digit (more ++ ending) same
          rw [isDigits.2 digit List.mem_cons_self] at no
          cases no
  · simp only [List.cons_append, fractionPart, digitsAfter_append isDigits stops]
    rfl

theorem exponentPart_append {exponent : List Char} (isExponent : IsExponent exponent)
    (stops : ∀ c ∈ rest.head?, isNameChar c = false) :
    exponentPart (exponent ++ rest) = (exponent, rest) := by
  have noDigit : ∀ c ∈ rest.head?, c.isDigit = false := by
    intro c first
    cases digit : c.isDigit with
    | false => rfl
    | true => exact absurd (isNameChar_of_isDigit digit) (by simp [stops c first])
  obtain rfl | ⟨letter, sign, digits, isLetter, isSign, isDigits, rfl⟩ := isExponent
  · cases found : exponentPart ([] ++ rest) with
    | mk part ending =>
        obtain ⟨rfl | ⟨letter, sign, digits, isLetter, isSign, isDigits, rfl⟩, same⟩ :=
          exponentPart_eq found
        · rw [show rest = ending from same]
        · have no := stops letter (by rw [show rest = _ from same]; rfl)
          obtain rfl | rfl := isLetter <;> cases no
  · obtain ⟨digit, more, rfl⟩ := List.exists_cons_of_ne_nil isDigits.1
    have isDigit := isDigits.2 digit List.mem_cons_self
    have read := digitsAfter_append isDigits noDigit (letter :: sign)
    obtain rfl | rfl | rfl := isSign
    · -- A digit is no sign.
      have noPlus : digit ≠ '+' := by rintro rfl; cases isDigit
      have noMinus : digit ≠ '-' := by rintro rfl; cases isDigit
      simp only [List.cons_append] at read
      simp [exponentPart, isLetter, noPlus, noMinus, read]
    · simp only [List.cons_append, List.nil_append] at read
      simp [exponentPart, isLetter, read]
    · simp only [List.cons_append, List.nil_append] at read
      simp [exponentPart, isLetter, read]

/-- What starts with a digit is written by the parts of the numeral only. -/
theorem numberLexeme_append {numeral : List Char} (isNumeral : IsNumeral numeral)
    (ends : EndsNumeral rest) : numberLexeme (numeral ++ rest) = some (numeral, rest) := by
  obtain ⟨isDigits, isFraction, isExponent⟩ := isNumeral
  rename_i whole fraction exponent
  have exponentStops : ∀ c ∈ (exponent ++ rest).head?, c.isDigit = false := by
    obtain rfl | ⟨letter, sign, digits, rfl | rfl, -, -, rfl⟩ := isExponent
    · exact ends.not_isDigit
    · simp
    · simp
  have plain : ∀ digit tail, exponent ++ rest = '.' :: digit :: tail → digit.isDigit = false := by
    obtain rfl | ⟨letter, sign, digits, rfl | rfl, -, -, rfl⟩ := isExponent
    · exact ends.2
    · simp
    · simp
  have fractionStops : ∀ c ∈ (fraction ++ (exponent ++ rest)).head?, c.isDigit = false := by
    obtain rfl | ⟨digits, -, rfl⟩ := isFraction
    · exact exponentStops
    · simp
  obtain ⟨taken, dropped⟩ := Token.span_append isDigits.2 fractionStops
  rw [List.append_assoc, List.append_assoc]
  simp only [numberLexeme, taken, dropped, fractionPart_append isFraction exponentStops plain,
    exponentPart_append isExponent ends.1]
  simp [isDigits.1]

theorem numberLexeme_eq_none (other : ∀ c ∈ text.head?, c.isDigit = false) :
    numberLexeme text = none := by
  cases text with
  | nil => rfl
  | cons first tail =>
      simp [numberLexeme, other first rfl]

/-! Strings. -/

theorem quotedBody_eq {quote : Char} {body ending : List Char}
    (found : quotedBody quote text = some (body, ending)) :
    IsBody quote body ∧ text = body ++ quote :: ending := by
  fun_induction quotedBody quote text generalizing body ending with
  | case1 => cases found
  | case2 c tail inductionHypothesis =>
      obtain ⟨result, inner, same⟩ := Option.map_eq_some_iff.mp found
      cases same
      obtain ⟨isBody, whole⟩ := inductionHypothesis inner
      exact ⟨IsBody.pair c isBody, by rw [whole]; rfl⟩
  | case3 tail =>
      cases found
      exact ⟨IsBody.nil, rfl⟩
  | case4 => cases found
  | case5 c tail noPair noQuote noSlash inductionHypothesis =>
      obtain ⟨result, inner, same⟩ := Option.map_eq_some_iff.mp found
      cases same
      obtain ⟨isBody, whole⟩ := inductionHypothesis inner
      exact ⟨IsBody.plain noQuote noSlash isBody, by rw [whole]; rfl⟩

theorem quotedBody_append {quote : Char} (plain : quote ≠ '\\') {body : List Char}
    (isBody : IsBody quote body) (ending : List Char) :
    quotedBody quote (body ++ quote :: ending) = some (body, ending) := by
  induction isBody with
  | nil =>
      rw [List.nil_append, quotedBody]
      · exact if_pos rfl
      · intro c tail slash
        exact absurd slash plain
  | pair c _ inductionHypothesis =>
      rw [List.cons_append, List.cons_append, quotedBody, inductionHypothesis]
      rfl
  | plain noQuote noSlash _ inductionHypothesis =>
      rw [List.cons_append, quotedBody, if_neg noQuote, if_neg noSlash, inductionHypothesis]
      · rfl
      · intro c tail slash
        exact absurd slash noSlash

theorem ne_backslash_of_quote {quote : Char} (isQuote : quote = '"' ∨ quote = '\'') :
    quote ≠ '\\' := by
  obtain rfl | rfl := isQuote <;> decide

/-! Literals. -/

theorem sound_readLiteral : Sound readLiteral (Renders .primary) := by
  refine Sound.orElse ?_ (Sound.orElse ?_ ?_)
  · intro text expr rest found
    unfold readNumber at found
    split at found
    · cases found
    · rename_i lexeme ending scanned
      obtain ⟨value, meaning, same⟩ := Option.map_eq_some_iff.mp found
      cases same
      refine (sound_numberLexeme text lexeme rest scanned).imp ?_
      rintro _ ⟨isNumeral, rfl⟩
      exact Renders.number isNumeral meaning
  · intro text expr rest found
    unfold readString at found
    split at found
    · rename_i quote tail
      split at found
      · rename_i isQuote
        obtain ⟨⟨body, ending⟩, scanned, same⟩ := Option.map_eq_some_iff.mp found
        cases same
        obtain ⟨isBody, rfl⟩ := quotedBody_eq scanned
        exact ⟨[], quote :: body ++ [quote], isBlank_nil, by simp, Renders.string isQuote isBody⟩
      · cases found
    · cases found
  · refine sound_readKeyword.imp ?_
    rintro meaning _ ⟨word, listed, rfl⟩
    exact Renders.word listed

theorem readNumber_eq_none (other : ∀ c ∈ text.head?, c.isDigit = false) : readNumber text = none := by
  rw [readNumber, numberLexeme_eq_none other]

theorem readString_eq_none (other : ∀ c ∈ text.head?, c ≠ '"' ∧ c ≠ '\'') : readString text = none := by
  cases text with
  | nil => rfl
  | cons first tail =>
      obtain ⟨noDouble, noSingle⟩ := other first rfl
      exact if_neg (by simp [noDouble, noSingle])

theorem readLiteral_number {numeral : List Char} {value : Binary64} (isNumeral : IsNumeral numeral)
    (meaning : Binary64.read? numeral = some value) (ends : EndsNumeral rest) :
    readLiteral (numeral ++ rest) = some (.number value, rest) := by
  simp [readLiteral, readNumber, numberLexeme_append isNumeral ends, meaning]

theorem readLiteral_string {quote : Char} {body : List Char} (isQuote : quote = '"' ∨ quote = '\'')
    (isBody : IsBody quote body) (rest : List Char) :
    readLiteral (quote :: body ++ [quote] ++ rest) =
      some (.string (String.ofList (Text.unescape body)), rest) := by
  have noNumber : readNumber (quote :: (body ++ quote :: rest)) = none :=
    readNumber_eq_none (by obtain rfl | rfl := isQuote <;> simp)
  have reads : readString (quote :: (body ++ quote :: rest)) =
      some (.string (String.ofList (Text.unescape body)), rest) := by
    simp [readString, isQuote, quotedBody_append (ne_backslash_of_quote isQuote) isBody]
  simp [readLiteral, noNumber, reads]

theorem not_isDigit_of_isNameStart {c : Char} (starts : isNameStart c = true) : c.isDigit = false := by
  simp only [isNameStart, Bool.or_eq_true, beq_iff_eq] at starts
  rcases starts with (letter | rfl) | rfl
  · change (c.isUpper || c.isLower) = true at letter
    unfold Char.isUpper Char.isLower at letter
    unfold Char.isDigit
    grind
  · decide
  · decide

/-- What starts as names do is neither a number nor a string. -/
theorem readLiteral_of_isNameStart (starts : ∀ c ∈ text.head?, isNameStart c = true) :
    readLiteral text = readKeyword text := by
  have noNumber : readNumber text = none := by
    refine readNumber_eq_none fun c first => ?_
    have start := starts c first
    exact not_isDigit_of_isNameStart start
  have noString : readString text = none := by
    refine readString_eq_none fun c first => ?_
    have start := starts c first
    constructor <;> rintro rfl <;> cases start
  simp [readLiteral, noNumber, noString]

theorem readLiteral_word {word : String} {meaning : Expr} (listed : (word, meaning) ∈ words)
    (stops : ∀ c ∈ rest.head?, isNameChar c = false) :
    readLiteral (word.toList ++ rest) = some (meaning, rest) := by
  rw [readLiteral_of_isNameStart, readKeyword_append listed stops]
  simp only [words, List.mem_cons, Prod.mk.injEq, List.not_mem_nil, or_false] at listed
  obtain ⟨rfl, rfl⟩ | ⟨rfl, rfl⟩ | ⟨rfl, rfl⟩ | ⟨rfl, rfl⟩ := listed <;> simp <;> decide

/-! Operators. -/

theorem sound_readUnaryOperator :
    Sound readUnaryOperator fun operator lexeme => lexeme = operator.symbol.toList := by
  intro text operator rest found
  obtain ⟨gap, blank, same⟩ := exists_gap text
  unfold readUnaryOperator at found
  split at found
  · rename_i tail skipped
    cases found
    exact ⟨gap, ['!'], blank, by rw [same, skipped]; simp, rfl⟩
  · rename_i tail skipped
    cases found
    exact ⟨gap, ['-'], blank, by rw [same, skipped]; simp, rfl⟩
  · rename_i tail skipped
    cases found
    exact ⟨gap, ['+'], blank, by rw [same, skipped]; simp, rfl⟩
  · cases found

theorem readUnaryOperator_append (operator : UnaryOperator) (rest : List Char) :
    readUnaryOperator (operator.symbol.toList ++ rest) = some (operator, rest) := by
  cases operator <;> rfl

theorem readUnaryOperator_eq_none (other : ∀ operator : UnaryOperator,
    next text ≠ operator.symbol.toList.head?) : readUnaryOperator text = none := by
  unfold readUnaryOperator
  split
  · rename_i tail skipped
    exact absurd (by rw [next, skipped]; rfl) (other .not)
  · rename_i tail skipped
    exact absurd (by rw [next, skipped]; rfl) (other .neg)
  · rename_i tail skipped
    exact absurd (by rw [next, skipped]; rfl) (other .plus)
  · rfl

theorem sound_readBinaryOperator :
    Sound readBinaryOperator fun operator lexeme => lexeme = operator.symbol.toList := by
  intro text operator rest found
  obtain ⟨gap, blank, same⟩ := exists_gap text
  obtain ⟨chosen, first, result⟩ := Option.map_eq_some_iff.mp found
  cases result
  have starts : operator.symbol.toList <+: skipGap text := by
    have accepted := List.find?_some first
    simpa using accepted
  obtain ⟨tail, whole⟩ := starts
  refine ⟨gap, operator.symbol.toList, blank, ?_, rfl⟩
  rw [← whole, ← String.length_toList, List.drop_left, List.append_assoc, whole, ← same]

/-- Each symbol that begins another one comes after it in the table. -/
theorem readBinaryOperator_append {gap : List Char} (blank : IsBlank gap) (operator : BinaryOperator)
    {c : Char} (other : c ≠ '=') (rest : List Char) :
    readBinaryOperator (gap ++ operator.symbol.toList ++ c :: rest) = some (operator, c :: rest) := by
  have dark : skipGap (operator.symbol.toList ++ c :: rest) = operator.symbol.toList ++ c :: rest := by
    cases operator <;> exact skipGap_cons rfl _
  have differs : ('=' == c) = false := beq_false_of_ne other.symm
  have first : BinaryOperator.all.find? (fun candidate =>
      candidate.symbol.toList.isPrefixOf (operator.symbol.toList ++ c :: rest)) = some operator := by
    cases operator <;> simp [BinaryOperator.all, BinaryOperator.symbol, List.find?, List.isPrefixOf,
      differs]
  simp only [readBinaryOperator, List.append_assoc, skipGap_append blank, dark, first, Option.map_some]
  rw [← String.length_toList, List.drop_left]

theorem readBinaryOperator_eq_none (other : ∀ operator : BinaryOperator,
    next text ≠ operator.symbol.toList.head?) : readBinaryOperator text = none := by
  refine Option.map_eq_none_iff.mpr (List.find?_eq_none.mpr ?_)
  intro operator _ accepted
  obtain ⟨tail, whole⟩ := List.isPrefixOf_iff_prefix.mp accepted
  refine other operator ?_
  rw [next, ← whole]
  cases operator <;> rfl

/-! Each numeral has a value. -/

theorem readDigits_eq {digits : List Char} (isDigits : IsDigits digits) :
    Binary64.readExponent.readDigits digits = some (Binary64.exponentOfDigits digits) := by
  have every : digits.all Char.isDigit = true := List.all_eq_true.mpr isDigits.2
  simp [Binary64.readExponent.readDigits, isDigits.1, every]

theorem readExponent_isSome {exponent : List Char} (isExponent : IsExponent exponent) :
    (Binary64.readExponent exponent).isSome = true := by
  obtain rfl | ⟨letter, sign, digits, isLetter, isSign, isDigits, rfl⟩ := isExponent
  · rfl
  · have read := readDigits_eq isDigits
    obtain ⟨digit, more, rfl⟩ := List.exists_cons_of_ne_nil isDigits.1
    have isDigit := isDigits.2 digit List.mem_cons_self
    have noPlus : digit ≠ '+' := by rintro rfl; cases isDigit
    have noMinus : digit ≠ '-' := by rintro rfl; cases isDigit
    obtain rfl | rfl | rfl := isSign <;>
      simp [Binary64.readExponent, isLetter, noPlus, noMinus, read]

theorem readMagnitude_isSome {numeral : List Char} (isNumeral : IsNumeral numeral) (negative : Bool) :
    (Binary64.readMagnitude negative numeral).isSome = true := by
  obtain ⟨isDigits, isFraction, isExponent⟩ := isNumeral
  rename_i whole fraction exponent
  have read := readExponent_isSome isExponent
  have exponentStops : ∀ c ∈ exponent.head?, c.isDigit = false ∧ c ≠ '.' := by
    obtain rfl | ⟨letter, sign, digits, rfl | rfl, -, -, rfl⟩ := isExponent <;> simp
  have stops : ∀ c ∈ (fraction ++ exponent).head?, c.isDigit = false := by
    obtain rfl | ⟨digits, -, rfl⟩ := isFraction
    · exact fun c first => (exponentStops c first).1
    · simp
  obtain ⟨taken, dropped⟩ := Token.span_append isDigits.2 stops
  rw [List.append_assoc]
  simp only [Binary64.readMagnitude, taken, dropped]
  obtain rfl | ⟨digits, fractionDigits, rfl⟩ := isFraction
  · cases exponent with
    | nil => simp [isDigits.1, Binary64.readExponent]
    | cons letter tail =>
        have noPoint : letter ≠ '.' := (exponentStops letter rfl).2
        simp [isDigits.1, noPoint, read]
  · obtain ⟨inside, after⟩ :=
      Token.span_append fractionDigits.2 fun c first => (exponentStops c first).1
    simp [isDigits.1, after, read]

/-- The names of the infinities and of nan start with letters, so no numeral is one. -/
theorem read?_isSome {numeral : List Char} (isNumeral : IsNumeral numeral) :
    (Binary64.read? numeral).isSome = true := by
  have read := readMagnitude_isSome isNumeral
  obtain ⟨isDigits, -, -⟩ := isNumeral
  rename_i whole fraction exponent
  obtain ⟨digit, more, rfl⟩ := List.exists_cons_of_ne_nil isDigits.1
  have isDigit := isDigits.2 digit List.mem_cons_self
  have noPlus : digit ≠ '+' := by rintro rfl; cases isDigit
  have noMinus : digit ≠ '-' := by rintro rfl; cases isDigit
  have same : digit.toLower = digit := by
    simp only [Char.isDigit, Bool.and_eq_true, decide_eq_true_eq] at isDigit
    refine dif_neg ?_
    grind
  have noI : digit ≠ 'i' := by rintro rfl; cases isDigit
  have noN : digit ≠ 'n' := by rintro rfl; cases isDigit
  simp only [List.cons_append] at read ⊢
  simpa [Binary64.read?, Binary64.readUnsigned, noPlus, noMinus, same, noI, noN] using read false

end LiveMarkup.Expr
