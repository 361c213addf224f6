import LiveMarkup.Proofs.References
import Mathlib.Data.Nat.Digits.Defs

/-
This file says which character references there are, and shows that decoding replaces them from left
to right and leaves all other text alone.
-/

namespace LiveMarkup.Text

variable {base code digit value : Nat} {c meant : Char} {name text rest decoded digits sign mark : List Char}
  {refers weaker : List Char → Char → Prop}

/-! Numerals. -/

/-- A digit stands for a number below the base. Letters may be written in both cases. -/
def IsDigit (base : Nat) (c : Char) (digit : Nat) : Prop :=
  digit < base ∧ (c = digit.digitChar ∨ c = digit.digitChar.toUpper)

/-- A numeral has at least one digit. The first one counts most. -/
def Numeral (base : Nat) (text : List Char) (value : Nat) : Prop :=
  text ≠ [] ∧ ∃ digits, List.Forall₂ (IsDigit base) text digits ∧
    value = Nat.ofDigits base digits.reverse

theorem digitInBase?_high (high : 122 < c.toNat) : digitInBase? base c = none := by
  have digits : c.isDigit = false := by
    have same : c.val.toNat = c.toNat := rfl
    simp only [Char.isDigit, Bool.and_eq_false_iff, decide_eq_false_iff_not, UInt32.le_iff_toNat_le, same]
    exact Or.inr (Nat.not_le_of_lt (Nat.lt_trans (by decide) high))
  have lower : ¬ ('a' ≤ c ∧ c ≤ 'z') := fun between => Nat.not_le_of_lt high between.2
  have upper : ¬ ('A' ≤ c ∧ c ≤ 'Z') :=
    fun between => Nat.not_le_of_lt high (Nat.le_trans between.2 (by decide))
  simp [digitInBase?, digits, lower, upper]

/-- Characters are compared with the digits one by one, as far as letters go. -/
theorem digitInBase?_eq_some_iff (small : base ≤ 16) :
    digitInBase? base c = some digit ↔ IsDigit base c digit := by
  constructor
  · intro found
    have low : c.toNat < 123 := by
      by_contra above
      rw [digitInBase?_high (by omega)] at found
      cases found
    have below : digit < base := by
      unfold digitInBase? at found
      obtain ⟨below, same⟩ := Option.ite_none_right_eq_some.mp found
      exact Option.some.inj same ▸ below
    have known : ∀ base ≤ 16, ∀ code < 123, ∀ digit < base,
        digitInBase? base (Char.ofNat code) = some digit →
          Char.ofNat code = digit.digitChar ∨ Char.ofNat code = digit.digitChar.toUpper := by
      decide +kernel
    have written := known base small c.toNat low digit below
    rw [Char.ofNat_toNat] at written
    exact ⟨below, written found⟩
  · rintro ⟨below, written⟩
    have known : ∀ base ≤ 16, ∀ digit < base, digitInBase? base digit.digitChar = some digit ∧
        digitInBase? base digit.digitChar.toUpper = some digit := by decide +kernel
    obtain ⟨lower, upper⟩ := known base small digit below
    rcases written with rfl | rfl
    · exact lower
    · exact upper

/-- No digit is mistaken for another part of a reference. -/
theorem IsDigit.not_mem_marks (isDigit : IsDigit base c digit) (small : base ≤ 16) :
    c ∉ [';', '+', 'x', 'X'] := by
  obtain ⟨below, written⟩ := isDigit
  have known : ∀ digit < 16, digit.digitChar ∉ [';', '+', 'x', 'X'] ∧
      digit.digitChar.toUpper ∉ [';', '+', 'x', 'X'] := by decide +kernel
  obtain ⟨lower, upper⟩ := known digit (Nat.lt_of_lt_of_le below small)
  rcases written with rfl | rfl
  · exact lower
  · exact upper

theorem Numeral.not_mem_marks (numeral : Numeral base text value) (small : base ≤ 16) (member : c ∈ text) :
    c ∉ [';', '+', 'x', 'X'] := by
  obtain ⟨-, digits, written, -⟩ := numeral
  induction written with
  | nil => cases member
  | cons isDigit _ inductionHypothesis =>
      rcases List.mem_cons.mp member with rfl | later
      · exact isDigit.not_mem_marks small
      · exact inductionHypothesis later

/-- Digits are added to what was read before them. -/
theorem foldlM_digits (small : base ≤ 16) (text : List Char) (start value : Nat) :
    text.foldlM (fun total c => (digitInBase? base c).map (base * total + ·)) start = some value ↔
      ∃ digits, List.Forall₂ (IsDigit base) text digits ∧
        digits.foldl (fun total digit => base * total + digit) start = value := by
  induction text generalizing start with
  | nil =>
      rw [List.foldlM_nil]
      constructor
      · intro same
        exact ⟨[], .nil, Option.some.inj same⟩
      · rintro ⟨_, written, same⟩
        cases written
        exact congrArg some same
  | cons c rest inductionHypothesis =>
      rw [List.foldlM_cons]
      constructor
      · intro read
        obtain ⟨total, first, later⟩ := Option.bind_eq_some_iff.mp read
        obtain ⟨digit, found, rfl⟩ := Option.map_eq_some_iff.mp first
        obtain ⟨digits, written, same⟩ := (inductionHypothesis _).mp later
        exact ⟨digit :: digits, .cons ((digitInBase?_eq_some_iff small).mp found) written, same⟩
      · rintro ⟨_, written, same⟩
        cases written with
        | cons isDigit written =>
            have later := (inductionHypothesis _).mpr ⟨_, written, same⟩
            rw [(digitInBase?_eq_some_iff small).mpr isDigit]
            exact later

theorem digitsInBase?_eq_some_iff (small : base ≤ 16) :
    digitsInBase? base text = some value ↔ Numeral base text value := by
  have sum : ∀ digits : List Nat, Nat.ofDigits base digits.reverse =
      digits.foldl (fun total digit => base * total + digit) 0 := by
    intro digits
    rw [Nat.ofDigits_eq_foldr, List.foldr_reverse]
    simp only [Nat.cast_id, Nat.add_comm]
  unfold digitsInBase? Numeral
  rw [Option.ite_none_left_eq_some, foldlM_digits small]
  simp only [List.isEmpty_iff, sum]
  exact and_congr_right fun _ => exists_congr fun _ => and_congr_right fun _ => eq_comm

/-! References. -/

/-- These characters have names. -/
def characterNames : List (List Char × Char) :=
  [("amp".toList, '&'), ("lt".toList, '<'), ("gt".toList, '>'), ("quot".toList, '"'),
    ("apos".toList, '\''), ("nbsp".toList, '\u00a0')]

/-- The mark in front of a number tells its base. -/
def numberMarks : List (List Char × Nat) := [(['#'], 10), (['#', 'x'], 16), (['#', 'X'], 16)]

/-- A number refers to a character if it is a Unicode scalar value. A sign may stand before its digits. -/
inductive Numbers (sign : List Char) : List Char → Char → Prop where
  | intro {mark digits : List Char} {base code : Nat} : (mark, base) ∈ numberMarks →
      Numeral base digits code → code.isValidChar →
        Numbers sign (mark ++ sign ++ digits) (Char.ofNat code)

/-- A reference gives a name or a number. -/
def Refers (name : List Char) (meant : Char) : Prop :=
  (name, meant) ∈ characterNames ∨ Numbers [] name meant

/-- The number in a reference may also have a plus sign. -/
def RefersLoosely (name : List Char) (meant : Char) : Prop :=
  Refers name meant ∨ Numbers ['+'] name meant

/-- A reference stands between an ampersand and a semicolon. -/
def referenceText (name : List Char) : List Char := '&' :: name ++ [';']

/-- A text is decoded from left to right. A reference that stands in front becomes the character that it
refers to, and what was decoded is not decoded again. Otherwise the first character stays. -/
inductive Decodes (refers : List Char → Char → Prop) : List Char → List Char → Prop where
  | done : Decodes refers [] []
  | reference {name rest decoded : List Char} {meant : Char} : refers name meant →
      Decodes refers rest decoded → Decodes refers (referenceText name ++ rest) (meant :: decoded)
  | plain {c : Char} {rest decoded : List Char} :
      (∀ name meant, refers name meant → ¬ referenceText name <+: c :: rest) →
        Decodes refers rest decoded → Decodes refers (c :: rest) (c :: decoded)

theorem scalar?_eq_some_iff : scalar? code = some meant ↔ code.isValidChar ∧ meant = Char.ofNat code := by
  unfold scalar?
  rw [Option.ite_none_right_eq_some, Option.some_inj, eq_comm (a := Char.ofNat code)]

/-- A scalar value has fewer than 32 bits. -/
theorem lt_of_isValidChar (valid : code.isValidChar) : code < 4294967296 := by
  rcases valid with low | ⟨-, high⟩ <;> omega

theorem bind_digitsInBase?_eq_some_iff (text : List Char) (meant : Char) (small : base ≤ 16) :
    (((digitsInBase? base text).bind fun value => if value < 4294967296 then some value else none).bind
      scalar?) = some meant ↔
        ∃ code, Numeral base text code ∧ code.isValidChar ∧ meant = Char.ofNat code := by
  constructor
  · intro found
    obtain ⟨code, read, denotes⟩ := Option.bind_eq_some_iff.mp found
    obtain ⟨_, numeral, bounded⟩ := Option.bind_eq_some_iff.mp read
    obtain ⟨-, same⟩ := Option.ite_none_right_eq_some.mp bounded
    cases same
    exact ⟨code, (digitsInBase?_eq_some_iff small).mp numeral, scalar?_eq_some_iff.mp denotes⟩
  · rintro ⟨code, numeral, valid, rfl⟩
    rw [(digitsInBase?_eq_some_iff small).mpr numeral, Option.bind_some, if_pos (lt_of_isValidChar valid)]
    exact scalar?_eq_some_iff.mpr ⟨valid, rfl⟩

/-- These may stand before the digits of a number. -/
def signs : List (List Char) := [[], ['+']]

theorem bind_natural32?_eq_some_iff (small : base ≤ 16) :
    (natural32? base text).bind scalar? = some meant ↔ ∃ sign ∈ signs, ∃ digits code,
      text = sign ++ digits ∧ Numeral base digits code ∧ code.isValidChar ∧ meant = Char.ofNat code := by
  have reads := fun digits => bind_digitsInBase?_eq_some_iff digits meant small
  constructor
  · intro found
    unfold natural32? at found
    dsimp only at found
    split at found
    · rename_i rest
      obtain ⟨code, numeral⟩ := (reads rest).mp found
      exact ⟨['+'], by decide, rest, code, rfl, numeral⟩
    · obtain ⟨code, numeral⟩ := (reads text).mp found
      exact ⟨[], by decide, text, code, rfl, numeral⟩
  · rintro ⟨sign, known, digits, code, rfl, numeral, valid⟩
    have found := (reads digits).mpr ⟨code, numeral, valid⟩
    rcases List.mem_cons.mp known with rfl | later
    · unfold natural32?
      dsimp only
      split
      · rename_i rest same
        rw [List.nil_append] at same
        have first : '+' ∈ digits := same ▸ List.mem_cons_self
        exact absurd (by decide) (numeral.not_mem_marks small first)
      · exact found
    · obtain rfl := List.mem_singleton.mp later
      exact found

/-- A number without a mark for letters is decimal. -/
theorem reference?_decimal (plain : ∀ c ∈ text, c ≠ 'x' ∧ c ≠ 'X') :
    reference? ('#' :: text) = (natural32? 10 text).bind scalar? := by
  cases text with
  | nil => rfl
  | cons c rest =>
      obtain ⟨lower, upper⟩ := plain c List.mem_cons_self
      simp [reference?, lower, upper]

/-- No base is larger than sixteen, and no mark contains what ends a reference or a plus sign. -/
theorem numberMarks_plain : ∀ entry ∈ numberMarks, entry.2 ≤ 16 ∧ ';' ∉ entry.1 ∧ '+' ∉ entry.1 := by decide

theorem refersLoosely_of_natural32? (marked : (mark, base) ∈ numberMarks)
    (found : (natural32? base text).bind scalar? = some meant) : RefersLoosely (mark ++ text) meant := by
  obtain ⟨sign, known, digits, code, rfl, numeral, valid, rfl⟩ :=
    (bind_natural32?_eq_some_iff (numberMarks_plain _ marked).1).mp found
  have number : Numbers sign (mark ++ sign ++ digits) (Char.ofNat code) := .intro marked numeral valid
  rw [List.append_assoc] at number
  rcases List.mem_cons.mp known with rfl | later
  · exact Or.inl (Or.inr number)
  · obtain rfl := List.mem_singleton.mp later
    exact Or.inr number

theorem Numbers.reference?_eq (known : sign ∈ signs) (numbers : Numbers sign name meant) :
    reference? name = some meant := by
  obtain ⟨marked, numeral, valid⟩ := numbers
  rename_i mark digits base code
  have small := (numberMarks_plain _ marked).1
  have found : (natural32? base (sign ++ digits)).bind scalar? = some (Char.ofNat code) :=
    (bind_natural32?_eq_some_iff small).mpr ⟨sign, known, digits, code, rfl, numeral, valid, rfl⟩
  rw [List.append_assoc]
  simp only [numberMarks, List.mem_cons, Prod.mk.injEq, List.not_mem_nil, or_false] at marked
  rcases marked with ⟨rfl, rfl⟩ | ⟨rfl, rfl⟩ | ⟨rfl, rfl⟩
  · -- Only a decimal number could be taken for one with a mark for letters.
    have plain : ∀ c ∈ sign ++ digits, c ≠ 'x' ∧ c ≠ 'X' := by
      intro c member
      rcases List.mem_append.mp member with inSign | inDigits
      · have all : ∀ sign ∈ signs, ∀ c ∈ sign, c ≠ 'x' ∧ c ≠ 'X' := by simp [signs]
        exact all sign known c inSign
      · have other := numeral.not_mem_marks small inDigits
        constructor
        · rintro rfl
          exact other (by decide)
        · rintro rfl
          exact other (by decide)
    exact (reference?_decimal plain).trans found
  · exact found
  · exact found

/-- The text between the ampersand and the semicolon is resolved if it is a reference. -/
theorem reference?_eq_some_iff : reference? name = some meant ↔ RefersLoosely name meant := by
  constructor
  · intro found
    unfold reference? at found
    split at found
    case h_7 => exact refersLoosely_of_natural32? (by decide : (['#', 'x'], 16) ∈ numberMarks) found
    case h_8 => exact refersLoosely_of_natural32? (by decide : (['#', 'X'], 16) ∈ numberMarks) found
    case h_9 => exact refersLoosely_of_natural32? (by decide : (['#'], 10) ∈ numberMarks) found
    case h_10 => cases found
    all_goals
      cases found
      exact Or.inl (Or.inl (by decide))
  · rintro ((named | number) | number)
    · have all : ∀ entry ∈ characterNames, reference? entry.1 = some entry.2 := by decide
      exact all _ named
    · exact number.reference?_eq (by decide)
    · exact number.reference?_eq (by decide)

/-- A reference ends at the first semicolon. -/
theorem RefersLoosely.not_mem (refers : RefersLoosely name meant) : ';' ∉ name := by
  have numbers : ∀ sign ∈ signs, Numbers sign name meant → ';' ∉ name := by
    rintro sign known ⟨marked, numeral, -⟩ member
    have free : ∀ sign ∈ signs, ';' ∉ sign := by decide
    obtain ⟨small, apart, -⟩ := numberMarks_plain _ marked
    rcases List.mem_append.mp member with early | inDigits
    · exact (List.mem_append.mp early).elim apart (free sign known)
    · exact numeral.not_mem_marks small inDigits (by decide)
  rcases refers with (named | number) | number
  · have all : ∀ entry ∈ characterNames, ';' ∉ entry.1 := by decide
    exact all _ named
  · exact numbers [] (by decide) number
  · exact numbers ['+'] (by decide) number

theorem Refers.unsigned (refers : Refers name meant) : '+' ∉ name := by
  rcases refers with named | ⟨marked, numeral, -⟩
  · have all : ∀ entry ∈ characterNames, '+' ∉ entry.1 := by decide
    exact all _ named
  · obtain ⟨small, -, apart⟩ := numberMarks_plain _ marked
    rw [List.append_nil]
    intro member
    exact (List.mem_append.mp member).elim apart fun inside => numeral.not_mem_marks small inside (by decide)

/-! Decoding. -/

/-- What stands in front of the first semicolon is looked up. -/
theorem refers_of_referenceAhead? {length : Nat} (found : referenceAhead? text = some (meant, length)) :
    ∃ name, RefersLoosely name meant ∧ name ++ [';'] <+: text := by
  unfold referenceAhead? at found
  obtain ⟨longer, resolved⟩ := Option.ite_none_right_eq_some.mp found
  obtain ⟨_, refers, same⟩ := Option.map_eq_some_iff.mp resolved
  cases same
  refine ⟨_, reference?_eq_some_iff.mp refers, ?_⟩
  have whole : text.takeWhile (· ≠ ';') ++ text.dropWhile (· ≠ ';') = text :=
    List.takeWhile_append_dropWhile
  cases behind : text.dropWhile (· ≠ ';') with
  | nil =>
      rw [behind, List.append_nil] at whole
      exact absurd longer (Nat.not_lt_of_ge (Nat.le_of_eq (congrArg List.length whole.symm)))
  | cons first after =>
      have stopped := List.head?_dropWhile_not (fun c => decide (c ≠ ';')) text
      rw [behind] at stopped whole
      obtain rfl : first = ';' := by simpa using stopped
      exact ⟨after, by rw [List.append_assoc]; exact whole⟩

theorem decodeEntities_of_refers (refers : RefersLoosely name meant) (rest : List Char) :
    decodeEntities (referenceText name ++ rest) = meant :: decodeEntities rest := by
  have decoded := decodeEntities_reference refers.not_mem (reference?_eq_some_iff.mpr refers) rest
  rw [referenceText, List.append_assoc]
  exact decoded

/-- A character that starts no reference stays, also an ampersand. -/
theorem decodeEntities_of_plain
    (plain : ∀ name meant, RefersLoosely name meant → ¬ referenceText name <+: c :: rest) :
    decodeEntities (c :: rest) = c :: decodeEntities rest := by
  by_cases ampersand : c = '&'
  · subst ampersand
    unfold decodeEntities
    rw [decodeAfter, if_pos rfl]
    cases ahead : referenceAhead? rest with
    | none => rfl
    | some found =>
        obtain ⟨name, refers, starts⟩ := refers_of_referenceAhead? ahead
        exact absurd ((List.prefix_cons_inj '&').mpr starts) (plain name found.1 refers)
  · exact decodeEntities_cons ampersand rest

theorem Decodes.decodeEntities_eq (decodes : Decodes RefersLoosely text decoded) :
    decodeEntities text = decoded := by
  induction decodes with
  | done => rfl
  | reference refers _ inductionHypothesis =>
      rw [decodeEntities_of_refers refers, inductionHypothesis]
  | plain starts _ inductionHypothesis =>
      rw [decodeEntities_of_plain starts, inductionHypothesis]

/-- Every text is decoded. The text behind a reference, or behind a plain character, is shorter. -/
theorem decodes_decodeEntities (text : List Char) : Decodes RefersLoosely text (decodeEntities text) := by
  induction bound : text.length using Nat.strong_induction_on generalizing text with
  | _ length inductionHypothesis =>
      cases text with
      | nil => exact .done
      | cons c rest =>
          by_cases starts : ∃ name meant, RefersLoosely name meant ∧ referenceText name <+: c :: rest
          · obtain ⟨name, meant, refers, after, same⟩ := starts
            have shorter : after.length < length := by
              rw [← bound, ← same, referenceText]
              simp
              omega
            rw [← same, decodeEntities_of_refers refers]
            exact .reference refers (inductionHypothesis _ shorter after rfl)
          · have plain : ∀ name meant, RefersLoosely name meant → ¬ referenceText name <+: c :: rest :=
              fun name meant refers prefixed => starts ⟨name, meant, refers, prefixed⟩
            have shorter : rest.length < length := bound ▸ Nat.lt_succ_self rest.length
            rw [decodeEntities_of_plain plain]
            exact .plain plain (inductionHypothesis _ shorter rest rfl)

theorem decodes_iff : Decodes RefersLoosely text decoded ↔ decodeEntities text = decoded := by
  constructor
  · exact Decodes.decodeEntities_eq
  · rintro rfl
    exact decodes_decodeEntities text

/-- Only references that occur in a text matter to its decoding. -/
theorem Decodes.congr (decodes : Decodes refers text decoded)
    (same : ∀ name meant, referenceText name <:+: text → (refers name meant ↔ weaker name meant)) :
    Decodes weaker text decoded := by
  induction decodes with
  | done => exact .done
  | @reference name rest decoded meant known _ inductionHypothesis =>
      refine .reference ((same name meant (List.prefix_append _ _).isInfix).mp known)
        (inductionHypothesis fun other meant inside => same other meant ?_)
      exact inside.trans (List.suffix_append _ _).isInfix
  | @plain c rest decoded starts _ inductionHypothesis =>
      refine .plain (fun name meant known prefixed => ?_)
        (inductionHypothesis fun other meant inside => same other meant ?_)
      · exact starts name meant ((same name meant prefixed.isInfix).mpr known) prefixed
      · exact inside.trans (List.suffix_cons _ _).isInfix

/-- A text without references is decoded to itself, and to nothing else. -/
theorem decodes_iff_of_free (free : ∀ name meant, refers name meant → ¬ referenceText name <:+: text) :
    Decodes refers text decoded ↔ decoded = text := by
  constructor
  · intro decodes
    induction decodes with
    | done => rfl
    | reference known _ _ => exact absurd (List.prefix_append _ _).isInfix (free _ _ known)
    | plain _ _ inductionHypothesis =>
        rw [inductionHypothesis fun name meant known inside =>
          free name meant known (inside.trans (List.suffix_cons _ _).isInfix)]
  · rintro rfl
    induction decoded with
    | nil => exact .done
    | cons c rest inductionHypothesis =>
        refine .plain (fun name meant known prefixed => free name meant known prefixed.isInfix)
          (inductionHypothesis fun name meant known inside => ?_)
        exact free name meant known (inside.trans (List.suffix_cons c rest).isInfix)

/-- Decoding follows the references from left to right, and everything else stays. The number in a reference may
also have a plus sign. A text in which no number has one is decoded by the references that have none. -/
theorem decoding_follows_references (text decoded : List Char) :
    (Decodes RefersLoosely text decoded ↔ decodeEntities text = decoded) ∧
    ((∀ name meant, Numbers ['+'] name meant → ¬ referenceText name <:+: text) →
      (Decodes Refers text decoded ↔ decodeEntities text = decoded)) := by
  refine ⟨decodes_iff, fun unsigned => ?_⟩
  have same : ∀ name meant, referenceText name <:+: text → (Refers name meant ↔ RefersLoosely name meant) := by
    intro name meant inside
    constructor
    · exact Or.inl
    · exact fun refers => refers.resolve_right fun signed => unsigned name meant signed inside
  rw [← decodes_iff]
  exact ⟨fun decodes => decodes.congr same,
    fun decodes => decodes.congr fun name meant inside => (same name meant inside).symm⟩

/-- Named and numeric references are decoded, but neither what they make nor what only looks like one. -/
theorem decodes_mixed_references :
    let text := "&amp;lt; &#65;&#x42; & &#xd800; &unknown;".toList
    (∀ name meant, Numbers ['+'] name meant → ¬ referenceText name <:+: text) ∧
      Decodes Refers text "&lt; AB & &#xd800; &unknown;".toList := by
  intro text
  have unsigned : ∀ name meant, Numbers ['+'] name meant → ¬ referenceText name <:+: text := by
    rintro _ _ ⟨_, _, _⟩ inside
    have sign : '+' ∈ text := inside.subset (by simp [referenceText])
    exact absurd sign (by decide)
  exact ⟨unsigned, ((decoding_follows_references text _).2 unsigned).mpr (by decide)⟩

/-- A number with a plus sign is none of the references, but it is decoded like one. -/
theorem signed_number_decoded :
    decodeEntities "&#+65;".toList = ['A'] ∧ Decodes Refers "&#+65;".toList "&#+65;".toList ∧
      ¬ Decodes Refers "&#+65;".toList ['A'] := by
  have free : ∀ name meant, Refers name meant → ¬ referenceText name <:+: "&#+65;".toList := by
    intro name meant refers inside
    have starts : name ++ [';'] <+: "#+65;".toList := by
      simpa [referenceText, List.infix_cons_iff] using inside
    obtain ⟨after, same⟩ := starts
    have before : ∀ c ∈ name, decide (c ≠ ';') = true := fun c member =>
      decide_eq_true fun semicolon => RefersLoosely.not_mem (Or.inl refers) (semicolon ▸ member)
    have taken := congrArg (List.takeWhile (· ≠ ';')) same
    rw [List.append_assoc, List.takeWhile_append_of_pos before] at taken
    have whole : name = "#+65".toList := by simpa using taken
    exact refers.unsigned (whole ▸ by decide)
  have itself : Decodes Refers "&#+65;".toList "&#+65;".toList := (decodes_iff_of_free free).mpr rfl
  refine ⟨by decide, itself, fun decodes => ?_⟩
  exact absurd ((decodes_iff_of_free free).mp decodes) (by decide)

end LiveMarkup.Text
