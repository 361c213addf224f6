import LiveMarkup.Markup.Basic
import LiveMarkup.Markup.Progress
import LiveMarkup.Proofs.References

/-
This file shows that the scanner cuts written markup back into the tokens it was written from.
-/

namespace LiveMarkup

namespace Reader

variable {A : Type} {item : Reader A}

/-- More repetitions than characters make no difference. -/
theorem repeated_of_le (progress : MakesProgress item) {limit : Nat} :
    ∀ {text : List Char}, text.length ≤ limit → repeated item limit text = many item text := by
  have general : ∀ (first second : Nat) (text : List Char), text.length ≤ first →
      text.length ≤ second → repeated item first text = repeated item second text := by
    intro first
    induction first with
    | zero =>
        intro second text empty _
        have none : item text = none := by
          cases found : item text with
          | none => rfl
          | some result =>
              have shorter := progress text result.1 result.2 found
              omega
        cases second with
        | zero => rfl
        | succ second => simp only [repeated, none]
    | succ first inductionHypothesis =>
        intro second text short enough
        cases found : item text with
        | none => cases second <;> simp only [repeated, found]
        | some result =>
            have shorter : result.2.length < text.length := progress text result.1 result.2 found
            obtain ⟨second, rfl⟩ : ∃ fewer, second = fewer + 1 := ⟨second - 1, by omega⟩
            simp only [repeated, found]
            rw [inductionHypothesis second result.2 (by omega) (by omega)]
  intro text short
  exact general limit text.length text short (Nat.le_refl _)

theorem many_of_some (progress : MakesProgress item) {text rest : List Char} {value : A}
    (found : item text = some (value, rest)) :
    many item text = (value :: (many item rest).1, (many item rest).2) := by
  have shorter := progress text value rest found
  obtain ⟨limit, same⟩ : ∃ limit, text.length = limit + 1 := ⟨text.length - 1, by omega⟩
  rw [many, same]
  simp only [repeated, found]
  rw [repeated_of_le progress (by omega)]

theorem many_of_none {text : List Char} (stuck : item text = none) : many item text = ([], text) := by
  unfold many
  cases text.length <;> simp only [repeated, stuck]

/-- What holds of each thing that is read holds of all repetitions. -/
theorem forall_mem_many {holds : A → Prop}
    (each : ∀ text value rest, item text = some (value, rest) → holds value) (text : List Char) :
    ∀ value ∈ (many item text).1, holds value := by
  have general : ∀ (limit : Nat) (text : List Char),
      ∀ value ∈ (repeated item limit text).1, holds value := by
    intro limit
    induction limit with
    | zero =>
        intro text value member
        cases member
    | succ limit inductionHypothesis =>
        intro text value member
        cases found : item text with
        | none => simp [repeated, found] at member
        | some result =>
            simp only [repeated, found] at member
            rcases List.mem_cons.mp member with here | later
            · exact here ▸ each text result.1 result.2 found
            · exact inductionHypothesis result.2 value later
  exact general text.length text

end Reader

namespace Token

/-- A tag is a letter with letters, digits and dashes after it. -/
def IsTag (tag : List Char) : Prop :=
  ∃ first rest, tag = first :: rest ∧ first.isAlpha = true ∧ ∀ c ∈ rest, isTagChar c = true

/-- A name of an attribute has no space in it and none of the signs that end it. -/
def IsName (name : List Char) : Prop := name ≠ [] ∧ ∀ c ∈ name, isNameChar c = true

instance (name : List Char) : Decidable (IsName name) :=
  decidable_of_iff (name ≠ [] ∧ name.all isNameChar) (by simp [IsName])

/-- A comment goes up to the first end, so its body contains none. -/
def IsBody (body : List Char) : Prop := ¬ ['-', '-', '>'] <:+: body

/-- A run goes up to the first character of another class. -/
theorem span_append {inClass : Char → Bool} {run rest : List Char}
    (inside : ∀ c ∈ run, inClass c = true) (stops : ∀ c ∈ rest.head?, inClass c = false) :
    (run ++ rest).takeWhile inClass = run ∧ (run ++ rest).dropWhile inClass = rest := by
  rw [List.takeWhile_append_of_pos inside, List.dropWhile_append_of_pos inside]
  cases rest with
  | nil => exact ⟨List.append_nil run, rfl⟩
  | cons c tail =>
      have outside := stops c rfl
      constructor
      · rw [List.takeWhile_cons_of_neg (by simp [outside]), List.append_nil]
      · exact List.dropWhile_cons_of_neg (by simp [outside])

theorem readRun_append {inClass : Char → Bool} {run rest : List Char} (present : run ≠ [])
    (inside : ∀ c ∈ run, inClass c = true) (stops : ∀ c ∈ rest.head?, inClass c = false) :
    readRun inClass (run ++ rest) = some (run, rest) := by
  obtain ⟨taken, dropped⟩ := span_append inside stops
  simp only [readRun, taken, dropped]
  simp [present]

theorem readTag_append {tag rest : List Char} (isTag : IsTag tag)
    (stops : ∀ c ∈ rest.head?, isTagChar c = false) : readTag (tag ++ rest) = some (tag, rest) := by
  obtain ⟨first, more, rfl, letter, inside⟩ := isTag
  obtain ⟨taken, dropped⟩ := span_append inside stops
  simp only [readTag, List.cons_append, letter, if_true, taken, dropped]

theorem readQuoted_append {value : List Char} {quote : Char} (plain : quote ∉ value)
    (rest : List Char) : readQuoted quote (value ++ quote :: rest) = some (value, rest) := by
  have inside : ∀ c ∈ value, decide (c ≠ quote) = true :=
    fun c member => decide_eq_true fun same => plain (same ▸ member)
  have stops : ∀ c ∈ (quote :: rest).head?, decide (c ≠ quote) = false := by simp
  obtain ⟨taken, dropped⟩ := span_append inside stops
  simp only [readQuoted, taken, dropped]

/-- The first end of a comment is the one that was written. -/
theorem commentBody_append {body : List Char} (isBody : IsBody body) (rest : List Char) :
    commentBody (body ++ '-' :: '-' :: '>' :: rest) = some (body, rest) := by
  induction body with
  | nil => rfl
  | cons c tail inductionHypothesis =>
      have later := inductionHypothesis fun inside => isBody (inside.trans (List.suffix_cons c tail).isInfix)
      rw [List.cons_append, commentBody, later]
      · rfl
      · -- An end that starts here would lie inside the body.
        intro ending first same
        match tail with
        | [] => simp at same
        | [second] => simp at same
        | second :: third :: more =>
            simp only [List.cons_append, List.cons.injEq] at same
            obtain ⟨rfl, rfl, -⟩ := same
            exact isBody ⟨[], more, by rw [first]; rfl⟩

/-! Each kind of token is read back as it was written. -/

theorem read_comment {body : List Char} (isBody : IsBody body) (rest : List Char) :
    read ('<' :: '!' :: '-' :: '-' :: body ++ '-' :: '-' :: '>' :: rest) =
      some (.comment body, rest) := by
  have found := commentBody_append isBody rest
  simp only [read, readComment, List.cons_append, found, Option.map_some, Option.orElse_some]

/-- Neither a comment nor a declaration starts without an exclamation mark. -/
theorem read_of_ne {c : Char} (other : c ≠ '!') (rest : List Char) :
    read ('<' :: c :: rest) = (readClosing ('<' :: c :: rest)).orElse fun _ =>
      (readOpening ('<' :: c :: rest)).orElse fun _ => readText ('<' :: c :: rest) := by
  have noComment : readComment ('<' :: c :: rest) = none := by
    unfold readComment
    split
    · rename_i same
      exact absurd (by injection same with _ same; injection same) other
    · rfl
  have noDeclaration : readDeclaration ('<' :: c :: rest) = none := by
    unfold readDeclaration
    split
    · rename_i same
      exact absurd (by injection same with _ same; injection same) other
    · rfl
  rw [read, noComment, noDeclaration, Option.orElse_none, Option.orElse_none]

theorem read_closing {tag : List Char} (isTag : IsTag tag) (rest : List Char) :
    read ('<' :: '/' :: tag ++ '>' :: rest) = some (.closing tag, rest) := by
  have found : readTag (tag ++ '>' :: rest) = some (tag, '>' :: rest) :=
    readTag_append isTag (by simp [isTagChar])
  rw [List.cons_append, List.cons_append, read_of_ne (by decide)]
  simp only [readClosing, found, Option.bind_some]
  rfl

theorem read_text {run rest : List Char} (present : run ≠ []) (plain : '<' ∉ run)
    (stops : ∀ c ∈ rest.head?, c = '<') : read (run ++ rest) = some (.text run, rest) := by
  have inside : ∀ c ∈ run, decide (c ≠ '<') = true :=
    fun c member => decide_eq_true fun same => plain (same ▸ member)
  have ends : ∀ c ∈ rest.head?, decide (c ≠ '<') = false := fun c member => by simp [stops c member]
  have found := readRun_append present inside ends
  obtain ⟨c, more, rfl⟩ := List.exists_cons_of_ne_nil present
  have other : c ≠ '<' := fun same => plain (same ▸ List.mem_cons_self)
  have noTag : ∀ tail, c :: (more ++ rest) ≠ '<' :: tail := fun tail same => other (List.cons.inj same).1
  have reads : readText (c :: more ++ rest) = some (.text (c :: more), rest) := by
    unfold readText
    rw [found]
    split
    · rename_i tail same
      exact absurd same (noTag tail)
    · rfl
  simp [read, readComment, readDeclaration, readClosing, readOpening, other, ← reads]

/-- The scanner keeps a value as it is written. -/
def writtenAttribute (entry : String × String) : List Char × Option (List Char) :=
  (entry.1.toList, if entry.2 = "" then none else some (Text.escapeAttribute entry.2.toList))

/-- An attribute is over where a tag is closed or the next name starts after a space. -/
def Closes (rest : List Char) : Prop :=
  ∃ c tail, (c = '>' ∧ rest = c :: tail) ∨ (isNameChar c = true ∧ rest = ' ' :: c :: tail)

theorem isSpace_of_isNameChar {c : Char} (inName : isNameChar c = true) : isSpace c = false := by
  cases space : isSpace c with
  | false => rfl
  | true => simp [isNameChar, space] at inName

theorem Closes.readAssignment {rest : List Char} (closes : Closes rest) :
    readAssignment rest = none := by
  obtain ⟨c, tail, ⟨rfl, rfl⟩ | ⟨inName, rfl⟩⟩ := closes
  · rfl
  · have other : c ≠ '=' := by
      rintro rfl
      exact absurd inName (by decide)
    have skipped : skipSpace (' ' :: c :: tail) = c :: tail := by
      rw [skipSpace, List.dropWhile_cons_of_pos (by decide),
        List.dropWhile_cons_of_neg (by simp [isSpace_of_isNameChar inName])]
    unfold Token.readAssignment
    rw [skipped]
    split
    · rename_i same
      exact absurd (List.cons.inj same).1 other
    · rfl

theorem Closes.stops {rest : List Char} (closes : Closes rest) :
    ∀ c ∈ rest.head?, isNameChar c = false ∧ isTagChar c = false := by
  obtain ⟨c, tail, ⟨rfl, rfl⟩ | ⟨-, rfl⟩⟩ := closes <;> simp [isNameChar, isTagChar, isSpace]

theorem readAttribute_append {entry : String × String} (isName : IsName entry.1.toList)
    {rest : List Char} (closes : Closes rest) :
    readAttribute (Markup.printAttribute entry ++ rest) = some (writtenAttribute entry, rest) := by
  obtain ⟨name, value⟩ := entry
  obtain ⟨present, inside⟩ := isName
  have spaced : ∀ rest, readRun isSpace (' ' :: name.toList ++ rest) = some ([' '], name.toList ++ rest) := by
    intro rest
    obtain ⟨first, more, same⟩ := List.exists_cons_of_ne_nil present
    have start : isSpace first = false :=
      isSpace_of_isNameChar (inside first (same ▸ List.mem_cons_self))
    have stops : ∀ c ∈ (name.toList ++ rest).head?, isSpace c = false := by
      dsimp only at same
      simp [same, start]
    exact readRun_append (List.cons_ne_nil ' ' []) (by simp [isSpace]) stops
  unfold Markup.printAttribute writtenAttribute
  by_cases empty : value = ""
  · -- A bare name ends where the next attribute or the end of the tag begins.
    have named := readRun_append present inside fun c member => (closes.stops c member).1
    simp only [empty, if_true, List.append_nil]
    simp only [readAttribute, spaced, Option.bind_some, named, Option.map_some, closes.readAssignment]
  · have named : readRun isNameChar (name.toList ++
          ('=' :: '"' :: Text.escapeAttribute value.toList ++ '"' :: rest)) =
        some (name.toList, '=' :: '"' :: Text.escapeAttribute value.toList ++ '"' :: rest) :=
      readRun_append present inside (by simp [isNameChar])
    have quoted := readQuoted_append (Text.not_mem_escapeAttribute value.toList) rest
    have assigned : readAssignment ('=' :: '"' :: Text.escapeAttribute value.toList ++ '"' :: rest) =
        some (Text.escapeAttribute value.toList, rest) := quoted
    simp only [empty, if_false, List.append_assoc, List.cons_append, List.nil_append] at named assigned ⊢
    have spaced := spaced ('=' :: '"' :: (Text.escapeAttribute value.toList ++ '"' :: rest))
    rw [List.cons_append] at spaced
    simp only [readAttribute, spaced, Option.bind_some, named, Option.map_some, assigned]

/-- The end of a tag closes its attributes, and so does the next attribute. -/
theorem closes_printed {attributes : List (String × String)}
    (names : ∀ entry ∈ attributes, IsName entry.1.toList) (rest : List Char) :
    Closes (attributes.flatMap Markup.printAttribute ++ '>' :: rest) := by
  cases attributes with
  | nil => exact ⟨'>', rest, Or.inl ⟨rfl, rfl⟩⟩
  | cons entry others =>
      obtain ⟨present, inside⟩ := names entry List.mem_cons_self
      obtain ⟨first, more, same⟩ := List.exists_cons_of_ne_nil present
      have starts : ∃ tail, (entry :: others).flatMap Markup.printAttribute ++ '>' :: rest =
          ' ' :: first :: tail := by
        rw [List.flatMap_cons, Markup.printAttribute, same]
        exact ⟨_, rfl⟩
      obtain ⟨tail, written⟩ := starts
      exact ⟨first, tail, Or.inr ⟨inside first (same ▸ List.mem_cons_self), written⟩⟩

theorem many_readAttribute {attributes : List (String × String)}
    (names : ∀ entry ∈ attributes, IsName entry.1.toList) (rest : List Char) :
    Reader.many readAttribute (attributes.flatMap Markup.printAttribute ++ '>' :: rest) =
      (attributes.map writtenAttribute, '>' :: rest) := by
  induction attributes with
  | nil => exact Reader.many_of_none rfl
  | cons entry others inductionHypothesis =>
      have others_names := fun other member => names other (List.mem_cons_of_mem entry member)
      have here := readAttribute_append (names entry List.mem_cons_self)
        (closes_printed others_names rest)
      rw [List.flatMap_cons, List.append_assoc, Reader.many_of_some makesProgress_readAttribute here,
        inductionHypothesis others_names]
      rfl

theorem read_opening {tag : String} (isTag : IsTag tag.toList) {attributes : List (String × String)}
    (names : ∀ entry ∈ attributes, IsName entry.1.toList) (rest : List Char) :
    read (Markup.printOpening tag attributes ++ rest) =
      some (.opening tag.toList (attributes.map writtenAttribute) false, rest) := by
  have tagged := readTag_append isTag fun c member => ((closes_printed names rest).stops c member).2
  have attributed := many_readAttribute names rest
  obtain ⟨first, more, same, letter, inside⟩ := isTag
  have noMark : first ≠ '!' := by
    rintro rfl
    exact absurd letter (by decide)
  have noSlash : first ≠ '/' := by
    rintro rfl
    exact absurd letter (by decide)
  have written : Markup.printOpening tag attributes ++ rest =
      '<' :: (tag.toList ++ (attributes.flatMap Markup.printAttribute ++ '>' :: rest)) := by
    simp [Markup.printOpening]
  have noClosing : ∀ tail, readClosing ('<' :: first :: tail) = none := by
    intro tail
    unfold readClosing
    split
    · rename_i starts
      exact absurd (by injection starts with _ starts; injection starts) noSlash
    · rfl
  rw [written, same, List.cons_append, read_of_ne noMark, noClosing, Option.orElse_none,
    ← List.cons_append, ← same]
  have found : readOpening ('<' :: (tag.toList ++
      (attributes.flatMap Markup.printAttribute ++ '>' :: rest))) =
      some (.opening tag.toList (attributes.map writtenAttribute) false, rest) := by
    simp only [readOpening, tagged, Option.bind_some, attributed]
    rfl
  rw [found, Option.orElse_some]

theorem scan_nil : scan [] = [] := rfl

theorem scan_of_read {text rest : List Char} {token : Token} (found : read text = some (token, rest)) :
    scan text = token :: scan rest := by
  rw [scan, Reader.many_of_some makesProgress_read found]
  rfl

/-! Whatever the template, the scanner gives tokens of these forms only. -/

/-- A token has a legal tag and legal names, a body without an end, or some text. -/
def Legal : Token → Prop
  | .comment body => IsBody body
  | .declaration => True
  | .closing tag => IsTag tag
  | .opening tag attributes _ => IsTag tag ∧ ∀ entry ∈ attributes, IsName entry.1
  | .text content => content ≠ []

theorem commentBody_eq {text body rest : List Char} (found : commentBody text = some (body, rest)) :
    text = body ++ '-' :: '-' :: '>' :: rest := by
  fun_induction commentBody text generalizing body rest with
  | case1 ending =>
      cases found
      rfl
  | case2 c tail _ inductionHypothesis =>
      obtain ⟨result, inner, same⟩ := Option.map_eq_some_iff.mp found
      cases same
      rw [List.cons_append, ← inductionHypothesis inner]
  | case3 => cases found

theorem isBody_of_commentBody {text body rest : List Char}
    (found : commentBody text = some (body, rest)) : IsBody body := by
  fun_induction commentBody text generalizing body rest with
  | case1 ending =>
      cases found
      exact fun inside => absurd (List.infix_nil.mp inside) (List.cons_ne_nil _ _)
  | case2 c tail noEnd inductionHypothesis =>
      obtain ⟨⟨inner, _⟩, here, same⟩ := Option.map_eq_some_iff.mp found
      cases same
      intro inside
      rcases List.infix_cons_iff.mp inside with starts | later
      · -- An end at the start of the body would have been taken at once.
        obtain ⟨more, whole⟩ := starts
        have start : c = '-' ∧ tail = '-' :: '>' :: (more ++ '-' :: '-' :: '>' :: rest) := by
          injection whole with first others
          refine ⟨first.symm, ?_⟩
          rw [commentBody_eq here, ← others]
          rfl
        exact noEnd _ start.1 start.2
      · exact inductionHypothesis here later
  | case3 => cases found

theorem isTag_of_readTag {text tag rest : List Char} (found : readTag text = some (tag, rest)) :
    IsTag tag := by
  unfold readTag at found
  split at found
  · rename_i first tail
    split at found
    · rename_i letter
      cases found
      exact ⟨first, _, rfl, letter, List.all_eq_true.mp List.all_takeWhile⟩
    · cases found
  · cases found

theorem forall_of_readRun {inClass : Char → Bool} {text run rest : List Char}
    (found : readRun inClass text = some (run, rest)) : run ≠ [] ∧ ∀ c ∈ run, inClass c = true := by
  simp only [readRun] at found
  split at found
  · cases found
  · rename_i filled
    cases found
    exact ⟨by simpa using filled, List.all_eq_true.mp List.all_takeWhile⟩

theorem isName_of_readAttribute {text rest : List Char} {entry : List Char × Option (List Char)}
    (found : readAttribute text = some (entry, rest)) : IsName entry.1 := by
  obtain ⟨⟨_, afterSpace⟩, -, next⟩ := Option.bind_eq_some_iff.mp found
  obtain ⟨⟨name, afterName⟩, named, last⟩ := Option.map_eq_some_iff.mp next
  have isName : IsName name := forall_of_readRun named
  cases assigned : readAssignment afterName with
  | none =>
      simp only [assigned] at last
      cases last
      exact isName
  | some result =>
      simp only [assigned] at last
      cases last
      exact isName

theorem legal_of_readOpening {text rest : List Char} {token : Token}
    (found : readOpening text = some (token, rest)) : token.Legal := by
  unfold readOpening at found
  split at found
  · obtain ⟨⟨tag, afterTag⟩, tagged, next⟩ := Option.bind_eq_some_iff.mp found
    have legal : IsTag tag ∧ ∀ entry ∈ (Reader.many readAttribute afterTag).1, IsName entry.1 :=
      ⟨isTag_of_readTag tagged,
        Reader.forall_mem_many (fun _ _ _ named => isName_of_readAttribute named) afterTag⟩
    dsimp only at next
    split at next
    · cases next
      exact legal
    · cases next
      exact legal
    · cases next
  · cases found

theorem legal_of_read {text rest : List Char} {token : Token} (found : read text = some (token, rest)) :
    token.Legal := by
  simp only [read, Option.orElse_eq_or, Option.or_eq_some_iff] at found
  rcases found with comment | ⟨-, declaration | ⟨-, closing | ⟨-, opening | ⟨-, reads⟩⟩⟩⟩
  · unfold readComment at comment
    split at comment
    · obtain ⟨⟨body, _⟩, inner, same⟩ := Option.map_eq_some_iff.mp comment
      cases same
      exact isBody_of_commentBody inner
    · cases comment
  · unfold readDeclaration at declaration
    split at declaration
    · split at declaration
      · cases declaration
        trivial
      · cases declaration
    · cases declaration
  · unfold readClosing at closing
    split at closing
    · obtain ⟨⟨tag, afterTag⟩, tagged, next⟩ := Option.bind_eq_some_iff.mp closing
      dsimp only at next
      split at next
      · cases next
        exact isTag_of_readTag tagged
      · cases next
    · cases closing
  · exact legal_of_readOpening opening
  · unfold readText at reads
    split at reads
    · cases reads
      exact List.cons_ne_nil _ _
    · obtain ⟨⟨run, _⟩, inner, same⟩ := Option.map_eq_some_iff.mp reads
      cases same
      exact (forall_of_readRun inner).1

theorem legal_of_mem_scan (text : List Char) : ∀ token ∈ scan text, token.Legal :=
  Reader.forall_mem_many (fun _ _ _ found => legal_of_read found) text

end Token

end LiveMarkup
