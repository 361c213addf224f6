import LiveMarkup.Proofs.Chains
import LiveMarkup.Proofs.Scanning

/-
This file says where the tokens of a template stand, and shows that every text is cut into tokens in one way:
at each place stands the first kind of token that fits.
-/

namespace LiveMarkup.Token

def IsSpaces (text : List Char) : Prop := ∀ c ∈ text, isSpace c = true

/-- A value stands in front of a rest. Without quotes it goes as far as it can. -/
inductive ValueAt (value : List Char) : List Char → List Char → Prop where
  | quoted {quote : Char} (isQuote : quote = '"' ∨ quote = '\'') (plain : quote ∉ value) (rest : List Char) :
      ValueAt value (quote :: (value ++ quote :: rest)) rest
  | bare {rest : List Char} (present : value ≠ []) (inside : ∀ c ∈ value, isBareChar c = true)
      (stops : ∀ c ∈ rest.head?, isBareChar c = false) : ValueAt value (value ++ rest) rest

/-- An attribute stands after space, with an equals sign before its value if there is one. -/
inductive AttributeAt (name : List Char) : Option (List Char) → List Char → List Char → Prop where
  | named {space : List Char} (present : space ≠ []) (isSpaces : IsSpaces space) (isName : IsName name)
      (rest : List Char) : AttributeAt name none (space ++ (name ++ rest)) rest
  | assigned {space before after value text rest : List Char} (present : space ≠ [])
      (isSpaces : IsSpaces space) (isName : IsName name) (spaceBefore : IsSpaces before)
      (spaceAfter : IsSpaces after) (valued : ValueAt value text rest) :
      AttributeAt name (some value) (space ++ (name ++ (before ++ '=' :: (after ++ text)))) rest

inductive AttributesAt : List (List Char × Option (List Char)) → List Char → List Char → Prop where
  | nil (rest : List Char) : AttributesAt [] rest rest
  | cons {name : List Char} {value : Option (List Char)} {text middle rest : List Char}
      {others : List (List Char × Option (List Char))} (first : AttributeAt name value text middle)
      (later : AttributesAt others middle rest) : AttributesAt ((name, value) :: others) text rest

/-- The end of a tag may have space before it, and a slash. -/
def endOfTag (space : List Char) (selfClosing : Bool) (rest : List Char) : List Char :=
  space ++ (if selfClosing then '/' :: '>' :: rest else '>' :: rest)

/-- A token stands in front of a rest. -/
inductive At : Token → List Char → List Char → Prop where
  | comment {body : List Char} (isBody : IsBody body) (rest : List Char) :
      At (.comment body) ('<' :: '!' :: '-' :: '-' :: (body ++ '-' :: '-' :: '>' :: rest)) rest
  | declaration {body : List Char} (unclosed : '>' ∉ body) (rest : List Char) :
      At .declaration ('<' :: '!' :: (body ++ '>' :: rest)) rest
  | closing {tag space : List Char} (isTag : IsTag tag) (isSpaces : IsSpaces space) (rest : List Char) :
      At (.closing tag) ('<' :: '/' :: (tag ++ (space ++ '>' :: rest))) rest
  | opening {tag text space : List Char} {attributes : List (List Char × Option (List Char))}
      {selfClosing : Bool} {rest : List Char} (isTag : IsTag tag) (isSpaces : IsSpaces space)
      (attributed : AttributesAt attributes text (endOfTag space selfClosing rest)) :
      At (.opening tag attributes selfClosing) ('<' :: (tag ++ text)) rest
  | text {content rest : List Char} (present : content ≠ []) (plain : '<' ∉ content)
      (stops : ∀ c ∈ rest.head?, c = '<') : At (.text content) (content ++ rest) rest
  | angle (rest : List Char) : At (.text ['<']) ('<' :: rest) rest

/-- The kinds of tokens are tried in this order, text last. -/
def rank : Token → Nat
  | .comment _ => 0
  | .declaration => 1
  | .closing _ => 2
  | .opening .. => 3
  | .text _ => 4

/-- A token is the first that fits if no token of an earlier kind stands at the same place. -/
def First (token : Token) (text : List Char) : Prop :=
  ∀ other rest, At other text rest → token.rank ≤ other.rank

/-- A text is cut into tokens, each with the characters that it was read from. -/
inductive Cuts : List Char → List (Token × List Char) → Prop where
  | done : Cuts [] []
  | next {token : Token} {chars rest : List Char} {others : List (Token × List Char)}
      (stands : At token (chars ++ rest) rest) (first : First token (chars ++ rest)) (later : Cuts rest others) :
      Cuts (chars ++ rest) ((token, chars) :: others)

/-! Where a token stands, its reader reads it. -/

theorem skipSpace_append {space : List Char} (isSpaces : IsSpaces space) {rest : List Char}
    (stops : ∀ c ∈ rest.head?, isSpace c = false) : skipSpace (space ++ rest) = rest :=
  (span_append isSpaces stops).2

theorem ValueAt.read {value text rest : List Char} (valued : ValueAt value text rest) :
    readValue text = some (value, rest) := by
  cases valued with
  | quoted isQuote plain =>
      rcases isQuote with rfl | rfl
      · exact readQuoted_append plain rest
      · exact readQuoted_append plain rest
  | bare present inside stops =>
      obtain ⟨first, more, rfl⟩ := List.exists_cons_of_ne_nil present
      have start := inside first List.mem_cons_self
      have reads : readRun isBareChar (first :: more ++ rest) = some (first :: more, rest) :=
        readRun_append present inside stops
      rw [← reads]
      unfold readValue
      split
      · rename_i same
        rw [(List.cons.inj same).1] at start
        cases start
      · rename_i same
        rw [(List.cons.inj same).1] at start
        cases start
      · rfl

/-- Behind a tag, a name or a value comes the next attribute or the end of the tag. -/
def Goes (text : List Char) : Prop :=
  ∃ space c rest, IsSpaces space ∧ (space ≠ [] ∧ isNameChar c = true ∨ c = '/' ∨ c = '>') ∧
    text = space ++ c :: rest

theorem not_isSpace_of_sign {c : Char} (sign : isNameChar c = true ∨ c = '/' ∨ c = '>') :
    isSpace c = false := by
  rcases sign with inName | rfl | rfl
  · exact isSpace_of_isNameChar inName
  · rfl
  · rfl

/-- Neither a name nor a tag goes on there. -/
theorem Goes.stops {text : List Char} (goes : Goes text) :
    ∀ c ∈ text.head?, isNameChar c = false ∧ isTagChar c = false := by
  obtain ⟨space, sign, rest, isSpaces, follows, rfl⟩ := goes
  cases space with
  | nil =>
      rintro c ⟨⟩
      rcases follows with ⟨present, -⟩ | rfl | rfl
      · exact absurd rfl present
      · decide
      · decide
  | cons first space =>
      rintro c ⟨⟩
      have blank := isSpaces first List.mem_cons_self
      simp only [isSpace, Bool.or_eq_true, beq_iff_eq] at blank
      rcases blank with ((rfl | rfl) | rfl) | rfl <;> decide

/-- No value is assigned there. -/
theorem Goes.readAssignment {text : List Char} (goes : Goes text) : readAssignment text = none := by
  obtain ⟨space, sign, rest, isSpaces, follows, rfl⟩ := goes
  have other : isNameChar sign = true ∨ sign = '/' ∨ sign = '>' := follows.imp_left And.right
  have skipped : skipSpace (space ++ sign :: rest) = sign :: rest :=
    skipSpace_append isSpaces (by simpa using not_isSpace_of_sign other)
  unfold Token.readAssignment
  rw [skipped]
  split
  · rename_i same
    rw [(List.cons.inj same).1] at other
    exact absurd other (by decide)
  · rfl

theorem goes_endOfTag {space : List Char} (isSpaces : IsSpaces space) (selfClosing : Bool) (rest : List Char) :
    Goes (endOfTag space selfClosing rest) := by
  cases selfClosing with
  | true => exact ⟨space, '/', '>' :: rest, isSpaces, Or.inr (Or.inl rfl), rfl⟩
  | false => exact ⟨space, '>', rest, isSpaces, Or.inr (Or.inr rfl), rfl⟩

theorem goes_of_name {space name : List Char} (present : space ≠ []) (isSpaces : IsSpaces space)
    (isName : IsName name) (rest : List Char) : Goes (space ++ (name ++ rest)) := by
  obtain ⟨first, more, rfl⟩ := List.exists_cons_of_ne_nil isName.1
  exact ⟨space, first, more ++ rest, isSpaces, Or.inl ⟨present, isName.2 first List.mem_cons_self⟩, rfl⟩

theorem AttributesAt.goes {attributes : List (List Char × Option (List Char))} {text rest : List Char}
    (attributed : AttributesAt attributes text rest) (goes : Goes rest) : Goes text := by
  cases attributed with
  | nil => exact goes
  | cons first =>
      cases first with
      | named present isSpaces isName => exact goes_of_name present isSpaces isName _
      | assigned present isSpaces isName => exact goes_of_name present isSpaces isName _

theorem AttributeAt.read {name : List Char} {value : Option (List Char)} {text rest : List Char}
    (stands : AttributeAt name value text rest) (goes : Goes rest) :
    readAttribute text = some ((name, value), rest) := by
  have spaced : ∀ {space more : List Char}, space ≠ [] → IsSpaces space → IsName name →
      readRun isSpace (space ++ (name ++ more)) = some (space, name ++ more) := by
    intro space more present isSpaces isName
    obtain ⟨first, others, rfl⟩ := List.exists_cons_of_ne_nil isName.1
    refine readRun_append present isSpaces ?_
    rintro c ⟨⟩
    exact isSpace_of_isNameChar (isName.2 first List.mem_cons_self)
  cases stands with
  | named present isSpaces isName =>
      have named := readRun_append isName.1 isName.2 fun c member => (goes.stops c member).1
      simp only [readAttribute, spaced present isSpaces isName, Option.bind_some, named, Option.map_some,
        goes.readAssignment]
  | @assigned space before after given valueText _ present isSpaces isName spaceBefore spaceAfter valued =>
      have stops : ∀ c ∈ (before ++ '=' :: (after ++ valueText)).head?, isNameChar c = false := by
        cases before with
        | nil =>
            rintro c ⟨⟩
            decide
        | cons first before =>
            rintro c ⟨⟩
            have blank := spaceBefore first List.mem_cons_self
            simp [isNameChar, blank]
      have named := readRun_append isName.1 isName.2 stops
      have starts : ∀ c ∈ valueText.head?, isSpace c = false := by
        cases valued with
        | quoted isQuote =>
            rintro c ⟨⟩
            rcases isQuote with rfl | rfl <;> decide
        | bare filled inside =>
            obtain ⟨first, more, rfl⟩ := List.exists_cons_of_ne_nil filled
            rintro c ⟨⟩
            have bare := inside first List.mem_cons_self
            simp only [isBareChar, Bool.not_eq_true', Bool.or_eq_false_iff] at bare
            exact bare.1.1.1.1.1
      have assigned : readAssignment (before ++ '=' :: (after ++ valueText)) = some (given, rest) := by
        unfold readAssignment
        rw [skipSpace_append spaceBefore (by simp [isSpace])]
        change readValue (skipSpace (after ++ valueText)) = some (given, rest)
        rw [skipSpace_append spaceAfter starts]
        exact valued.read
      simp only [readAttribute, spaced present isSpaces isName, Option.bind_some, named, Option.map_some, assigned]

/-- Attributes are read one by one, up to the end of the tag. -/
theorem AttributesAt.read {attributes : List (List Char × Option (List Char))} {text space rest : List Char}
    {selfClosing : Bool} (isSpaces : IsSpaces space)
    (attributed : AttributesAt attributes text (endOfTag space selfClosing rest)) :
    Reader.many readAttribute text = (attributes, endOfTag space selfClosing rest) := by
  have goes := goes_endOfTag isSpaces selfClosing rest
  have reads : Reader.Reads readAttribute text attributes (endOfTag space selfClosing rest) := by
    generalize endOfTag space selfClosing rest = final at attributed goes ⊢
    induction attributed with
    | nil => exact .done
    | cons first later inductionHypothesis => exact .next (first.read (later.goes goes)) (inductionHypothesis goes)
  have stuck : readAttribute (endOfTag space selfClosing rest) = none := by
    have unnamed : readRun isNameChar (endOfTag [] selfClosing rest) = none := by
      cases selfClosing <;> rfl
    have whole : endOfTag space selfClosing rest = space ++ endOfTag [] selfClosing rest := rfl
    have stops : ∀ c ∈ (endOfTag [] selfClosing rest).head?, isSpace c = false := by
      cases selfClosing <;> simp [endOfTag, isSpace]
    rw [whole]
    cases space with
    | nil => cases selfClosing <;> rfl
    | cons first space =>
        have spaced := readRun_append (List.cons_ne_nil first space) isSpaces stops
        simp only [readAttribute, spaced, Option.bind_some, unnamed, Option.map_none]
  exact Reader.many_of_reads makesProgress_readAttribute reads stuck

/-- Each kind of token has its reader. -/
def readerAt : Nat → Reader Token
  | 0 => readComment
  | 1 => readDeclaration
  | 2 => readClosing
  | 3 => readOpening
  | _ => readText

theorem At.reads {token : Token} {text rest : List Char} (stands : At token text rest) :
    readerAt token.rank text = some (token, rest) := by
  cases stands with
  | comment isBody => simp only [readerAt, rank, readComment, commentBody_append isBody, Option.map_some]
  | @declaration body unclosed =>
      have inside : ∀ c ∈ body, decide (c ≠ '>') = true :=
        fun c member => decide_eq_true fun same => unclosed (same ▸ member)
      have stops : ∀ c ∈ ('>' :: rest).head?, decide (c ≠ '>') = false := by simp
      have dropped := (span_append inside stops).2
      simp only [readerAt, rank, readDeclaration, dropped]
  | @closing tag space isTag isSpaces =>
      have stops : ∀ c ∈ (space ++ '>' :: rest).head?, isTagChar c = false :=
        fun c member => ((goes_endOfTag isSpaces false rest).stops c member).2
      have skipped : skipSpace (space ++ '>' :: rest) = '>' :: rest :=
        skipSpace_append isSpaces (by simp [isSpace])
      simp only [readerAt, rank, readClosing, readTag_append isTag stops, Option.bind_some, skipped]
  | @opening tag _ space attributes selfClosing _ isTag isSpaces attributed =>
      have stops := fun c member => ((attributed.goes (goes_endOfTag isSpaces selfClosing rest)).stops c member).2
      have skipped : skipSpace (endOfTag space selfClosing rest) = endOfTag [] selfClosing rest := by
        refine skipSpace_append isSpaces ?_
        cases selfClosing <;> simp [isSpace]
      simp only [readerAt, rank, readOpening, readTag_append isTag stops, Option.bind_some,
        attributed.read isSpaces, skipped]
      cases selfClosing <;> rfl
  | @text content _ present plain stops =>
      have inside : ∀ c ∈ content, decide (c ≠ '<') = true :=
        fun c member => decide_eq_true fun same => plain (same ▸ member)
      have run : readRun (· ≠ '<') (content ++ rest) = some (content, rest) :=
        readRun_append present inside fun c member => by simp [stops c member]
      obtain ⟨first, more, rfl⟩ := List.exists_cons_of_ne_nil present
      simp only [readerAt, rank]
      unfold readText
      split
      · rename_i same
        rw [List.cons_append] at same
        exact absurd (by rw [(List.cons.inj same).1]; exact List.mem_cons_self) plain
      · rw [run]
        rfl
  | angle => rfl

/-! What a reader reads stands where it was read. -/

theorem spaces_append (text : List Char) : text.takeWhile isSpace ++ skipSpace text = text :=
  List.takeWhile_append_dropWhile

theorem isSpaces_takeWhile (text : List Char) : IsSpaces (text.takeWhile isSpace) :=
  List.all_eq_true.mp List.all_takeWhile

theorem not_of_head?_dropWhile {inClass : Char → Bool} (text : List Char) :
    ∀ c ∈ (text.dropWhile inClass).head?, inClass c = false := by
  intro c member
  have := List.head?_dropWhile_not inClass text
  rw [member] at this
  exact this

theorem readRun_eq {inClass : Char → Bool} {text run rest : List Char}
    (found : readRun inClass text = some (run, rest)) :
    text = run ++ rest ∧ ∀ c ∈ rest.head?, inClass c = false := by
  simp only [readRun] at found
  split at found
  · cases found
  · cases found
    exact ⟨List.takeWhile_append_dropWhile.symm, not_of_head?_dropWhile text⟩

theorem readTag_eq {text tag rest : List Char} (found : readTag text = some (tag, rest)) : text = tag ++ rest := by
  unfold readTag at found
  split at found
  · split at found
    · cases found
      exact congrArg (_ :: ·) List.takeWhile_append_dropWhile.symm
    · cases found
  · cases found

theorem readQuoted_eq {quote : Char} {text value rest : List Char}
    (found : readQuoted quote text = some (value, rest)) : text = value ++ quote :: rest ∧ quote ∉ value := by
  unfold readQuoted at found
  split at found
  · rename_i c ending dropped
    cases found
    have stop : ∀ c ∈ (text.dropWhile (· ≠ quote)).head?, decide (c ≠ quote) = false :=
      not_of_head?_dropWhile text
    rw [dropped] at stop
    obtain rfl : c = quote := by simpa using stop c rfl
    refine ⟨?_, fun member => ?_⟩
    · rw [← dropped]
      exact List.takeWhile_append_dropWhile.symm
    · have inside := List.all_eq_true.mp List.all_takeWhile c member
      simp at inside
  · cases found

theorem valueAt_of_readValue {text value rest : List Char} (found : readValue text = some (value, rest)) :
    ValueAt value text rest := by
  unfold readValue at found
  split at found
  · obtain ⟨rfl, plain⟩ := readQuoted_eq found
    exact .quoted (Or.inl rfl) plain rest
  · obtain ⟨rfl, plain⟩ := readQuoted_eq found
    exact .quoted (Or.inr rfl) plain rest
  · obtain ⟨rfl, stops⟩ := readRun_eq found
    obtain ⟨present, inside⟩ := forall_of_readRun found
    exact .bare present inside stops

theorem attributeAt_of_readAttribute {text rest : List Char} {entry : List Char × Option (List Char)}
    (found : readAttribute text = some (entry, rest)) : AttributeAt entry.1 entry.2 text rest := by
  obtain ⟨⟨space, afterSpace⟩, spaced, next⟩ := Option.bind_eq_some_iff.mp found
  obtain ⟨⟨name, afterName⟩, named, last⟩ := Option.map_eq_some_iff.mp next
  obtain ⟨rfl, -⟩ := readRun_eq spaced
  obtain ⟨present, isSpaces⟩ := forall_of_readRun spaced
  obtain ⟨rfl, -⟩ := readRun_eq named
  have isName : IsName name := forall_of_readRun named
  cases assigned : readAssignment afterName with
  | none =>
      simp only [assigned] at last
      cases last
      exact .named present isSpaces isName rest
  | some result =>
      simp only [assigned] at last
      cases last
      obtain ⟨value, rest⟩ := result
      unfold readAssignment at assigned
      split at assigned
      · rename_i behind skipped
        have valued := valueAt_of_readValue assigned
        have whole : afterName = afterName.takeWhile isSpace ++
            '=' :: (behind.takeWhile isSpace ++ skipSpace behind) := by
          rw [spaces_append behind, ← skipped, spaces_append afterName]
        rw [whole]
        exact .assigned present isSpaces isName (isSpaces_takeWhile _) (isSpaces_takeWhile _) valued
      · cases assigned

theorem attributesAt_of_reads {text rest : List Char} {attributes : List (List Char × Option (List Char))}
    (reads : Reader.Reads readAttribute text attributes rest) : AttributesAt attributes text rest := by
  induction reads with
  | done => exact .nil _
  | next found _ inductionHypothesis => exact .cons (attributeAt_of_readAttribute found) inductionHypothesis

theorem at_of_readComment {text rest : List Char} {token : Token}
    (found : readComment text = some (token, rest)) : At token text rest ∧ token.rank = 0 := by
  unfold readComment at found
  split at found
  · obtain ⟨⟨body, ending⟩, inner, same⟩ := Option.map_eq_some_iff.mp found
    cases same
    rw [commentBody_eq inner]
    exact ⟨.comment (isBody_of_commentBody inner) rest, rfl⟩
  · cases found

theorem at_of_readDeclaration {text rest : List Char} {token : Token}
    (found : readDeclaration text = some (token, rest)) : At token text rest ∧ token.rank = 1 := by
  unfold readDeclaration at found
  split at found
  · rename_i behind
    split at found
    · rename_i c ending dropped
      cases found
      have quoted : readQuoted '>' behind = some (behind.takeWhile (· ≠ '>'), rest) := by
        unfold readQuoted
        rw [dropped]
      obtain ⟨whole, unclosed⟩ := readQuoted_eq quoted
      rw [whole]
      exact ⟨.declaration unclosed rest, rfl⟩
    · cases found
  · cases found

theorem at_of_readClosing {text rest : List Char} {token : Token}
    (found : readClosing text = some (token, rest)) : At token text rest ∧ token.rank = 2 := by
  unfold readClosing at found
  split at found
  · obtain ⟨⟨tag, afterTag⟩, tagged, next⟩ := Option.bind_eq_some_iff.mp found
    dsimp only at next
    split at next
    · rename_i skipped
      cases next
      rw [readTag_eq tagged, ← spaces_append afterTag, skipped]
      exact ⟨.closing (isTag_of_readTag tagged) (isSpaces_takeWhile afterTag) rest, rfl⟩
    · cases next
  · cases found

theorem at_of_readOpening {text rest : List Char} {token : Token}
    (found : readOpening text = some (token, rest)) : At token text rest ∧ token.rank = 3 := by
  unfold readOpening at found
  split at found
  · obtain ⟨⟨tag, afterTag⟩, tagged, next⟩ := Option.bind_eq_some_iff.mp found
    have attributed := attributesAt_of_reads (Reader.reads_many afterTag)
    have whole := spaces_append (Reader.many readAttribute afterTag).2
    have isSpaces := isSpaces_takeWhile (Reader.many readAttribute afterTag).2
    rw [readTag_eq tagged]
    dsimp only at next
    split at next
    · rename_i skipped
      cases next
      rw [skipped] at whole
      rw [← whole] at attributed
      exact ⟨.opening (isTag_of_readTag tagged) isSpaces attributed, rfl⟩
    · rename_i skipped
      cases next
      rw [skipped] at whole
      rw [← whole] at attributed
      exact ⟨.opening (isTag_of_readTag tagged) isSpaces attributed, rfl⟩
    · cases next
  · cases found

theorem at_of_readText {text rest : List Char} {token : Token} (found : readText text = some (token, rest)) :
    At token text rest ∧ token.rank = 4 := by
  unfold readText at found
  split at found
  · cases found
    exact ⟨.angle rest, rfl⟩
  · obtain ⟨⟨run, ending⟩, inner, same⟩ := Option.map_eq_some_iff.mp found
    cases same
    obtain ⟨rfl, stops⟩ := readRun_eq inner
    obtain ⟨present, inside⟩ := forall_of_readRun inner
    exact ⟨.text present (fun member => by simpa using inside '<' member) (by simpa using stops), rfl⟩

theorem first_of_readerAt {token : Token} {text : List Char}
    (stuck : ∀ kind < token.rank, readerAt kind text = none) : First token text := by
  intro other rest stands
  refine Nat.le_of_not_lt fun earlier => ?_
  have reads := stands.reads
  rw [stuck _ earlier] at reads
  cases reads

/-- The first reader that succeeds gives the first token that fits. -/
theorem at_of_read {token : Token} {text rest : List Char} (found : read text = some (token, rest)) :
    At token text rest ∧ First token text := by
  simp only [read, Option.orElse_eq_or, Option.or_eq_some_iff] at found
  have before : ∀ kind < 0, readerAt kind text = none := fun kind earlier => absurd earlier (Nat.not_lt_zero kind)
  rcases found with comment | ⟨noComment, found⟩
  · obtain ⟨stands, ranked⟩ := at_of_readComment comment
    exact ⟨stands, first_of_readerAt (ranked ▸ before)⟩
  have before := Nat.forall_lt_succ_right.mpr ⟨before, noComment⟩
  rcases found with declaration | ⟨noDeclaration, found⟩
  · obtain ⟨stands, ranked⟩ := at_of_readDeclaration declaration
    exact ⟨stands, first_of_readerAt (ranked ▸ before)⟩
  have before := Nat.forall_lt_succ_right.mpr ⟨before, noDeclaration⟩
  rcases found with closing | ⟨noClosing, found⟩
  · obtain ⟨stands, ranked⟩ := at_of_readClosing closing
    exact ⟨stands, first_of_readerAt (ranked ▸ before)⟩
  have before := Nat.forall_lt_succ_right.mpr ⟨before, noClosing⟩
  rcases found with opening | ⟨noOpening, found⟩
  · obtain ⟨stands, ranked⟩ := at_of_readOpening opening
    exact ⟨stands, first_of_readerAt (ranked ▸ before)⟩
  have before := Nat.forall_lt_succ_right.mpr ⟨before, noOpening⟩
  obtain ⟨stands, ranked⟩ := at_of_readText found
  exact ⟨stands, first_of_readerAt (ranked ▸ before)⟩

theorem ValueAt.split {value text rest : List Char} (valued : ValueAt value text rest) :
    ∃ chars, text = chars ++ rest := by
  cases valued with
  | @quoted quote => exact ⟨quote :: (value ++ [quote]), by simp⟩
  | bare => exact ⟨value, rfl⟩

theorem AttributesAt.split {attributes : List (List Char × Option (List Char))} {text rest : List Char}
    (attributed : AttributesAt attributes text rest) : ∃ chars, text = chars ++ rest := by
  induction attributed with
  | nil => exact ⟨[], rfl⟩
  | @cons name _ _ _ _ _ first _ inductionHypothesis =>
      obtain ⟨others, rfl⟩ := inductionHypothesis
      cases first with
      | @named space => exact ⟨space ++ (name ++ others), by simp⟩
      | @assigned space before after _ _ _ _ _ _ _ _ valued =>
          obtain ⟨chars, rfl⟩ := valued.split
          exact ⟨space ++ (name ++ (before ++ '=' :: (after ++ (chars ++ others)))), by simp⟩

/-- A token takes at least one character. -/
theorem At.split {token : Token} {text rest : List Char} (stands : At token text rest) :
    ∃ c more, text = c :: more ++ rest := by
  cases stands with
  | @comment body => exact ⟨'<', '!' :: '-' :: '-' :: (body ++ ['-', '-', '>']), by simp⟩
  | @declaration body => exact ⟨'<', '!' :: (body ++ ['>']), by simp⟩
  | @closing tag space => exact ⟨'<', '/' :: (tag ++ (space ++ ['>'])), by simp⟩
  | @opening tag text space _ selfClosing _ _ _ attributed =>
      obtain ⟨chars, rfl⟩ := attributed.split
      exact ⟨'<', tag ++ (chars ++ endOfTag space selfClosing []), by cases selfClosing <;> simp [endOfTag]⟩
  | text present =>
      obtain ⟨c, more, rfl⟩ := List.exists_cons_of_ne_nil present
      exact ⟨c, more, rfl⟩
  | angle => exact ⟨'<', [], rfl⟩

theorem read_of_at {token : Token} {text rest : List Char} (stands : At token text rest)
    (first : First token text) : read text = some (token, rest) := by
  obtain ⟨c, more, whole⟩ := stands.split
  have present := read_isSome c (more ++ rest)
  rw [← List.cons_append, ← whole, Option.isSome_iff_exists] at present
  obtain ⟨⟨other, ending⟩, found⟩ := present
  obtain ⟨otherStands, otherFirst⟩ := at_of_read found
  have ranked : token.rank = other.rank := Nat.le_antisymm (first _ _ otherStands) (otherFirst _ _ stands)
  have reads := stands.reads
  rw [ranked, otherStands.reads] at reads
  rw [found, reads]

namespace Cuts

variable {text : List Char} {lexemes : List (Token × List Char)}

/-- The characters of the tokens are the whole text. -/
theorem flatten (cuts : Cuts text lexemes) : (lexemes.map Prod.snd).flatten = text := by
  induction cuts with
  | done => rfl
  | next _ _ _ inductionHypothesis => rw [List.map_cons, List.flatten_cons, inductionHypothesis]

/-- The scanner gives the tokens of a cut. -/
theorem scan (cuts : Cuts text lexemes) : lexemes.map Prod.fst = Token.scan text := by
  induction cuts with
  | done => rfl
  | next stands first _ inductionHypothesis =>
      rw [scan_of_read (read_of_at stands first), ← inductionHypothesis, List.map_cons]

/-- A text is cut in one way only. -/
theorem unique {others : List (Token × List Char)} (cuts : Cuts text lexemes) (other : Cuts text others) :
    others = lexemes := by
  induction cuts generalizing others with
  | done =>
      generalize same : ([] : List Char) = empty at other
      cases other with
      | done => rfl
      | next stands =>
          obtain ⟨c, more, whole⟩ := stands.split
          rw [← same] at whole
          cases whole
  | @next token chars rest later stands first _ inductionHypothesis =>
      generalize same : chars ++ rest = whole at other
      cases other with
      | done =>
          obtain ⟨c, more, split⟩ := stands.split
          rw [same] at split
          cases split
      | next otherStands otherFirst otherLater =>
          have found := read_of_at stands first
          rw [same, read_of_at otherStands otherFirst] at found
          cases found
          rw [List.append_cancel_right same, inductionHypothesis otherLater]

end Cuts

theorem exists_cuts_of_reads {text rest : List Char} {tokens : List Token}
    (reads : Reader.Reads read text tokens rest) (whole : rest = []) :
    ∃ lexemes, Cuts text lexemes := by
  induction reads with
  | done => exact ⟨[], whole ▸ .done⟩
  | @next text _ _ token _ found _ inductionHypothesis =>
      obtain ⟨lexemes, later⟩ := inductionHypothesis whole
      obtain ⟨stands, first⟩ := at_of_read found
      obtain ⟨c, more, rfl⟩ := stands.split
      exact ⟨(token, c :: more) :: lexemes, .next stands first later⟩

/-- Every text can be cut into tokens. -/
theorem exists_cuts (text : List Char) : ∃ lexemes, Cuts text lexemes :=
  exists_cuts_of_reads (Reader.reads_many text) (rest_scan text)

theorem Cuts.at_of_append {text chars : List Char} {token : Token} {early late : List (Token × List Char)}
    (cuts : Cuts text (early ++ (token, chars) :: late)) :
    At token (chars ++ (late.map Prod.snd).flatten) (late.map Prod.snd).flatten ∧
      First token (chars ++ (late.map Prod.snd).flatten) := by
  induction early generalizing text with
  | nil =>
      cases cuts with
      | next stands first later =>
          rw [later.flatten]
          exact ⟨stands, first⟩
  | cons lexeme early inductionHypothesis =>
      cases cuts with
      | next _ _ later => exact inductionHypothesis later

/-- An angle is a text by itself exactly where it begins nothing else. -/
theorem angle_iff {token : Token} {text rest : List Char} (stands : At token text rest)
    (first : First token text) (angle : text.head? = some '<') :
    token = .text ['<'] ↔ ∀ other ending, At other text ending → ∃ content, other = .text content := by
  constructor
  · rintro rfl other ending otherStands
    have late : 4 ≤ other.rank := first other ending otherStands
    cases other with
    | text content => exact ⟨content, rfl⟩
    | _ => simp [rank] at late
  · intro only
    obtain ⟨content, rfl⟩ := only token rest stands
    cases stands with
    | text present plain =>
        obtain ⟨c, more, rfl⟩ := List.exists_cons_of_ne_nil present
        cases angle
        exact absurd List.mem_cons_self plain
    | angle => rfl

end LiveMarkup.Token
