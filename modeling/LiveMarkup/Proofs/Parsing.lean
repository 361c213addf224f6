import LiveMarkup.Proofs.Chains

/-
This file shows that the reader of expressions accepts the renderings of its grammar and no other texts.
-/

namespace LiveMarkup.Expr

open Reader

variable {inner : Reader Expr}

/-! What is read is a rendering of what it gives. -/

/-- A further argument follows after a comma. -/
def readFurther (inner : Reader Expr) : Reader Expr := fun text =>
  (mark ',' text).bind fun (_, rest) => inner (skipGap rest)

theorem readArguments_eq (text : List Char) : readArguments inner text =
    match inner (skipGap text) with
    | none => some ([], text)
    | some (first, rest) =>
        some (first :: (many (readFurther inner) rest).1, (many (readFurther inner) rest).2) :=
  rfl

theorem readOperand_eq (text : List Char) : readOperand inner text =
    (readPrimary inner (skipGap (many readUnaryOperator text).2)).map fun (primary, afterPrimary) =>
      ((many readUnaryOperator text).1.foldr .unary
          ((many (readAccess inner) afterPrimary).1.foldl Access.apply primary),
        (many (readAccess inner) afterPrimary).2) :=
  rfl

/-- A further operand follows after a binary operator. -/
def readStep (inner : Reader Expr) : Reader (BinaryOperator × Expr) := fun text =>
  (readBinaryOperator text).bind fun (operator, afterOperator) =>
  (readOperand inner (skipGap afterOperator)).map fun (operand, rest) => ((operator, operand), rest)

theorem readBinary_eq (text : List Char) : readBinary inner text =
    (readOperand inner text).map fun (first, afterFirst) =>
      (joinLevels first (many (readStep inner) afterFirst).1, (many (readStep inner) afterFirst).2) :=
  rfl

theorem separated_of_reads (innerSound : Sound inner (Renders .conditional)) {after tail : List Char}
    (afterBlank : IsBlank after) {middle ending : List Char} {others : List Expr}
    (reads : Reads (readFurther inner) middle others ending) (closing : ending = after ++ tail)
    {first : Expr} {before lexeme : List Char} (beforeBlank : IsBlank before)
    (written : Renders .conditional first lexeme) :
    ∃ (parts : List (Expr × List Char)) (text : List Char), parts.map Prod.fst = first :: others ∧
      (∀ part ∈ parts, Renders .conditional part.1 part.2) ∧ Separated (parts.map Prod.snd) text ∧
      before ++ lexeme ++ middle = text ++ tail := by
  induction reads generalizing first before lexeme with
  | done =>
      subst closing
      exact ⟨[(first, lexeme)], before ++ lexeme ++ after, rfl, by simpa using written,
        Separated.one beforeBlank afterBlank, by simp⟩
  | next found _ inductionHypothesis =>
      obtain ⟨⟨_, afterMark⟩, comma, item⟩ := Option.bind_eq_some_iff.mp found
      obtain ⟨gap, _, gapBlank, rfl, rfl⟩ := sound_mark ',' _ _ _ comma
      obtain ⟨start, second, startBlank, rfl, secondWritten⟩ := (innerSound _ _ _ item).skip
      obtain ⟨parts, text, listed, each, separated, same⟩ :=
        inductionHypothesis closing startBlank secondWritten
      have present : parts.map Prod.snd ≠ [] := by
        intro empty
        rw [List.map_eq_nil_iff.mp empty] at listed
        cases listed
      refine ⟨(first, lexeme) :: parts, before ++ lexeme ++ gap ++ ',' :: text, ?_, ?_, ?_, ?_⟩
      · rw [List.map_cons, listed]
      · exact List.forall_mem_cons.mpr ⟨written, each⟩
      · exact Separated.more beforeBlank gapBlank present separated
      · simp only [List.append_assoc, List.cons_append, List.nil_append] at same ⊢
        rw [same]

theorem sound_readCall (innerSound : Sound inner (Renders .conditional)) :
    Sound (readCall inner) (Renders .primary) := by
  intro text expr rest found
  obtain ⟨⟨name, afterName⟩, named, found⟩ := Option.bind_eq_some_iff.mp found
  obtain ⟨⟨_, afterOpen⟩, opened, found⟩ := Option.bind_eq_some_iff.mp found
  obtain ⟨⟨arguments, afterArguments⟩, listed, found⟩ := Option.bind_eq_some_iff.mp found
  obtain ⟨⟨_, ending⟩, closed, same⟩ := Option.map_eq_some_iff.mp found
  cases same
  obtain ⟨before, _, beforeBlank, rfl, isName, rfl⟩ := sound_readName _ _ _ named
  obtain ⟨gap, _, gapBlank, rfl, rfl⟩ := sound_mark '(' _ _ _ opened
  obtain ⟨after, _, afterBlank, same, rfl⟩ := sound_mark ')' _ _ _ closed
  rw [List.append_assoc] at same
  have parts : ∃ (parts : List (Expr × List Char)) (inside : List Char), parts.map Prod.fst = arguments ∧
      (∀ part ∈ parts, Renders .conditional part.1 part.2) ∧
      Separated (parts.map Prod.snd) inside ∧ afterOpen = inside ++ ([')'] ++ rest) := by
    rw [readArguments_eq] at listed
    split at listed
    · cases listed
      exact ⟨[], after, rfl, List.forall_mem_nil _, Separated.none afterBlank, same⟩
    · rename_i first afterFirst item
      cases listed
      obtain ⟨start, lexeme, startBlank, rfl, written⟩ := (innerSound _ _ _ item).skip
      exact separated_of_reads innerSound afterBlank (reads_many afterFirst) same startBlank written
  obtain ⟨parts, inside, rfl, each, separated, rfl⟩ := parts
  refine ⟨before, name.toList ++ gap ++ '(' :: inside ++ [')'], beforeBlank, by simp, ?_⟩
  exact Renders.call isName gapBlank each separated

theorem sound_readParenthesised (innerSound : Sound inner (Renders .conditional)) :
    Sound (readParenthesised inner) (Renders .primary) := by
  intro text expr rest found
  obtain ⟨⟨_, afterOpen⟩, opened, found⟩ := Option.bind_eq_some_iff.mp found
  obtain ⟨⟨_, afterExpr⟩, item, found⟩ := Option.bind_eq_some_iff.mp found
  obtain ⟨⟨_, ending⟩, closed, same⟩ := Option.map_eq_some_iff.mp found
  cases same
  obtain ⟨gap, _, gapBlank, rfl, rfl⟩ := sound_mark '(' _ _ _ opened
  obtain ⟨before, lexeme, beforeBlank, rfl, written⟩ := (innerSound _ _ _ item).skip
  obtain ⟨after, _, afterBlank, rfl, rfl⟩ := sound_mark ')' _ _ _ closed
  exact ⟨gap, '(' :: before ++ lexeme ++ after ++ [')'], gapBlank, by simp,
    Renders.parenthesised beforeBlank afterBlank written⟩

theorem sound_readPrimary (innerSound : Sound inner (Renders .conditional)) :
    Sound (readPrimary inner) (Renders .primary) := by
  refine Sound.orElse sound_readLiteral (Sound.orElse (sound_readCall innerSound)
    (Sound.orElse ?_ (sound_readParenthesised innerSound)))
  intro text expr rest found
  obtain ⟨⟨name, ending⟩, named, same⟩ := Option.map_eq_some_iff.mp found
  cases same
  refine (sound_readName _ _ _ named).imp ?_
  rintro _ ⟨isName, rfl⟩
  exact Renders.ident isName

/-- An access is written so that it may follow any object. -/
def Follows (access : Access) (lexeme : List Char) : Prop :=
  lexeme ≠ [] ∧ ∀ object text gap, Renders .access object text → IsBlank gap →
    Renders .access (access.apply object) (text ++ gap ++ lexeme)

theorem sound_readAccess (innerSound : Sound inner (Renders .conditional)) :
    Sound (readAccess inner) Follows := by
  refine Sound.orElse ?_ ?_
  · intro text access rest found
    obtain ⟨⟨_, afterMark⟩, marked, found⟩ := Option.bind_eq_some_iff.mp found
    obtain ⟨⟨name, ending⟩, named, same⟩ := Option.map_eq_some_iff.mp found
    cases same
    obtain ⟨gap, _, gapBlank, rfl, rfl⟩ := sound_mark '.' _ _ _ marked
    obtain ⟨after, _, afterBlank, rfl, isName, rfl⟩ := (sound_readName _ _ _ named).skip
    refine ⟨gap, '.' :: after ++ name.toList, gapBlank, by simp, by simp, ?_⟩
    intro object text before written beforeBlank
    simpa [Access.apply] using Renders.member written beforeBlank afterBlank isName
  · intro text access rest found
    obtain ⟨⟨_, afterOpen⟩, opened, found⟩ := Option.bind_eq_some_iff.mp found
    obtain ⟨⟨position, afterPosition⟩, item, found⟩ := Option.bind_eq_some_iff.mp found
    obtain ⟨⟨_, ending⟩, closed, same⟩ := Option.map_eq_some_iff.mp found
    cases same
    obtain ⟨gap, _, gapBlank, rfl, rfl⟩ := sound_mark '[' _ _ _ opened
    obtain ⟨after, lexeme, afterBlank, rfl, positionWritten⟩ := (innerSound _ _ _ item).skip
    obtain ⟨behind, _, behindBlank, rfl, rfl⟩ := sound_mark ']' _ _ _ closed
    refine ⟨gap, '[' :: after ++ lexeme ++ behind ++ [']'], gapBlank, by simp, by simp, ?_⟩
    intro object text before written beforeBlank
    simpa [Access.apply] using
      Renders.index written beforeBlank afterBlank behindBlank positionWritten

theorem accesses_rendered (innerSound : Sound inner (Renders .conditional)) {middle rest : List Char}
    {accesses : List Access} (reads : Reads (readAccess inner) middle accesses rest) {object : Expr}
    {lexeme : List Char} (written : Renders .access object lexeme) :
    ∃ text, lexeme ++ middle = text ++ rest ∧
      Renders .access (accesses.foldl Access.apply object) text := by
  induction reads generalizing object lexeme with
  | done => exact ⟨lexeme, rfl, written⟩
  | next found _ inductionHypothesis =>
      obtain ⟨gap, part, gapBlank, rfl, _, follows⟩ := sound_readAccess innerSound _ _ _ found
      obtain ⟨text, same, renders⟩ := inductionHypothesis (follows object lexeme gap written gapBlank)
      exact ⟨text, by rw [← same]; simp, renders⟩

theorem operators_rendered {text middle rest : List Char} {operators : List UnaryOperator}
    (reads : Reads readUnaryOperator text operators middle) {operand : Expr}
    (begins : Begins (Renders .operand operand) middle rest) :
    Begins (Renders .operand (operators.foldr .unary operand)) text rest := by
  induction reads with
  | done => exact begins
  | next found _ inductionHypothesis =>
      obtain ⟨before, _, beforeBlank, rfl, rfl⟩ := sound_readUnaryOperator _ _ _ found
      obtain ⟨gap, lexeme, gapBlank, rfl, written⟩ := inductionHypothesis begins
      exact ⟨before, _, beforeBlank, by simp, Renders.unary _ gapBlank written⟩

theorem sound_readOperand (innerSound : Sound inner (Renders .conditional)) :
    Sound (readOperand inner) (Renders .operand) := by
  intro text expr rest found
  rw [readOperand_eq] at found
  obtain ⟨⟨primary, afterPrimary⟩, item, same⟩ := Option.map_eq_some_iff.mp found
  cases same
  refine operators_rendered (reads_many text) ?_
  obtain ⟨gap, lexeme, gapBlank, whole, written⟩ := (sound_readPrimary innerSound _ _ _ item).skip
  obtain ⟨accessed, same, renders⟩ :=
    accesses_rendered innerSound (reads_many afterPrimary) (Renders.bare written)
  exact ⟨gap, accessed, gapBlank, by rw [whole, List.append_assoc, same, List.append_assoc],
    Renders.plain renders⟩

theorem chain_rendered (innerSound : Sound inner (Renders .conditional)) {middle rest : List Char}
    {chain : List (BinaryOperator × Expr)} (reads : Reads (readStep inner) middle chain rest) :
    ∃ text, middle = text ++ rest ∧ Tail 6 chain text := by
  induction reads with
  | done => exact ⟨[], rfl, Tail.done⟩
  | next found _ inductionHypothesis =>
      obtain ⟨⟨operator, afterOperator⟩, operated, found⟩ := Option.bind_eq_some_iff.mp found
      obtain ⟨⟨operand, ending⟩, item, same⟩ := Option.map_eq_some_iff.mp found
      cases same
      obtain ⟨before, _, beforeBlank, rfl, rfl⟩ := sound_readBinaryOperator _ _ _ operated
      obtain ⟨after, lexeme, afterBlank, rfl, written⟩ :=
        (sound_readOperand innerSound _ _ _ item).skip
      obtain ⟨text, rfl, tail⟩ := inductionHypothesis
      exact ⟨_, by simp, Tail.next operator beforeBlank afterBlank (Renders.single 6 written) tail⟩

theorem sound_readBinary (innerSound : Sound inner (Renders .conditional)) :
    Sound (readBinary inner) (Renders (.binary 0)) := by
  intro text expr rest found
  rw [readBinary_eq] at found
  obtain ⟨⟨first, afterFirst⟩, item, same⟩ := Option.map_eq_some_iff.mp found
  cases same
  obtain ⟨gap, lexeme, gapBlank, rfl, written⟩ := sound_readOperand innerSound _ _ _ item
  obtain ⟨chained, same, tail⟩ := chain_rendered innerSound (reads_many afterFirst)
  refine ⟨gap, lexeme ++ chained, gapBlank, ?_, joinLevels_rendered ?_⟩
  · rw [List.append_assoc gap, List.append_assoc gap, List.append_assoc lexeme, ← same]
  · exact ⟨lexeme, chained, rfl, Renders.single 6 written, tail,
      fun part _ => Nat.lt_succ_of_le part.1.level_le⟩

theorem sound_readConditionalWith (innerSound : Sound inner (Renders .conditional)) :
    Sound (readConditionalWith inner) (Renders .conditional) := by
  intro text expr rest found
  obtain ⟨⟨test, afterTest⟩, item, same⟩ := Option.map_eq_some_iff.mp found
  obtain ⟨gap, first, gapBlank, rfl, testWritten⟩ := sound_readBinary innerSound _ _ _ item
  dsimp only at same
  split at same
  · rename_i chosen
    cases same
    obtain ⟨⟨_, afterMark⟩, asked, chosen⟩ := Option.bind_eq_some_iff.mp chosen
    obtain ⟨⟨yes, afterYes⟩, yesItem, chosen⟩ := Option.bind_eq_some_iff.mp chosen
    obtain ⟨⟨_, afterColon⟩, parted, chosen⟩ := Option.bind_eq_some_iff.mp chosen
    obtain ⟨⟨no, ending⟩, noItem, same⟩ := Option.map_eq_some_iff.mp chosen
    cases same
    obtain ⟨before, _, beforeBlank, rfl, rfl⟩ := sound_mark '?' _ _ _ asked
    obtain ⟨after, second, afterBlank, rfl, yesWritten⟩ := (innerSound _ _ _ yesItem).skip
    obtain ⟨behind, _, behindBlank, rfl, rfl⟩ := sound_mark ':' _ _ _ parted
    obtain ⟨ahead, third, aheadBlank, rfl, noWritten⟩ := (innerSound _ _ _ noItem).skip
    exact ⟨gap, _, gapBlank, by simp, Renders.conditional testWritten beforeBlank afterBlank
      behindBlank aheadBlank yesWritten noWritten⟩
  · cases same
    exact ⟨gap, first, gapBlank, rfl, Renders.unconditional testWritten⟩

theorem sound_readConditional (depth : Nat) : Sound (readConditional depth) (Renders .conditional) := by
  induction depth with
  | zero => exact fun text expr rest found => nomatch found
  | succ depth inductionHypothesis => exact sound_readConditionalWith inductionHypothesis

theorem written_of_read? {text : List Char} {expr : Expr} (found : read? text = some expr) :
    ∃ before lexeme after, IsBlank before ∧ IsBlank after ∧ text = before ++ lexeme ++ after ∧
      Renders .conditional expr lexeme := by
  unfold read? at found
  split at found
  · rename_i value rest item
    split at found
    · rename_i atEnd
      cases found
      obtain ⟨before, lexeme, blank, whole, written⟩ := (sound_readConditional _ _ _ _ item).skip
      obtain ⟨after, afterBlank, same⟩ := exists_gap rest
      rw [List.isEmpty_iff.mp atEnd, List.append_nil] at same
      exact ⟨before, lexeme, after, blank, afterBlank, same ▸ whole, written⟩
    · cases found
  · cases found

end LiveMarkup.Expr
