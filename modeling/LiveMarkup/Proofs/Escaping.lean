import LiveMarkup.Proofs.Decoding

/-
This file shows that decoding undoes both escapings: an escaped text holds no delimiter, and each of
its ampersands starts a reference to the character that was escaped there.
-/

namespace LiveMarkup.Text

variable {escape : Char → List Char} {text before after : List Char} {c mark : Char}

/-- A character is written as itself, or as a reference that has one ampersand. -/
def Marks (escape : Char → List Char) : Prop :=
  ∀ c, (escape c = [c] ∧ c ≠ '&') ∨ ∃ name, Refers name c ∧ '&' ∉ name ∧ escape c = referenceText name

/-- Wherever an ampersand stands in an escaped text, it starts the reference to one character of the
text. It is decoded to this character, and what stands before and behind it was escaped apart. -/
def Referenced (escape : Char → List Char) (text : List Char) : Prop :=
  ∀ before after, text.flatMap escape = before ++ '&' :: after →
    ∃ early meant late name, text = early ++ meant :: late ∧ before = early.flatMap escape ∧
      Refers name meant ∧ '&' :: after = referenceText name ++ late.flatMap escape ∧
        ∀ rest, decodeEntities ('&' :: after ++ rest) = meant :: late ++ decodeEntities rest

theorem marks_escapeTextChar : Marks escapeTextChar := by
  intro c
  unfold escapeTextChar
  split
  · exact Or.inr ⟨['a', 'm', 'p'], Or.inl (by decide), by decide, rfl⟩
  · exact Or.inr ⟨['l', 't'], Or.inl (by decide), by decide, rfl⟩
  · exact Or.inr ⟨['g', 't'], Or.inl (by decide), by decide, rfl⟩
  · exact Or.inr ⟨['n', 'b', 's', 'p'], Or.inl (by decide), by decide, rfl⟩
  · rename_i plain _ _ _
    exact Or.inl ⟨rfl, plain⟩

theorem marks_escapeAttributeChar : Marks escapeAttributeChar := by
  intro c
  unfold escapeAttributeChar
  split
  · exact Or.inr ⟨['a', 'm', 'p'], Or.inl (by decide), by decide, rfl⟩
  · exact Or.inr ⟨['q', 'u', 'o', 't'], Or.inl (by decide), by decide, rfl⟩
  · exact Or.inr ⟨['n', 'b', 's', 'p'], Or.inl (by decide), by decide, rfl⟩
  · rename_i plain _ _
    exact Or.inl ⟨rfl, plain⟩

/-- What is written for one character has an ampersand at its start or nowhere. -/
theorem Marks.cases_of_append (marks : Marks escape) {inside : List Char}
    (written : escape c = before ++ '&' :: inside) :
    before = [] ∧ ∃ name, Refers name c ∧ '&' :: inside = referenceText name := by
  rcases marks c with ⟨itself, other⟩ | ⟨name, refers, plain, reference⟩
  · have member : '&' ∈ [c] := itself ▸ written ▸ List.mem_append_right before List.mem_cons_self
    exact absurd (List.mem_singleton.mp member).symm other
  · rw [reference] at written
    cases before with
    | nil => exact ⟨rfl, name, refers, written.symm⟩
    | cons first before =>
        have rest : name ++ [';'] = before ++ '&' :: inside := (List.cons.inj written).2
        have member : '&' ∈ name ++ [';'] := rest ▸ List.mem_append_right before List.mem_cons_self
        rcases List.mem_append.mp member with named | ending
        · exact absurd named plain
        · exact absurd ending (by decide)

/-- A cut in front of an ampersand lies between two characters of the text. -/
theorem referenced (escapes : Escapes escape) (marks : Marks escape) (text : List Char) :
    Referenced escape text := by
  induction text with
  | nil =>
      intro before after written
      exact absurd written.symm (by simp)
  | cons c text inductionHypothesis =>
      intro before after written
      rw [List.flatMap_cons] at written
      rcases List.append_eq_append_iff.mp written with ⟨behind, split, later⟩ | ⟨inside, split, later⟩
      · -- The cut lies behind what was written for the first character.
        obtain ⟨early, meant, late, name, rfl, rfl, found⟩ := inductionHypothesis behind after later
        exact ⟨c :: early, meant, late, name, rfl, split, found⟩
      · cases inside with
        | nil =>
            obtain ⟨early, meant, late, name, rfl, same, found⟩ :=
              inductionHypothesis [] after later.symm
            rw [List.append_nil] at split
            refine ⟨c :: early, meant, late, name, rfl, ?_, found⟩
            rw [List.flatMap_cons, ← same, List.append_nil, split]
        | cons first inside =>
            obtain ⟨rfl, rfl⟩ := List.cons.inj later
            obtain ⟨rfl, name, refers, reference⟩ := marks.cases_of_append split
            refine ⟨[], c, text, name, rfl, rfl, refers, ?_, ?_⟩
            · rw [← reference]
              rfl
            · intro rest
              have decoded := escapes.decodeEntities_append (c :: text) rest
              rw [List.flatMap_cons, split] at decoded
              exact decoded

/-- Decoding gives back what was escaped as text or as a value, whatever follows. Neither can be taken for
markup around it, and both have ampersands only where a reference to one of their characters starts. -/
theorem decoding_undoes_escaping (text value rest : List Char) :
    decodeEntities (escapeText text) = text ∧ decodeEntities (escapeAttribute value) = value ∧
      ('<' ∉ escapeText text ∧ '>' ∉ escapeText text) ∧ '"' ∉ escapeAttribute value ∧
      (Referenced escapeTextChar text ∧ Referenced escapeAttributeChar value) ∧
      decodeEntities (escapeText text ++ escapeAttribute value ++ rest) =
        text ++ value ++ decodeEntities rest := by
  have joined : decodeEntities (escapeText text ++ escapeAttribute value ++ rest) =
      text ++ value ++ decodeEntities rest := by
    unfold escapeText escapeAttribute
    rw [List.append_assoc, escapes_escapeTextChar.decodeEntities_append,
      escapes_escapeAttributeChar.decodeEntities_append, List.append_assoc]
  exact ⟨decodeEntities_escapeText text, decodeEntities_escapeAttribute value,
    ⟨not_mem_escapeText text, not_mem_escapeText_of_bracket (by decide) text⟩, not_mem_escapeAttribute value,
    ⟨referenced escapes_escapeTextChar marks_escapeTextChar text,
      referenced escapes_escapeAttributeChar marks_escapeAttributeChar value⟩, joined⟩

end LiveMarkup.Text
