import LiveMarkup.Text.Entity

/-
This file shows that decoding undoes escaping, whatever text follows.
-/

namespace LiveMarkup.Text

/-- An escape writes each character in such a way that it is decoded to itself. -/
def Escapes (escape : Char → List Char) : Prop :=
  ∀ c rest, decodeEntities (escape c ++ rest) = c :: decodeEntities rest

theorem decodeAfter_length (skipped rest : List Char) :
    decodeAfter skipped.length (skipped ++ rest) = decodeAfter 0 rest := by
  induction skipped with
  | nil => rfl
  | cons c tail inductionHypothesis => exact inductionHypothesis

/-- A reference that stands in front of a text is decoded first. -/
theorem decodeEntities_reference {name : List Char} {meant : Char} (plain : ';' ∉ name)
    (means : reference? name = some meant) (rest : List Char) :
    decodeEntities ('&' :: name ++ ';' :: rest) = meant :: decodeEntities rest := by
  have before : ∀ c ∈ name, decide (c ≠ ';') = true :=
    fun c member => decide_eq_true fun same => plain (same ▸ member)
  have taken : (name ++ ';' :: rest).takeWhile (· ≠ ';') = name := by
    rw [List.takeWhile_append_of_pos before]
    simp
  have ahead : referenceAhead? (name ++ ';' :: rest) = some (meant, name.length + 1) := by
    simp only [referenceAhead?, taken, means, List.length_append, List.length_cons, Option.map_some]
    rw [if_pos (by omega)]
  have skips := decodeAfter_length (name ++ [';']) rest
  rw [List.length_append, List.append_assoc] at skips
  simp only [decodeEntities, List.cons_append, decodeAfter, if_true, ahead]
  exact congrArg (meant :: ·) skips

theorem decodeEntities_cons {c : Char} (plain : c ≠ '&') (rest : List Char) :
    decodeEntities (c :: rest) = c :: decodeEntities rest := by
  simp only [decodeEntities, decodeAfter, if_neg plain]

theorem escapes_escapeTextChar : Escapes escapeTextChar := by
  intro c rest
  unfold escapeTextChar
  split
  · exact decodeEntities_reference (by decide : ';' ∉ ['a', 'm', 'p']) rfl rest
  · exact decodeEntities_reference (by decide : ';' ∉ ['l', 't']) rfl rest
  · exact decodeEntities_reference (by decide : ';' ∉ ['g', 't']) rfl rest
  · exact decodeEntities_reference (by decide : ';' ∉ ['n', 'b', 's', 'p']) rfl rest
  · rename_i plain _ _ _
    exact decodeEntities_cons plain rest

theorem escapes_escapeAttributeChar : Escapes escapeAttributeChar := by
  intro c rest
  unfold escapeAttributeChar
  split
  · exact decodeEntities_reference (by decide : ';' ∉ ['a', 'm', 'p']) rfl rest
  · exact decodeEntities_reference (by decide : ';' ∉ ['q', 'u', 'o', 't']) rfl rest
  · exact decodeEntities_reference (by decide : ';' ∉ ['n', 'b', 's', 'p']) rfl rest
  · rename_i plain _ _
    exact decodeEntities_cons plain rest

/-- No text that follows mixes with what was escaped. -/
theorem Escapes.decodeEntities_append {escape : Char → List Char} (escapes : Escapes escape)
    (text rest : List Char) :
    decodeEntities (text.flatMap escape ++ rest) = text ++ decodeEntities rest := by
  induction text with
  | nil => rfl
  | cons c tail inductionHypothesis =>
      rw [List.flatMap_cons, List.append_assoc, escapes, inductionHypothesis, List.cons_append]

theorem Escapes.decodeEntities {escape : Char → List Char} (escapes : Escapes escape)
    (text : List Char) : Text.decodeEntities (text.flatMap escape) = text := by
  have decoded := escapes.decodeEntities_append text []
  rw [List.append_nil] at decoded
  exact decoded.trans (List.append_nil text)

theorem decodeEntities_escapeText (text : List Char) : decodeEntities (escapeText text) = text :=
  escapes_escapeTextChar.decodeEntities text

theorem decodeEntities_escapeAttribute (text : List Char) :
    decodeEntities (escapeAttribute text) = text :=
  escapes_escapeAttributeChar.decodeEntities text

/-- Escaped text neither starts a tag nor ends one. -/
theorem not_mem_escapeText_of_bracket {bracket : Char} (known : bracket ∈ ['<', '>']) (text : List Char) :
    bracket ∉ escapeText text := by
  intro member
  obtain ⟨c, -, written⟩ := List.mem_flatMap.mp member
  unfold escapeTextChar at written
  split at written
  case h_5 _ less greater _ =>
    obtain rfl := List.mem_singleton.mp written
    rcases List.mem_cons.mp known with same | later
    · exact less same
    · exact greater (List.mem_singleton.mp later)
  all_goals
    rcases List.mem_cons.mp known with rfl | later
    · revert written
      decide
    · cases List.mem_singleton.mp later
      revert written
      decide

theorem not_mem_escapeText (text : List Char) : '<' ∉ escapeText text :=
  not_mem_escapeText_of_bracket (by decide) text

/-- An escaped value does not end early. -/
theorem not_mem_escapeAttribute (text : List Char) : '"' ∉ escapeAttribute text := by
  intro member
  obtain ⟨c, -, written⟩ := List.mem_flatMap.mp member
  unfold escapeAttributeChar at written
  split at written
  case h_4 _ other _ => exact other (List.mem_singleton.mp written).symm
  all_goals revert written; decide

theorem escapeText_ne_nil {text : List Char} (present : text ≠ []) : escapeText text ≠ [] := by
  intro empty
  have decoded := decodeEntities_escapeText text
  rw [empty] at decoded
  exact present decoded.symm

/-- Text that is there is decoded to text that is there. -/
theorem decodeEntities_ne_nil {text : List Char} (present : text ≠ []) :
    decodeEntities text ≠ [] := by
  cases text with
  | nil => exact absurd rfl present
  | cons c rest =>
      unfold decodeEntities decodeAfter
      split
      · split <;> exact List.cons_ne_nil _ _
      · exact List.cons_ne_nil _ _

end LiveMarkup.Text
