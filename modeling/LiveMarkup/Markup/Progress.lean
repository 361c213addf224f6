import LiveMarkup.Markup.Token

/-
This file shows that a scan cuts up the whole template: every text starts with a token, and every
token takes at least one character.
-/

namespace LiveMarkup.Token

theorem length_dropWhile_le (inClass : Char → Bool) (text : List Char) :
    (text.dropWhile inClass).length ≤ text.length :=
  (List.dropWhile_suffix inClass).length_le

theorem length_commentBody {text body rest : List Char}
    (found : commentBody text = some (body, rest)) : rest.length < text.length := by
  fun_induction commentBody text generalizing body rest with
  | case1 ending =>
      cases found
      simp only [List.length_cons]
      omega
  | case2 c tail _ inductionHypothesis =>
      obtain ⟨result, inner, same⟩ := Option.map_eq_some_iff.mp found
      cases same
      have shorter := inductionHypothesis inner
      simp only [List.length_cons]
      omega
  | case3 => cases found

theorem makesProgress_readComment : Reader.MakesProgress readComment := by
  intro text value rest found
  unfold readComment at found
  split at found
  · obtain ⟨result, inner, same⟩ := Option.map_eq_some_iff.mp found
    cases same
    have shorter := length_commentBody inner
    simp only [List.length_cons]
    omega
  · cases found

theorem makesProgress_readDeclaration : Reader.MakesProgress readDeclaration := by
  intro text value rest found
  unfold readDeclaration at found
  split at found
  · rename_i tail
    have bound := length_dropWhile_le (· ≠ '>') tail
    split at found
    · rename_i dropped
      cases found
      rw [dropped] at bound
      simp only [List.length_cons] at bound ⊢
      omega
    · cases found
  · cases found

theorem length_readTag {text tag rest : List Char} (found : readTag text = some (tag, rest)) :
    rest.length < text.length := by
  unfold readTag at found
  split at found
  · rename_i c tail
    split at found
    · cases found
      have bound := length_dropWhile_le isTagChar tail
      simp only [List.length_cons]
      omega
    · cases found
  · cases found

theorem makesProgress_readClosing : Reader.MakesProgress readClosing := by
  intro text value rest found
  unfold readClosing at found
  split at found
  · rename_i tail
    obtain ⟨⟨tag, afterTag⟩, tagFound, ending⟩ := Option.bind_eq_some_iff.mp found
    have tagBound := length_readTag tagFound
    have spaceBound := length_dropWhile_le isSpace afterTag
    simp only [skipSpace] at ending
    split at ending
    · rename_i dropped
      cases ending
      rw [dropped] at spaceBound
      simp only [List.length_cons] at spaceBound ⊢
      omega
    · cases ending
  · cases found

theorem length_readRun {inClass : Char → Bool} {text run rest : List Char}
    (found : readRun inClass text = some (run, rest)) : rest.length < text.length := by
  simp only [readRun] at found
  split at found
  · cases found
  · rename_i filled
    cases found
    cases text with
    | nil => simp at filled
    | cons c tail =>
        have first : inClass c = true := by
          cases holds : inClass c with
          | true => rfl
          | false => simp [holds] at filled
        have bound := length_dropWhile_le inClass tail
        simp only [List.dropWhile_cons, first, if_true, List.length_cons]
        omega

theorem length_readQuoted {quote : Char} {text value rest : List Char}
    (found : readQuoted quote text = some (value, rest)) : rest.length < text.length := by
  unfold readQuoted at found
  have bound := length_dropWhile_le (· ≠ quote) text
  split at found
  · rename_i dropped
    cases found
    rw [dropped] at bound
    simp only [List.length_cons] at bound
    omega
  · cases found

theorem length_readValue {text value rest : List Char}
    (found : readValue text = some (value, rest)) : rest.length < text.length := by
  unfold readValue at found
  split at found
  · have shorter := length_readQuoted found
    simp only [List.length_cons]
    omega
  · have shorter := length_readQuoted found
    simp only [List.length_cons]
    omega
  · exact length_readRun found

theorem length_readAssignment {text value rest : List Char}
    (found : readAssignment text = some (value, rest)) : rest.length < text.length := by
  unfold readAssignment at found
  have spaceBound := length_dropWhile_le isSpace text
  split at found
  · rename_i tail dropped
    have shorter := length_readValue found
    have bound := length_dropWhile_le isSpace tail
    have start : skipSpace text = text.dropWhile isSpace := rfl
    have after : skipSpace tail = tail.dropWhile isSpace := rfl
    rw [← start, dropped] at spaceBound
    rw [after] at shorter
    simp only [List.length_cons] at spaceBound
    omega
  · cases found

theorem makesProgress_readAttribute : Reader.MakesProgress readAttribute := by
  intro text value rest found
  obtain ⟨⟨space, afterSpace⟩, spaceFound, next⟩ := Option.bind_eq_some_iff.mp found
  obtain ⟨⟨name, afterName⟩, nameFound, last⟩ := Option.map_eq_some_iff.mp next
  have spaceBound := length_readRun spaceFound
  have nameBound := length_readRun nameFound
  cases assigned : readAssignment afterName with
  | none =>
      simp only [assigned] at last
      cases last
      exact Nat.lt_trans nameBound spaceBound
  | some result =>
      obtain ⟨assignedValue, afterValue⟩ := result
      have valueBound := length_readAssignment assigned
      simp only [assigned] at last
      cases last
      omega

theorem makesProgress_readOpening : Reader.MakesProgress readOpening := by
  intro text value rest found
  unfold readOpening at found
  split at found
  · rename_i tail
    obtain ⟨⟨tag, afterTag⟩, tagFound, next⟩ := Option.bind_eq_some_iff.mp found
    have tagBound := length_readTag tagFound
    have attributesBound := Reader.length_repeated_le makesProgress_readAttribute afterTag.length afterTag
    have spaceBound := length_dropWhile_le isSpace (Reader.many readAttribute afterTag).2
    simp only [skipSpace] at next
    split at next
    · rename_i dropped
      cases next
      rw [dropped] at spaceBound
      simp only [List.length_cons, Reader.many] at spaceBound ⊢
      omega
    · rename_i dropped
      cases next
      rw [dropped] at spaceBound
      simp only [List.length_cons, Reader.many] at spaceBound ⊢
      omega
    · cases next
  · cases found

theorem makesProgress_readText : Reader.MakesProgress readText := by
  intro text value rest found
  unfold readText at found
  split at found
  · cases found
    exact Nat.lt_succ_self _
  · obtain ⟨⟨run, ending⟩, inner, same⟩ := Option.map_eq_some_iff.mp found
    cases same
    exact length_readRun inner

theorem makesProgress_read : Reader.MakesProgress read :=
  makesProgress_readComment.orElse (makesProgress_readDeclaration.orElse
    (makesProgress_readClosing.orElse (makesProgress_readOpening.orElse makesProgress_readText)))

theorem readText_isSome (c : Char) (rest : List Char) : (readText (c :: rest)).isSome = true := by
  unfold readText
  split
  · rfl
  · rename_i noAngle
    have other : c ≠ '<' := fun same => noAngle rest (by rw [same])
    simp [readRun, other]

/-- Every text that is not empty starts with a token. -/
theorem read_isSome (c : Char) (rest : List Char) : (read (c :: rest)).isSome = true := by
  simp [read, Option.orElse_eq_or, readText_isSome]

/-- A scan leaves nothing over. -/
theorem rest_scan (text : List Char) : (Reader.many read text).2 = [] := by
  rcases Reader.item_many makesProgress_read text with stuck | done
  · cases left : (Reader.many read text).2 with
    | nil => rfl
    | cons c rest =>
        have some := read_isSome c rest
        rw [← left, stuck] at some
        cases some
  · exact done

end LiveMarkup.Token
