import LiveMarkup.Proofs.Accepting

/-
This file shows that written expressions are read back, and states which sources are accepted.
-/

namespace LiveMarkup.Expr

variable {spell : Binary64 → List Char}

/-! Strings. -/

theorem unescape_escapeQuoted (text : List Char) :
    Text.unescape (text.flatMap escapeQuoted) = text := by
  induction text with
  | nil => rfl
  | cons c rest inductionHypothesis =>
      rw [List.flatMap_cons]
      by_cases special : c = '"' ∨ c = '\\'
      · rw [escapeQuoted, if_pos special]
        obtain rfl | rfl := special <;>
          simp [Text.unescape, Text.escaped, inductionHypothesis]
      · rw [escapeQuoted, if_neg special, List.singleton_append, Text.unescape, inductionHypothesis]
        intro c' rest' slash
        exact absurd (Or.inr slash) special

theorem isBody_escapeQuoted (text : List Char) : IsBody '"' (text.flatMap escapeQuoted) := by
  induction text with
  | nil => exact IsBody.nil
  | cons c rest inductionHypothesis =>
      rw [List.flatMap_cons]
      by_cases special : c = '"' ∨ c = '\\'
      · rw [escapeQuoted, if_pos special]
        exact IsBody.pair c inductionHypothesis
      · rw [escapeQuoted, if_neg special]
        exact IsBody.plain (fun quote => special (Or.inl quote)) (fun slash => special (Or.inr slash))
          inductionHypothesis

/-! Forms. -/

/-- A primary form is a form of every level. -/
theorem Renders.lift {expr : Expr} {text : List Char} (written : Renders .primary expr text) :
    ∀ level, Renders level expr text
  | .primary => written
  | .access => Renders.bare written
  | .operand => Renders.plain (Renders.bare written)
  | .binary level => Renders.single level (Renders.plain (Renders.bare written))
  | .conditional => Renders.unconditional (Renders.single 0 (Renders.plain (Renders.bare written)))

theorem Renders.lower {level : Nat} {expr : Expr} {text : List Char}
    (written : Renders (.binary level) expr text) : Renders .conditional expr text := by
  induction level with
  | zero => exact Renders.unconditional written
  | succ level inductionHypothesis => exact inductionHypothesis (Renders.higher written)

/-- This is the level that an expression is written at. -/
def form (expr : Expr) : Level := if expr.isPrimary then .primary else .conditional

theorem renders_of_form {expr : Expr} {text : List Char} (written : Renders (form expr) expr text) :
    Renders .conditional expr text := by
  unfold form at written
  split at written
  · exact written.lift .conditional
  · exact written

/-- Parentheses make an operand of every level. -/
theorem renders_enclose {expr : Expr} {text : List Char} (written : Renders (form expr) expr text)
    (level : Level) : Renders level expr (enclose expr text) := by
  unfold form at written
  unfold enclose
  split at written
  · rename_i primary
    rw [if_pos primary]
    exact written.lift level
  · rename_i composed
    rw [if_neg composed]
    have inner := Renders.parenthesised isBlank_nil isBlank_nil written
    simp only [List.append_nil] at inner
    exact inner.lift level

theorem Separated.pad {texts : List (List Char)} {gap text : List Char}
    (separated : Separated texts text) (blank : IsBlank gap) : Separated texts (gap ++ text) := by
  cases separated with
  | none inside => exact Separated.none (blank.append inside)
  | one beforeBlank afterBlank =>
      simpa using Separated.one (blank.append beforeBlank) afterBlank
  | more beforeBlank afterBlank someTexts separated =>
      simpa using Separated.more (blank.append beforeBlank) afterBlank someTexts separated

mutual

theorem renders_write : ∀ expr, Writable spell expr → Renders (form expr) expr (write spell expr)
  | .number _, writable => Renders.number writable.1 writable.2
  | .string value, _ => by
      have written := Renders.string (Or.inl rfl) (isBody_escapeQuoted value.toList)
      rwa [unescape_escapeQuoted, String.ofList_toList] at written
  | .bool true, _ => Renders.word (by simp [words])
  | .bool false, _ => Renders.word (by simp [words])
  | .null, _ => Renders.word (by simp [words])
  | .ident _, writable => Renders.ident writable
  | .member object property, writable => by
      have inner := renders_enclose (renders_write object writable.1) .access
      have written := Renders.member inner isBlank_nil isBlank_nil writable.2
      simp only [List.append_nil, List.nil_append, List.append_assoc, List.cons_append] at written
      exact (Renders.single 0 (Renders.plain written)).lower
  | .index object position, writable => by
      have inner := renders_enclose (renders_write object writable.1) .access
      have chosen := renders_of_form (renders_write position writable.2)
      have written := Renders.index inner isBlank_nil isBlank_nil isBlank_nil chosen
      simp only [List.append_nil, List.nil_append, List.append_assoc, List.cons_append] at written
      rw [write, List.append_assoc, List.cons_append]
      exact (Renders.single 0 (Renders.plain written)).lower
  | .call name arguments, writable => by
      obtain ⟨parts, rfl, each, separated⟩ := separated_writeAll arguments writable.2
      have written := Renders.call writable.1 isBlank_nil each separated
      rw [List.append_nil] at written
      exact written
  | .unary operator operand, writable => by
      have inner := renders_enclose (renders_write operand writable) .operand
      have written := Renders.unary operator isBlank_nil inner
      rw [List.append_nil] at written
      exact (Renders.single 0 written).lower
  | .binary operator left right, writable => by
      have first := renders_enclose (renders_write left writable.1) (.binary operator.level)
      have second := renders_enclose (renders_write right writable.2) (.binary (operator.level + 1))
      have written := Renders.binary operator first isBlank_space isBlank_space second
      simp only [List.append_assoc, List.cons_append, List.nil_append] at written
      simp only [write, List.append_assoc, List.cons_append]
      exact written.lower
  | .conditional test yes no, writable => by
      have first := renders_enclose (renders_write test writable.1) (.binary 0)
      have second := renders_of_form (renders_write yes writable.2.1)
      have third := renders_of_form (renders_write no writable.2.2)
      have written := Renders.conditional first isBlank_space isBlank_space isBlank_space
        isBlank_space second third
      simp only [List.append_assoc, List.cons_append, List.nil_append] at written
      simp only [write, List.append_assoc, List.cons_append]
      exact written

theorem separated_writeAll : ∀ arguments, AllWritable spell arguments →
    ∃ parts : List (Expr × List Char), parts.map Prod.fst = arguments ∧
      (∀ part ∈ parts, Renders .conditional part.1 part.2) ∧
      Separated (parts.map Prod.snd) (writeAll spell arguments)
  | [], _ => ⟨[], rfl, List.forall_mem_nil _, Separated.none isBlank_nil⟩
  | [argument], writable => by
      have written := renders_of_form (renders_write argument writable.1)
      have separated : Separated [write spell argument] ([] ++ write spell argument ++ []) :=
        Separated.one isBlank_nil isBlank_nil
      rw [List.append_nil] at separated
      exact ⟨[(argument, write spell argument)], rfl, by simpa using written, separated⟩
  | argument :: next :: rest, writable => by
      have written := renders_of_form (renders_write argument writable.1)
      obtain ⟨parts, listed, each, separated⟩ := separated_writeAll (next :: rest) writable.2
      have someTexts : parts.map Prod.snd ≠ [] := by
        intro empty
        rw [List.map_eq_nil_iff.mp empty] at listed
        cases listed
      have whole : Separated (write spell argument :: parts.map Prod.snd)
          ([] ++ write spell argument ++ [] ++ ',' :: ([' '] ++ writeAll spell (next :: rest))) :=
        Separated.more isBlank_nil isBlank_nil someTexts (separated.pad isBlank_space)
      simp only [List.append_nil, List.nil_append] at whole
      exact ⟨(argument, write spell argument) :: parts, by rw [List.map_cons, listed],
        List.forall_mem_cons.mpr ⟨written, each⟩, whole⟩

end

/-! Sources. -/

theorem parse_eq_ok_iff {source : String} {expr : Expr} :
    parse source = .ok expr ↔ read? source.toList = some expr := by
  unfold parse
  split
  · rename_i value found
    rw [found, Except.ok.injEq, Option.some.injEq]
  · rename_i failed
    simp [failed]

theorem parse_eq_ok_iff_written (source : String) (expr : Expr) :
    parse source = .ok expr ↔ Written expr source := by
  rw [parse_eq_ok_iff]
  constructor
  · exact written_of_read?
  · rintro ⟨before, text, after, beforeBlank, afterBlank, same, written⟩
    rw [same]
    exact read?_of_written beforeBlank afterBlank written

/-- No source is written for two expressions. -/
theorem Written.unique {source : String} {first second : Expr} (one : Written first source)
    (other : Written second source) : first = second := by
  rw [← parse_eq_ok_iff_written] at one other
  exact Except.ok.inj (one.symm.trans other)

/-- The parser accepts the sources of its grammar and no others, and gives the expressions that they
are written for. Each expression that can be written is read back, and each numeral has a value. -/
theorem parser_accepts_grammar :
    (∀ source expr, parse source = .ok expr ↔ Written expr source) ∧
      (∀ spell expr, Writable spell expr → parse (String.ofList (write spell expr)) = .ok expr) ∧
      ∀ numeral, IsNumeral numeral → ∃ value, Binary64.read? numeral = some value := by
  refine ⟨parse_eq_ok_iff_written, ?_, ?_⟩
  · intro spell expr writable
    rw [parse_eq_ok_iff_written]
    exact ⟨[], write spell expr, [], isBlank_nil, isBlank_nil, by simp,
      renders_of_form (renders_write expr writable)⟩
  · exact fun numeral isNumeral => Option.isSome_iff_exists.mp (read?_isSome isNumeral)

/-- A product of a negated name and a sum in parentheses is read back. -/
theorem parses_written_product :
    let seven := Binary64.ofDecimal false 7 0
    let product : Expr := .binary .mul (.unary .neg (.member (.ident "a") "b"))
      (.binary .add (.number seven) (.call "f" [.string "\"<", .bool true]))
    Writable (fun _ => ['7']) product ∧
      write (fun _ => ['7']) product = "(-(a.b)) * (7 + f(\"\\\"<\", true))".toList ∧
      parse "(-(a.b)) * (7 + f(\"\\\"<\", true))" = .ok product := by
  intro seven product
  have digits : IsDigits ['7'] := ⟨List.cons_ne_nil _ _, by simp⟩
  have numeral : IsNumeral ['7'] := IsNumeral.parts digits (Or.inl rfl) (Or.inl rfl)
  have writable : Writable (fun _ => ['7']) product :=
    ⟨⟨rfl, rfl⟩, ⟨numeral, rfl⟩, rfl, trivial, trivial, trivial⟩
  have spelt : write (fun _ => ['7']) product = "(-(a.b)) * (7 + f(\"\\\"<\", true))".toList := by
    decide
  have parsed := parser_accepts_grammar.2.1 (fun _ => ['7']) product writable
  rw [spelt, String.ofList_toList] at parsed
  exact ⟨writable, spelt, parsed⟩

end LiveMarkup.Expr
