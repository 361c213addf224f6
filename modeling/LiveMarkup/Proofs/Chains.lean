import LiveMarkup.Proofs.Lexemes

/-
This file relates chains of operands to the expressions that the levels of their operators make of them.
-/

namespace LiveMarkup

namespace Reader

variable {A : Type} {item : Reader A}

/-- A reader gives these values one after the other, and this rest is left. -/
inductive Reads (item : Reader A) : List Char → List A → List Char → Prop where
  | done {text : List Char} : Reads item text [] text
  | next {text middle rest : List Char} {value : A} {values : List A} :
      item text = some (value, middle) → Reads item middle values rest →
      Reads item text (value :: values) rest

theorem Reads.append {text middle rest : List Char} {first second : List A}
    (before : Reads item text first middle) (after : Reads item middle second rest) :
    Reads item text (first ++ second) rest := by
  induction before with
  | done => exact after
  | next found _ inductionHypothesis => exact Reads.next found (inductionHypothesis after)

theorem Reads.single {text rest : List Char} {value : A} (found : item text = some (value, rest)) :
    Reads item text [value] rest := Reads.next found Reads.done

theorem reads_many (text : List Char) : Reads item text (many item text).1 (many item text).2 := by
  have general : ∀ (limit : Nat) (text : List Char),
      Reads item text (repeated item limit text).1 (repeated item limit text).2 := by
    intro limit
    induction limit with
    | zero => exact fun text => Reads.done
    | succ limit inductionHypothesis =>
        intro text
        cases found : item text with
        | none =>
            simp only [repeated, found]
            exact Reads.done
        | some result =>
            simp only [repeated, found]
            exact Reads.next found (inductionHypothesis result.2)
  exact general text.length text

/-- A reader that makes progress repeats until it is stuck. -/
theorem many_of_reads (progress : MakesProgress item) {text rest : List Char} {values : List A}
    (reads : Reads item text values rest) (stuck : item rest = none) :
    many item text = (values, rest) := by
  induction reads with
  | done => exact many_of_none stuck
  | next found _ inductionHypothesis =>
      rw [many_of_some progress found, inductionHypothesis stuck]

end Reader

theorem BinaryOperator.level_le (operator : BinaryOperator) : operator.level ≤ 5 := by
  cases operator <;> decide

namespace Expr

/-! What the levels join is a rendering. -/

/-- A chain is written as operators, each with an operand of this level after it. -/
inductive Tail (level : Nat) : List (BinaryOperator × Expr) → List Char → Prop where
  | done : Tail level [] []
  | next (operator : BinaryOperator) {operand : Expr} {chain : List (BinaryOperator × Expr)}
      {before after text rest : List Char} : IsBlank before → IsBlank after →
      Renders (.binary level) operand text → Tail level chain rest →
      Tail level ((operator, operand) :: chain)
        (before ++ operator.symbol.toList ++ after ++ text ++ rest)

/-- A first operand and a chain after it are written with operators below a level outside of operands. -/
def Joined (level : Nat) (state : Expr × List (BinaryOperator × Expr)) (text : List Char) : Prop :=
  ∃ head tail, text = head ++ tail ∧ Renders (.binary level) state.1 head ∧
    Tail level state.2 tail ∧ ∀ part ∈ state.2, part.1.level < level

theorem joinLevel_rendered {level : Nat} {chain : List (BinaryOperator × Expr)} {first : Expr}
    {head tail : List Char} (here : Renders (.binary level) first head)
    (behind : Tail (level + 1) chain tail) (low : ∀ part ∈ chain, part.1.level < level + 1) :
    Joined level (joinLevel level first chain) (head ++ tail) := by
  induction chain generalizing first head tail with
  | nil =>
      cases behind
      exact ⟨head, [], rfl, here, Tail.done, List.forall_mem_nil _⟩
  | cons part chain inductionHypothesis =>
      obtain ⟨operator, operand⟩ := part
      cases behind with
      | next _ beforeBlank afterBlank written behind =>
          rename_i before after text rest
          have lower := fun part member => low part (List.mem_cons_of_mem _ member)
          by_cases same : operator.level = level
          · -- The operator takes what is joined so far as its left operand.
            subst same
            have joined := inductionHypothesis
              (Renders.binary operator here beforeBlank afterBlank written) behind lower
            simpa [joinLevel] using joined
          · have below : operator.level < level := by
              have := low (operator, operand) List.mem_cons_self
              dsimp only at this
              omega
            obtain ⟨inner, outer, whole, renders, follows, others⟩ :=
              inductionHypothesis (Renders.higher written) behind lower
            refine ⟨head, before ++ operator.symbol.toList ++ after ++ inner ++ outer, ?_, ?_, ?_, ?_⟩
            · rw [List.append_assoc _ inner, ← whole]
              simp
            · simpa [joinLevel, same] using here
            · simpa [joinLevel, same] using Tail.next operator beforeBlank afterBlank renders follows
            · have every : ∀ part ∈ (operator, (joinLevel level operand chain).1) ::
                  (joinLevel level operand chain).2, part.1.level < level :=
                List.forall_mem_cons.mpr ⟨below, others⟩
              simpa only [joinLevel, if_neg same] using every

theorem Joined.step {level : Nat} {state : Expr × List (BinaryOperator × Expr)} {text : List Char}
    (joined : Joined (level + 1) state text) :
    Joined level (joinLevel level state.1 state.2) text := by
  obtain ⟨head, tail, rfl, here, behind, low⟩ := joined
  exact joinLevel_rendered (Renders.higher here) behind low

/-- After the lowest level no operator is left. -/
theorem joinLevels_rendered {first : Expr} {chain : List (BinaryOperator × Expr)} {text : List Char}
    (joined : Joined 6 (first, chain) text) : Renders (.binary 0) (joinLevels first chain) text := by
  have lowest := joined.step.step.step.step.step.step
  obtain ⟨head, tail, rfl, here, behind, low⟩ := lowest
  have empty := List.eq_nil_iff_forall_not_mem.mpr fun part member =>
    Nat.not_lt_zero _ (low part member)
  rw [empty] at behind
  cases behind
  rw [List.append_nil]
  exact here

/-! Conversely, a rendering with binary operators is joined from its operands. -/

/-- An expression of a level consists of its first operand and the chain of the others. -/
inductive Grouped : Nat → Expr → Expr → List (BinaryOperator × Expr) → Prop where
  | single (level : Nat) (operand : Expr) : Grouped level operand operand []
  | higher {level : Nat} {expr first : Expr} {chain : List (BinaryOperator × Expr)} :
      Grouped (level + 1) expr first chain → Grouped level expr first chain
  | binary (operator : BinaryOperator) {left right first second : Expr}
      {before after : List (BinaryOperator × Expr)} : Grouped operator.level left first before →
      Grouped (operator.level + 1) right second after →
      Grouped operator.level (.binary operator left right) first
        (before ++ (operator, second) :: after)

/-- This function joins the levels from `level + count` down to `level`, the highest first. -/
def joinDown (level : Nat) : Nat → Expr × List (BinaryOperator × Expr) →
    Expr × List (BinaryOperator × Expr)
  | 0, state => state
  | count + 1, state =>
      let joined := joinDown (level + 1) count state
      joinLevel level joined.1 joined.2

/-- A join does not reach across an operator of another level. -/
theorem joinLevel_append {level : Nat} {operator : BinaryOperator} (other : operator.level ≠ level)
    (first second : Expr) (before after : List (BinaryOperator × Expr)) :
    joinLevel level first (before ++ (operator, second) :: after) =
      ((joinLevel level first before).1, (joinLevel level first before).2 ++
        (operator, (joinLevel level second after).1) :: (joinLevel level second after).2) := by
  induction before generalizing first with
  | nil => simp [joinLevel, other]
  | cons part before inductionHypothesis =>
      by_cases same : part.1.level = level
      · simp [joinLevel, same, inductionHypothesis]
      · simp [joinLevel, same, inductionHypothesis]

theorem joinDown_append {operator : BinaryOperator} (count : Nat) {level : Nat}
    (low : operator.level < level) (first second : Expr) (before after : List (BinaryOperator × Expr)) :
    joinDown level count (first, before ++ (operator, second) :: after) =
      ((joinDown level count (first, before)).1, (joinDown level count (first, before)).2 ++
        (operator, (joinDown level count (second, after)).1) ::
          (joinDown level count (second, after)).2) := by
  induction count generalizing level with
  | zero => rfl
  | succ count inductionHypothesis =>
      have other : operator.level ≠ level := by omega
      simp only [joinDown, inductionHypothesis (Nat.lt_succ_of_lt low), joinLevel_append other]

/-- What joins to one expression joins with what comes after it. -/
theorem joinLevel_append_of_done {level : Nat} {first joined : Expr}
    {before : List (BinaryOperator × Expr)} (done : joinLevel level first before = (joined, []))
    (after : List (BinaryOperator × Expr)) :
    joinLevel level first (before ++ after) = joinLevel level joined after := by
  induction before generalizing first with
  | nil =>
      cases done
      rfl
  | cons part before inductionHypothesis =>
      by_cases same : part.1.level = level
      · simp only [joinLevel, same, if_true] at done
        simp only [List.cons_append, joinLevel, same, if_true, inductionHypothesis done]
      · simp [joinLevel, same] at done

theorem joinDown_nil (level count : Nat) (first : Expr) :
    joinDown level count (first, []) = (first, []) := by
  induction count generalizing level with
  | zero => rfl
  | succ count inductionHypothesis => simp only [joinDown, inductionHypothesis, joinLevel]

/-- Above all operators there are single operands only. -/
theorem Grouped.eq_of_le {level : Nat} {expr first : Expr} {chain : List (BinaryOperator × Expr)}
    (grouped : Grouped level expr first chain) (high : 6 ≤ level) : expr = first ∧ chain = [] := by
  induction grouped with
  | single => exact ⟨rfl, rfl⟩
  | higher _ inductionHypothesis => exact inductionHypothesis (by omega)
  | binary operator =>
      have := operator.level_le
      omega

theorem Grouped.joinDown_eq {level : Nat} {expr first : Expr} {chain : List (BinaryOperator × Expr)}
    (grouped : Grouped level expr first chain) {count : Nat} (enough : 6 ≤ level + count) :
    joinDown level count (first, chain) = (expr, []) := by
  induction grouped generalizing count with
  | single level operand => exact joinDown_nil level count operand
  | higher grouped inductionHypothesis =>
      cases count with
      | zero =>
          obtain ⟨rfl, rfl⟩ := grouped.eq_of_le (by omega)
          rfl
      | succ count =>
          rw [joinDown, inductionHypothesis (by omega)]
          rfl
  | binary operator left right leftHypothesis rightHypothesis =>
      have bound := operator.level_le
      cases count with
      | zero => omega
      | succ count =>
          have joinedLeft := leftHypothesis enough
          have joinedRight := rightHypothesis (show 6 ≤ operator.level + 1 + count by omega)
          simp only [joinDown] at joinedLeft ⊢
          rw [joinDown_append count (Nat.lt_succ_self _), joinedRight,
            joinLevel_append_of_done joinedLeft]
          simp [joinLevel]

theorem Grouped.joinLevels_eq {expr first : Expr} {chain : List (BinaryOperator × Expr)}
    (grouped : Grouped 0 expr first chain) : joinLevels first chain = expr :=
  congrArg Prod.fst (grouped.joinDown_eq (by decide : 6 ≤ 0 + 6))

end Expr

end LiveMarkup
