import LiveMarkup.Proofs.Tracking

/-
This file compares the evaluation of expressions, which leaves operands and branches out, with an evaluation
that leaves nothing out.
-/

namespace LiveMarkup

namespace Expr

section

variable {M : Type → Type} [Monad M] [MonadExceptOf EvalError M]

mutual

/-- Every operand and every branch is evaluated from left to right, and then the results are combined. -/
def evalEagerly (scope : Scope M) : Expr → M Value
  | .number value => raise (Value.ofBinary value)
  | .string value => pure (.string value)
  | .bool value => pure (.bool value)
  | .null => pure .null
  | .ident name => scope.lookup name
  | .member object property => do
      let object ← evalEagerly scope object
      raise (object.property property)
  | .index object position => do
      let object ← evalEagerly scope object
      let position ← evalEagerly scope position
      raise (object.itemAt position)
  | .call name arguments => do
      let arguments ← evalEagerlyAll scope arguments
      scope.call name arguments
  | .unary operator operand => do
      let operand ← evalEagerly scope operand
      raise (Value.applyUnary operator operand)
  | .binary operator left right => do
      let left ← evalEagerly scope left
      let right ← evalEagerly scope right
      raise (Value.applyBinary operator left right)
  | .conditional test yes no => do
      let test ← evalEagerly scope test
      let yes ← evalEagerly scope yes
      let no ← evalEagerly scope no
      pure (if test.isTruthy then yes else no)

def evalEagerlyAll (scope : Scope M) : List Expr → M (List Value)
  | [] => pure []
  | first :: rest => do
      let value ← evalEagerly scope first
      let values ← evalEagerlyAll scope rest
      pure (value :: values)

end

end

end Expr

namespace Scope.Matches

open LiveMarkup.Expr

variable {M N : Type → Type} [Monad M] [MonadExceptOf EvalError M] [Monad N] [MonadExceptOf EvalError N]
variable {related : (A : Type) → M A → N A → Prop} {first : Scope M} {second : Scope N}

/-- Eager evaluation does related things in related scopes, as evaluation does. -/
theorem evalEagerly (same : first.Matches related second) : ∀ expr : Expr, expr.isCallFree = true →
    related Value (Expr.evalEagerly first expr) (Expr.evalEagerly second expr)
  | .number _, _ => same.raise _
  | .string _, _ => same.pure _
  | .bool _, _ => same.pure _
  | .null, _ => same.pure _
  | .ident name, _ => same.lookup name
  | .call _ _, impossible => by cases impossible
  | .member object _, free => by
      unfold isCallFree at free
      exact same.bind (same.evalEagerly object free) fun _ => same.raise _
  | .index object position, free => by
      unfold isCallFree at free
      obtain ⟨freeObject, freePosition⟩ := (Bool.and_eq_true _ _).mp free
      exact same.bind (same.evalEagerly object freeObject) fun _ =>
        same.bind (same.evalEagerly position freePosition) fun _ => same.raise _
  | .unary _ operand, free => by
      unfold isCallFree at free
      exact same.bind (same.evalEagerly operand free) fun _ => same.raise _
  | .binary _ left right, free => by
      unfold isCallFree at free
      obtain ⟨freeLeft, freeRight⟩ := (Bool.and_eq_true _ _).mp free
      exact same.bind (same.evalEagerly left freeLeft) fun _ =>
        same.bind (same.evalEagerly right freeRight) fun _ => same.raise _
  | .conditional test yes no, free => by
      unfold isCallFree at free
      obtain ⟨both, freeNo⟩ := (Bool.and_eq_true _ _).mp free
      obtain ⟨freeTest, freeYes⟩ := (Bool.and_eq_true _ _).mp both
      exact same.bind (same.evalEagerly test freeTest) fun _ =>
        same.bind (same.evalEagerly yes freeYes) fun _ =>
          same.bind (same.evalEagerly no freeNo) fun _ => same.pure _

end Scope.Matches

/-! Where nothing fails, what is left out does not matter. -/

namespace Value

/-- The operator gives its left side where evaluation does not look at the right side. -/
theorem applyBinary_of_decided {operator : BinaryOperator} {left : Value} (right : Value)
    (decided : operator = .and ∧ ¬ left.isTruthy ∨ operator = .or ∧ left.isTruthy) :
    applyBinary operator left right = .ok left := by
  rcases decided with ⟨rfl, falsy⟩ | ⟨rfl, truthy⟩
  · exact congrArg Except.ok (if_neg falsy)
  · exact congrArg Except.ok (if_pos truthy)

end Value

namespace Expr

open Observed

/-- A sequence succeeds only if both of its parts succeed. -/
theorem except_bind_eq_ok {A B : Type} {first : Except EvalError A} {next : A → Except EvalError B}
    {value : B} (succeeds : first >>= next = .ok value) :
    ∃ middle, first = .ok middle ∧ next middle = .ok value := by
  cases first with
  | error error => cases succeeds
  | ok middle => exact ⟨middle, rfl, succeeds⟩

/-- What eager evaluation gives, evaluation gives. -/
theorem eval_of_evalEagerly (scope : Scope (Except EvalError)) : ∀ (expr : Expr) {value : Value},
    expr.isCallFree = true → evalEagerly scope expr = .ok value → eval scope expr = .ok value
  | .number _, _, _, gives => gives
  | .string _, _, _, gives => gives
  | .bool _, _, _, gives => gives
  | .null, _, _, gives => gives
  | .ident _, _, _, gives => gives
  | .call _ _, _, impossible, _ => by cases impossible
  | .member object _, _, free, gives => by
      unfold isCallFree at free
      unfold evalEagerly at gives
      obtain ⟨held, objectGives, gives⟩ := except_bind_eq_ok gives
      unfold eval
      rw [eval_of_evalEagerly scope object free objectGives]
      exact gives
  | .index object position, _, free, gives => by
      unfold isCallFree at free
      obtain ⟨freeObject, freePosition⟩ := (Bool.and_eq_true _ _).mp free
      unfold evalEagerly at gives
      obtain ⟨held, objectGives, gives⟩ := except_bind_eq_ok gives
      obtain ⟨place, positionGives, gives⟩ := except_bind_eq_ok gives
      unfold eval
      rw [eval_of_evalEagerly scope object freeObject objectGives,
        eval_of_evalEagerly scope position freePosition positionGives]
      exact gives
  | .unary _ operand, _, free, gives => by
      unfold isCallFree at free
      unfold evalEagerly at gives
      obtain ⟨held, operandGives, gives⟩ := except_bind_eq_ok gives
      unfold eval
      rw [eval_of_evalEagerly scope operand free operandGives]
      exact gives
  | .binary operator left right, value, free, gives => by
      unfold isCallFree at free
      obtain ⟨freeLeft, freeRight⟩ := (Bool.and_eq_true _ _).mp free
      unfold evalEagerly at gives
      obtain ⟨first, leftGives, gives⟩ := except_bind_eq_ok gives
      obtain ⟨second, rightGives, gives⟩ := except_bind_eq_ok gives
      rw [raise_eq] at gives
      unfold eval
      rw [eval_of_evalEagerly scope left freeLeft leftGives,
        eval_of_evalEagerly scope right freeRight rightGives]
      show (if operator = .and ∧ ¬ first.isTruthy then Except.ok first
        else if operator = .or ∧ first.isTruthy then Except.ok first
        else raise (Value.applyBinary operator first second)) = Except.ok value
      -- Where the right side is left out, the operator would have given the left side too.
      split
      · rename_i decided
        exact (Value.applyBinary_of_decided second (.inl decided)).symm.trans gives
      · split
        · rename_i decided
          exact (Value.applyBinary_of_decided second (.inr decided)).symm.trans gives
        · exact (raise_eq _).trans gives
  | .conditional test yes no, value, free, gives => by
      unfold isCallFree at free
      obtain ⟨both, freeNo⟩ := (Bool.and_eq_true _ _).mp free
      obtain ⟨freeTest, freeYes⟩ := (Bool.and_eq_true _ _).mp both
      unfold evalEagerly at gives
      obtain ⟨decision, testGives, gives⟩ := except_bind_eq_ok gives
      obtain ⟨first, yesGives, gives⟩ := except_bind_eq_ok gives
      obtain ⟨second, noGives, gives⟩ := except_bind_eq_ok gives
      cases gives
      unfold eval
      rw [eval_of_evalEagerly scope test freeTest testGives]
      show (if decision.isTruthy then eval scope yes else eval scope no) = _
      split
      · exact eval_of_evalEagerly scope yes freeYes yesGives
      · exact eval_of_evalEagerly scope no freeNo noGives

end Expr

/-! An observer who does not stop at failures sees every name of an expression. -/

namespace Observed

variable {A B C : Type}

/-- Both parts are observed, also where the first one fails. The first failure counts. -/
def through (first : Observed A) (second : Observed B) (combine : A → B → Except EvalError C) :
    Observed C where
  names := first.names ++ second.names
  result := do
    let one ← first.result
    let other ← second.result
    combine one other

/-- These names begin with what is read, and they are all that is read unless a failure ends it. -/
structure Heads (seen : Observed A) (names : List String) : Prop where
  begins : seen.names <+: names
  whole : ∀ value, seen.result = .ok value → seen.names = names

namespace Heads

theorem raise (result : Except EvalError A) : (Expr.raise result : Observed A).Heads [] := by
  cases result <;> exact ⟨List.prefix_rfl, fun _ _ => rfl⟩

theorem pure (value : A) : (Pure.pure value : Observed A).Heads [] := raise (.ok value)

theorem bind {first : Observed A} {next : A → Observed B} {here rest : List String}
    (start : first.Heads here) (goesOn : ∀ value, (next value).Heads rest) :
    (first >>= next).Heads (here ++ rest) := by
  rw [bind_eq]
  cases outcome : first.result with
  | error error => exact ⟨start.begins.trans (List.prefix_append _ _), fun _ impossible => by cases impossible⟩
  | ok value =>
      dsimp only
      rw [start.whole value outcome]
      exact ⟨(List.prefix_append_right_inj _).mpr (goesOn value).begins,
        fun last gives => congrArg _ ((goesOn value).whole last gives)⟩

/-- A part that reads nothing changes nothing. -/
theorem bind_of_silent {first : Observed A} {next : A → Observed B} {names : List String}
    (start : first.Heads names) (silent : ∀ value, (next value).Heads []) : (first >>= next).Heads names := by
  have both := start.bind silent
  rwa [List.append_nil] at both

end Heads

theorem names_raise (result : Except EvalError A) : (Expr.raise result : Observed A).names = [] := by
  cases result <;> rfl

theorem names_bind_sublist {first : Observed A} {next : A → Observed B} {here rest : List String}
    (start : first.names.Sublist here) (goesOn : ∀ value, (next value).names.Sublist rest) :
    (first >>= next).names.Sublist (here ++ rest) := by
  rw [bind_eq]
  cases first.result with
  | error error => exact start.trans (List.sublist_append_left _ _)
  | ok value => exact start.append (goesOn value)

theorem names_bind_raise (first : Observed A) (combine : A → Except EvalError B) :
    (first >>= fun value => Expr.raise (combine value)).names = first.names := by
  rw [bind_eq]
  cases first.result with
  | error error => rfl
  | ok value =>
      dsimp only
      rw [names_raise, List.append_nil]

end Observed

namespace Expr

open Observed

mutual

/-- Eager evaluation is observed in every part, also in those that come after a failure. -/
def evalThrough (scope : Scope Observed) : Expr → Observed Value
  | .number value => raise (Value.ofBinary value)
  | .string value => pure (.string value)
  | .bool value => pure (.bool value)
  | .null => pure .null
  | .ident name => scope.lookup name
  | .member object property => do
      let object ← evalThrough scope object
      raise (object.property property)
  | .index object position =>
      (evalThrough scope object).through (evalThrough scope position) Value.itemAt
  | .call name arguments => do
      let arguments ← evalThroughAll scope arguments
      scope.call name arguments
  | .unary operator operand => do
      let operand ← evalThrough scope operand
      raise (Value.applyUnary operator operand)
  | .binary operator left right =>
      (evalThrough scope left).through (evalThrough scope right) (Value.applyBinary operator)
  | .conditional test yes no =>
      let branches := (evalThrough scope yes).through (evalThrough scope no) fun yes no => .ok (yes, no)
      (evalThrough scope test).through branches fun test branches =>
        .ok (if test.isTruthy then branches.1 else branches.2)

def evalThroughAll (scope : Scope Observed) : List Expr → Observed (List Value)
  | [] => pure []
  | first :: rest =>
      (evalThrough scope first).through (evalThroughAll scope rest) fun value values => .ok (value :: values)

end

/-- The names that a scope reads when it is asked for all identifiers of an expression. -/
def asked (scope : Scope Observed) (expr : Expr) : List String :=
  expr.identifiers.flatMap fun name => (scope.lookup name).names

section

variable (scope : Scope Observed)

/-- An observer who does not stop sees all identifiers from left to right. -/
theorem names_evalThrough : ∀ expr : Expr, expr.isCallFree = true →
    (evalThrough scope expr).names = expr.asked scope
  | .number _, _ => names_raise _
  | .string _, _ => rfl
  | .bool _, _ => rfl
  | .null, _ => rfl
  | .ident _, _ => (List.append_nil _).symm
  | .call _ _, impossible => by cases impossible
  | .member object _, free => by
      unfold isCallFree at free
      exact (names_bind_raise _ _).trans (names_evalThrough object free)
  | .index object position, free => by
      unfold isCallFree at free
      obtain ⟨freeObject, freePosition⟩ := (Bool.and_eq_true _ _).mp free
      show (evalThrough scope object).names ++ (evalThrough scope position).names = _
      rw [names_evalThrough object freeObject, names_evalThrough position freePosition]
      exact List.flatMap_append.symm
  | .unary _ operand, free => by
      unfold isCallFree at free
      exact (names_bind_raise _ _).trans (names_evalThrough operand free)
  | .binary _ left right, free => by
      unfold isCallFree at free
      obtain ⟨freeLeft, freeRight⟩ := (Bool.and_eq_true _ _).mp free
      show (evalThrough scope left).names ++ (evalThrough scope right).names = _
      rw [names_evalThrough left freeLeft, names_evalThrough right freeRight]
      exact List.flatMap_append.symm
  | .conditional test yes no, free => by
      unfold isCallFree at free
      obtain ⟨both, freeNo⟩ := (Bool.and_eq_true _ _).mp free
      obtain ⟨freeTest, freeYes⟩ := (Bool.and_eq_true _ _).mp both
      show (evalThrough scope test).names ++
        ((evalThrough scope yes).names ++ (evalThrough scope no).names) = _
      rw [names_evalThrough test freeTest, names_evalThrough yes freeYes, names_evalThrough no freeNo]
      simp only [asked, identifiers, List.flatMap_append, List.append_assoc]

/-- It makes no difference to the result that the observer does not stop. -/
theorem result_evalThrough : ∀ expr : Expr, expr.isCallFree = true →
    (evalThrough scope expr).result = (evalEagerly scope expr).result
  | .number _, _ => rfl
  | .string _, _ => rfl
  | .bool _, _ => rfl
  | .null, _ => rfl
  | .ident _, _ => rfl
  | .call _ _, impossible => by cases impossible
  | .member object _, free => by
      unfold isCallFree at free
      unfold evalThrough evalEagerly
      rw [result_bind, result_bind, result_evalThrough object free]
  | .index object position, free => by
      unfold isCallFree at free
      obtain ⟨freeObject, freePosition⟩ := (Bool.and_eq_true _ _).mp free
      unfold evalThrough evalEagerly through
      simp only [result_bind, result_raise, result_evalThrough object freeObject,
        result_evalThrough position freePosition]
  | .unary _ operand, free => by
      unfold isCallFree at free
      unfold evalThrough evalEagerly
      rw [result_bind, result_bind, result_evalThrough operand free]
  | .binary _ left right, free => by
      unfold isCallFree at free
      obtain ⟨freeLeft, freeRight⟩ := (Bool.and_eq_true _ _).mp free
      unfold evalThrough evalEagerly through
      simp only [result_bind, result_raise, result_evalThrough left freeLeft,
        result_evalThrough right freeRight]
  | .conditional test yes no, free => by
      unfold isCallFree at free
      obtain ⟨both, freeNo⟩ := (Bool.and_eq_true _ _).mp free
      obtain ⟨freeTest, freeYes⟩ := (Bool.and_eq_true _ _).mp both
      unfold evalThrough evalEagerly through
      simp only [result_bind, result_evalThrough test freeTest, result_evalThrough yes freeYes,
        result_evalThrough no freeNo, bind_assoc]
      rfl

/-- Eager evaluation reads all identifiers from left to right until something fails. -/
theorem heads_evalEagerly : ∀ expr : Expr, expr.isCallFree = true →
    (evalEagerly scope expr).Heads (expr.asked scope)
  | .number _, _ => .raise _
  | .string _, _ => .pure _
  | .bool _, _ => .pure _
  | .null, _ => .pure _
  | .ident name, _ => by
      have single : asked scope (.ident name) = (scope.lookup name).names := List.append_nil _
      rw [single]
      exact ⟨List.prefix_rfl, fun _ _ => rfl⟩
  | .call _ _, impossible => by cases impossible
  | .member object _, free => by
      unfold isCallFree at free
      exact (heads_evalEagerly object free).bind_of_silent fun _ => .raise _
  | .index object position, free => by
      unfold isCallFree at free
      obtain ⟨freeObject, freePosition⟩ := (Bool.and_eq_true _ _).mp free
      rw [asked, identifiers, List.flatMap_append]
      exact (heads_evalEagerly object freeObject).bind fun _ =>
        (heads_evalEagerly position freePosition).bind_of_silent fun _ => .raise _
  | .unary _ operand, free => by
      unfold isCallFree at free
      exact (heads_evalEagerly operand free).bind_of_silent fun _ => .raise _
  | .binary _ left right, free => by
      unfold isCallFree at free
      obtain ⟨freeLeft, freeRight⟩ := (Bool.and_eq_true _ _).mp free
      rw [asked, identifiers, List.flatMap_append]
      exact (heads_evalEagerly left freeLeft).bind fun _ =>
        (heads_evalEagerly right freeRight).bind_of_silent fun _ => .raise _
  | .conditional test yes no, free => by
      unfold isCallFree at free
      obtain ⟨both, freeNo⟩ := (Bool.and_eq_true _ _).mp free
      obtain ⟨freeTest, freeYes⟩ := (Bool.and_eq_true _ _).mp both
      rw [asked, identifiers, List.flatMap_append, List.flatMap_append, List.append_assoc]
      exact (heads_evalEagerly test freeTest).bind fun _ => (heads_evalEagerly yes freeYes).bind fun _ =>
        (heads_evalEagerly no freeNo).bind_of_silent fun _ => .pure _

/-- Evaluation reads identifiers from left to right, and leaves some of them out. -/
theorem names_eval_sublist : ∀ expr : Expr, expr.isCallFree = true →
    (eval scope expr).names.Sublist (expr.asked scope)
  | .number _, _ => (names_raise _).symm ▸ List.nil_sublist _
  | .string _, _ => List.nil_sublist _
  | .bool _, _ => List.nil_sublist _
  | .null, _ => List.nil_sublist _
  | .ident name, _ => List.sublist_append_left _ _
  | .call _ _, impossible => by cases impossible
  | .member object _, free => by
      unfold isCallFree at free
      exact (names_bind_raise _ _).symm ▸ names_eval_sublist object free
  | .index object position, free => by
      unfold isCallFree at free
      obtain ⟨freeObject, freePosition⟩ := (Bool.and_eq_true _ _).mp free
      rw [asked, identifiers, List.flatMap_append]
      exact names_bind_sublist (names_eval_sublist object freeObject) fun _ =>
        (names_bind_raise _ _).symm ▸ names_eval_sublist position freePosition
  | .unary _ operand, free => by
      unfold isCallFree at free
      exact (names_bind_raise _ _).symm ▸ names_eval_sublist operand free
  | .binary operator left right, free => by
      unfold isCallFree at free
      obtain ⟨freeLeft, freeRight⟩ := (Bool.and_eq_true _ _).mp free
      rw [asked, identifiers, List.flatMap_append]
      refine names_bind_sublist (names_eval_sublist left freeLeft) fun first => ?_
      split
      · exact List.nil_sublist _
      · split
        · exact List.nil_sublist _
        · exact (names_bind_raise _ _).symm ▸ names_eval_sublist right freeRight
  | .conditional test yes no, free => by
      unfold isCallFree at free
      obtain ⟨both, freeNo⟩ := (Bool.and_eq_true _ _).mp free
      obtain ⟨freeTest, freeYes⟩ := (Bool.and_eq_true _ _).mp both
      rw [asked, identifiers, List.flatMap_append, List.flatMap_append, List.append_assoc]
      refine names_bind_sublist (names_eval_sublist test freeTest) fun decision => ?_
      split
      · exact (names_eval_sublist yes freeYes).trans (List.sublist_append_left _ _)
      · exact (names_eval_sublist no freeNo).trans (List.sublist_append_right _ _)

end

end Expr

namespace Scope

/-- What is read along the way is forgotten. -/
def results (scope : Scope Observed) : Scope (Except EvalError) where
  lookup name := (scope.lookup name).result
  call name arguments := (scope.call name arguments).result

theorem matches_results (scope : Scope Observed) :
    scope.Matches (fun _ seen result => seen.result = result) scope.results where
  raise result := (Observed.result_raise result).trans (Observed.raise_eq result).symm
  bind := by
    rintro A B action _ next continued rfl same
    rw [Observed.result_bind]
    exact bind_congr same
  lookup _ := rfl

end Scope

namespace Store

/-- A state is asked for everything that is not a method. -/
theorem asked_view (store : Store) (expr : Expr) :
    expr.asked store.view = expr.identifiers.filter fun name => !store.methods.contains name := by
  unfold Expr.asked
  induction expr.identifiers with
  | nil => rfl
  | cons name rest inductionHypothesis =>
      rw [List.flatMap_cons, inductionHypothesis, List.filter_cons]
      unfold view
      dsimp only
      cases store.methods.contains name <;> rfl

end Store

open Live in
/-- An expression without calls is evaluated in any scope. Where eager evaluation gives a value, evaluation
gives the same value. The names that evaluation reads are some of those that eager evaluation would read if
it did not stop at failures, in the same order. On a state these are the identifiers that are not methods,
and reading them is all that evaluation does to the world. -/
theorem short_circuit_agrees_with_eager (expr : Expr) (free : expr.isCallFree = true) :
    (∀ (scope : Scope (Except EvalError)) value,
      Expr.evalEagerly scope expr = .ok value → Expr.eval scope expr = .ok value) ∧
    (∀ scope : Scope Observed,
      (∀ value, (Expr.evalEagerly scope expr).result = .ok value → (Expr.eval scope expr).result = .ok value) ∧
      (Expr.eval scope expr).names.Sublist (Expr.evalThrough scope expr).names ∧
      (Expr.evalEagerly scope expr).Heads (Expr.evalThrough scope expr).names ∧
      (Expr.evalThrough scope expr).result = (Expr.evalEagerly scope expr).result) ∧
    ∀ (run : Runner) state store world, world.store? state = some store →
      let everything := (Expr.evalThrough store.view expr).names
      everything = (expr.identifiers.filter fun name => !store.methods.contains name) ∧
      ∃ (names : List String) (result : Except EvalError Value), names.Sublist everything ∧
        Expr.eval (scopeOf run state) expr world =
          (Expr.raise result : Live Value) (world.reading state names) ∧
        ∀ value after, Expr.evalEagerly (scopeOf run state) expr world = .ok value after →
          result = .ok value ∧ after = world.reading state everything := by
  have agrees : ∀ (scope : Scope Observed) value, (Expr.evalEagerly scope expr).result = .ok value →
      (Expr.eval scope expr).result = .ok value := by
    intro scope value gives
    rw [scope.matches_results.evalEagerly expr free] at gives
    rw [scope.matches_results.eval expr free]
    exact Expr.eval_of_evalEagerly _ expr free gives
  refine ⟨fun scope value => Expr.eval_of_evalEagerly scope expr free, fun scope => ?_, ?_⟩
  · rw [Expr.names_evalThrough scope expr free]
    exact ⟨agrees scope, Expr.names_eval_sublist scope expr free, Expr.heads_evalEagerly scope expr free,
      Expr.result_evalThrough scope expr free⟩
  · intro run state store world found
    dsimp only
    rw [Expr.names_evalThrough store.view expr free]
    have mirrored : Mirrors state store (Expr.eval (scopeOf run state) expr) _ := Mirrors.eval expr free
    have mirroredEagerly : Mirrors state store _ _ :=
      (Mirrors.matches_view run state store).evalEagerly expr free
    refine ⟨store.asked_view expr, (Expr.eval store.view expr).names, (Expr.eval store.view expr).result,
      Expr.names_eval_sublist _ expr free, ?_, ?_⟩
    · rw [mirrored world found]
      cases (Expr.eval store.view expr).result <;> rfl
    · intro value after gives
      rw [mirroredEagerly world found] at gives
      cases outcome : (Expr.evalEagerly store.view expr).result with
      | error error => rw [outcome] at gives; cases gives
      | ok given =>
          rw [outcome] at gives
          cases gives
          have whole := (Expr.heads_evalEagerly store.view expr free).whole _ outcome
          exact ⟨agrees _ _ outcome, by rw [whole]⟩

/-- The right side of the inner operator decides, and the right side of the outer one is left out. -/
theorem eager_choice : Expr.eval (Scope.ofFields [("a", .bool true), ("b", .string "x"), ("c", .null)])
    (.binary .or (.binary .and (.ident "a") (.ident "b")) (.ident "c")) = .ok (.string "x") :=
  (short_circuit_agrees_with_eager _ rfl).1 _ _ rfl

end LiveMarkup
