import LiveMarkup.Proofs.Gentle

/-
This file shows that an evaluation without calls depends on nothing but the values that it tracks, and that
it tracks all of them.
-/

namespace LiveMarkup

namespace Expr

mutual

/-- These names occur in an expression as identifiers. -/
def identifiers : Expr → List String
  | .ident name => [name]
  | .call _ arguments => identifiersAll arguments
  | .number _ => []
  | .string _ => []
  | .bool _ => []
  | .null => []
  | .member object _ => identifiers object
  | .index object position => identifiers object ++ identifiers position
  | .unary _ operand => identifiers operand
  | .binary _ left right => identifiers left ++ identifiers right
  | .conditional test yes no => identifiers test ++ identifiers yes ++ identifiers no

def identifiersAll : List Expr → List String
  | [] => []
  | first :: rest => identifiers first ++ identifiersAll rest

end

end Expr

namespace Store

/-- No method of a store has a name that an expression reads. -/
def Clears (store : Store) (expr : Expr) : Prop :=
  ∀ name ∈ expr.identifiers, store.methods.contains name = false

/-- These values are a store without methods. -/
def ofValues (values : Dictionary Value) : Store := { values }

end Store

namespace Observed

variable {A B : Type}

theorem result_bind (first : Observed A) (next : A → Observed B) :
    (first >>= next).result = first.result >>= fun value => (next value).result := by
  rw [bind_eq]
  cases first.result <;> rfl

theorem result_raise (result : Except EvalError A) : (Expr.raise result : Observed A).result = result := by
  cases result <;> rfl

theorem raise_eq (result : Except EvalError A) : (Expr.raise result : Except EvalError A) = result := by
  cases result <;> rfl

end Observed

namespace Expr

open Observed

/-- Methods that an expression does not name do not show. -/
theorem eval_view_of_clears (store : Store) : ∀ expr : Expr, expr.isCallFree = true → store.Clears expr →
    eval store.view expr = eval (Store.ofValues store.values).view expr
  | .number value, _, _ => rfl
  | .string value, _, _ => rfl
  | .bool value, _, _ => rfl
  | .null, _, _ => rfl
  | .call name arguments, impossible, _ => by cases impossible
  | .ident name, _, clears => by
      have unlisted : store.methods.contains name = false := clears name (List.mem_singleton_self name)
      have looked : eval store.view (.ident name) = store.view.lookup name := rfl
      rw [looked]
      unfold Store.view
      dsimp only
      rw [if_neg (by simp [unlisted])]
      rfl
  | .member object property, free, clears => by
      unfold isCallFree at free
      have same := eval_view_of_clears store object free clears
      exact congrArg (· >>= fun value => raise (value.property property)) same
  | .index object position, free, clears => by
      unfold isCallFree at free
      obtain ⟨freeObject, freePosition⟩ := (Bool.and_eq_true _ _).mp free
      have first := eval_view_of_clears store object freeObject
        fun name member => clears name (List.mem_append_left _ member)
      have second := eval_view_of_clears store position freePosition
        fun name member => clears name (List.mem_append_right _ member)
      unfold eval
      rw [first, second]
  | .unary operator operand, free, clears => by
      unfold isCallFree at free
      have same := eval_view_of_clears store operand free clears
      exact congrArg (· >>= fun value => raise (Value.applyUnary operator value)) same
  | .binary operator left right, free, clears => by
      unfold isCallFree at free
      obtain ⟨freeLeft, freeRight⟩ := (Bool.and_eq_true _ _).mp free
      have first := eval_view_of_clears store left freeLeft
        fun name member => clears name (List.mem_append_left _ member)
      have second := eval_view_of_clears store right freeRight
        fun name member => clears name (List.mem_append_right _ member)
      unfold eval
      rw [first, second]
  | .conditional test yes no, free, clears => by
      unfold isCallFree at free
      obtain ⟨both, freeNo⟩ := (Bool.and_eq_true _ _).mp free
      obtain ⟨freeTest, freeYes⟩ := (Bool.and_eq_true _ _).mp both
      have first := eval_view_of_clears store test freeTest
        fun name member => clears name (List.mem_append_left _ (List.mem_append_left _ member))
      have second := eval_view_of_clears store yes freeYes
        fun name member => clears name (List.mem_append_left _ (List.mem_append_right _ member))
      have third := eval_view_of_clears store no freeNo
        fun name member => clears name (List.mem_append_right _ member)
      unfold eval
      rw [first, second, third]

theorem matches_ofFields (fields : Dictionary Value) :
    (Scope.ofFields fields).Matches (fun _ result seen => result = seen.result)
      (Store.ofValues fields).view where
  raise result := (raise_eq result).trans (result_raise result).symm
  bind := by
    rintro A B _ other next continued rfl same
    rw [result_bind]
    exact bind_congr same
  lookup _ := rfl

/-- Plain fields give the same as a store without methods. -/
theorem eval_ofFields (fields : Dictionary Value) (expr : Expr) (free : expr.isCallFree = true) :
    eval (Scope.ofFields fields) expr = (eval (Store.ofValues fields).view expr).result :=
  (matches_ofFields fields).eval expr free

/-- Stores that agree on what one of them was asked for, and whose methods are not asked for, show the same. -/
theorem eval_view_of_agrees {first second : Store} {expr : Expr} (free : expr.isCallFree = true)
    (clearsFirst : first.Clears expr) (clearsSecond : second.Clears expr)
    (agrees : ∀ name ∈ (eval first.view expr).names, second.values.get? name = first.values.get? name) :
    eval second.view expr = eval first.view expr := by
  rw [eval_view_of_clears first expr free clearsFirst] at agrees ⊢
  rw [eval_view_of_clears second expr free clearsSecond]
  exact stableTo_eval _ _ expr free ⟨fun _ => rfl, fun name member => (agrees name member).symm⟩

end Expr

namespace World

/-- The active effect depends on what it read, and on nothing else that it did not depend on before. -/
theorem mem_dependencies_reading {id : EffectId} {source : TargetId} (names : List String) {world : World}
    (reachable : world.Reachable) (active : world.graph.active? = some id) {effect : Effect Task}
    (found : world.graph.effect? id = some effect) (lasting : effect.disposed = false) :
    ∃ newer, (world.reading source names).graph.effect? id = some newer ∧ ∀ dependency,
      dependency ∈ newer.dependencies ↔
        dependency ∈ effect.dependencies ∨ ∃ name ∈ names, dependency = ⟨source, .named name⟩ := by
  induction names generalizing world effect with
  | nil => exact ⟨effect, found, fun dependency => by simp⟩
  | cons first rest inductionHypothesis =>
      have later := (Gentle.reading world source [first] : world.Gentle source _).later
      obtain ⟨moves, path⟩ := reachable
      have agrees := path.recorded.agrees
      have tracked : ∃ reader, (world.reading source [first]).graph.effect? id = some reader ∧
          reader.disposed = false ∧ ∀ dependency, dependency ∈ reader.dependencies ↔
            dependency ∈ effect.dependencies ∨ dependency = ⟨source, .named first⟩ := by
        show ∃ reader, (world.graph.track ⟨source, .named first⟩).effect? id = some reader ∧ _
        rcases Graph.track_eq world.graph ⟨source, .named first⟩ with ⟨-, gone⟩ | ⟨reader, reads, -, subscribed⟩
        · have disposed := gone id active
          rw [Graph.isDisposed, found, Option.any_some, lasting] at disposed
          cases disposed
        · cases reads.symm.trans active
          rw [subscribed, Graph.effect?_subscribe, found]
          by_cases known : id ∈ world.graph.subscribersOf ⟨source, .named first⟩
          · rw [if_neg fun both => both.2 known]
            refine ⟨effect, rfl, lasting, fun dependency => ⟨Or.inl, ?_⟩⟩
            rintro (old | rfl)
            · exact old
            · exact (agrees.mem_dependencies found _).mp known
          · rw [if_pos ⟨rfl, known⟩]
            exact ⟨_, rfl, lasting, fun dependency => by simp⟩
      obtain ⟨reader, read, still, listed⟩ := tracked
      have continued : (world.reading source [first]).graph.active? = some id := by
        unfold Graph.active? at active ⊢
        rwa [later.stack]
      obtain ⟨newer, known, whole⟩ :=
        inductionHypothesis (later.reachable ⟨moves, path⟩) continued read still
      refine ⟨newer, known, fun dependency => ?_⟩
      rw [whole, listed]
      simp [or_assoc]

end World

open Live in
/-- An expression without calls is evaluated on a state whose methods it does not name. Then its result is
the same on plain fields, and on any such state, that agree on the names which were read, and a state is read
in the same order. The active effect depends on these names afterwards. So the values that the state has
give the same as the state, and a key that was not read may be overwritten. -/
theorem evaluation_depends_on_tracked (run : Runner) (state : TargetId) (store : Store) (expr : Expr)
    (free : expr.isCallFree = true) (clears : store.Clears expr) :
    ∃ (names : List String) (result : Except EvalError Value),
      (∀ world, world.store? state = some store → Expr.eval (scopeOf run state) expr world =
        (Expr.raise result : Live Value) (world.reading state names)) ∧
      (∀ (world : World) id effect, world.Reachable → world.graph.active? = some id →
        world.graph.effect? id = some effect → effect.disposed = false →
        ∃ newer, (world.reading state names).graph.effect? id = some newer ∧ ∀ dependency,
          dependency ∈ newer.dependencies ↔
            dependency ∈ effect.dependencies ∨ ∃ name ∈ names, dependency = ⟨state, .named name⟩) ∧
      (∀ fields : Dictionary Value, (∀ name ∈ names, fields.get? name = store.values.get? name) →
        Expr.eval (Scope.ofFields fields) expr = result) ∧
      (∀ (runner : Runner) other twin world, twin.Clears expr →
        (∀ name ∈ names, twin.values.get? name = store.values.get? name) →
        world.store? other = some twin → Expr.eval (scopeOf runner other) expr world =
          (Expr.raise result : Live Value) (world.reading other names)) ∧
      Expr.eval (Scope.ofFields store.values) expr = result ∧
      ∀ (world : World) key value, key ∉ names → world.store? state = some store →
        let written := worldAfter (putValue state key value) world
        Expr.eval (scopeOf run state) expr written =
          (Expr.raise result : Live Value) (written.reading state names) := by
  let seen := Expr.eval store.view expr
  have elsewhere : ∀ (runner : Runner) other twin (world : World), twin.Clears expr →
      (∀ name ∈ seen.names, twin.values.get? name = store.values.get? name) →
      world.store? other = some twin → Expr.eval (scopeOf runner other) expr world =
        (Expr.raise seen.result : Live Value) (world.reading other seen.names) := by
    intro runner other twin world plain agrees found
    have mirrored : Mirrors other twin (Expr.eval (scopeOf runner other) expr) _ := Mirrors.eval expr free
    have same := Expr.eval_view_of_agrees free clears plain agrees
    rw [mirrored world found, same]
    cases seen.result <;> rfl
  have plainly : ∀ fields : Dictionary Value,
      (∀ name ∈ seen.names, fields.get? name = store.values.get? name) →
      Expr.eval (Scope.ofFields fields) expr = seen.result := by
    intro fields agrees
    have plain : (Store.ofValues fields).Clears expr := fun _ _ => rfl
    have same := Expr.eval_view_of_agrees free clears plain agrees
    rw [Expr.eval_ofFields fields expr free, same]
  refine ⟨seen.names, seen.result, ?_, ?_, plainly, elsewhere, plainly _ fun _ _ => rfl, ?_⟩
  · exact fun world found => elsewhere run state store world clears (fun _ _ => rfl) found
  · exact fun world id effect reachable active found lasting =>
      World.mem_dependencies_reading seen.names reachable active found lasting
  · intro world key value unread found
    let changed : Store := { store with values := Dictionary.putSorted store.values key value }
    refine elsewhere run state changed _ clears (fun name member => ?_) ?_
    · exact Dictionary.get?_putSorted_of_ne store.values value fun same => unread (same ▸ member)
    · show (world.modifyStore state _).store? state = some changed
      rw [World.store?_modifyStore, if_pos rfl, found]
      rfl

/-- These values choose the first branch. -/
def branchValues : Dictionary Value := [("a", .bool true), ("b", .integer 1), ("c", .integer 2)]

/-- The conditional gives the value of its first branch wherever these values are. -/
theorem evaluation_of_branch : ∃ names, ∀ (run : Runner) (world : World),
    world.store? 0 = some (.ofValues branchValues) →
      Expr.eval (Live.scopeOf run 0) (.conditional (.ident "a") (.ident "b") (.ident "c")) world =
        .ok (.integer 1) (world.reading 0 names) := by
  obtain ⟨names, result, -, -, -, elsewhere, snapshot, -⟩ := evaluation_depends_on_tracked (Live.runTo 0) 0
    (.ofValues branchValues) (.conditional (.ident "a") (.ident "b") (.ident "c")) rfl fun _ _ => rfl
  have chosen : result = .ok (.integer 1) := snapshot.symm
  rw [chosen] at elsewhere
  exact ⟨names, fun run world found => elsewhere run 0 _ world (fun _ _ => rfl) (fun _ _ => rfl) found⟩

end LiveMarkup
