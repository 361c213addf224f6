import LiveMarkup.Proofs.Conduct

/-
This file evaluates expressions without calls on a plain store, and notes the names that they read.
-/

namespace LiveMarkup

/-- An observation reads some names in order, and ends with a value or a failure. -/
structure Observed (A : Type) where
  names : List String
  result : Except EvalError A

namespace Observed

variable {A B : Type}

instance : Monad Observed where
  pure value := ⟨[], .ok value⟩
  bind first next :=
    match first.result with
    | .ok value => ⟨first.names ++ (next value).names, (next value).result⟩
    | .error error => ⟨first.names, .error error⟩

instance : MonadExceptOf EvalError Observed where
  throw error := ⟨[], .error error⟩
  tryCatch action handle :=
    match action.result with
    | .ok value => ⟨action.names, .ok value⟩
    | .error error => ⟨action.names ++ (handle error).names, (handle error).result⟩

theorem bind_eq (first : Observed A) (next : A → Observed B) :
    (first >>= next) =
      match first.result with
      | .ok value => ⟨first.names ++ (next value).names, (next value).result⟩
      | .error error => ⟨first.names, .error error⟩ := rfl

end Observed

namespace Store

/-- A name is looked up, and read unless a method has the same name. -/
def view (store : Store) : Scope Observed where
  lookup name :=
    if store.methods.contains name then throw (.notAValue name)
    else ⟨[name], match store.values.get? name with
      | some value => .ok value
      | none => .error (.unknownIdentifier name)⟩
  call name _ := throw (.unknownMethod name)

/-- Two stores look the same to one who reads these names only. -/
structure AgreesOn (first second : Store) (names : List String) : Prop where
  methods : ∀ name, first.methods.contains name = second.methods.contains name
  values : ∀ name ∈ names, Assoc.get? first.values name = Assoc.get? second.values name

theorem AgreesOn.mono {first second : Store} {names fewer : List String}
    (agrees : first.AgreesOn second names) (subset : ∀ name ∈ fewer, name ∈ names) :
    first.AgreesOn second fewer :=
  ⟨agrees.methods, fun name member => agrees.values name (subset name member)⟩

theorem AgreesOn.refl (store : Store) (names : List String) : store.AgreesOn store names :=
  ⟨fun _ => rfl, fun _ _ => rfl⟩

end Store

namespace Expr

mutual

/-- An expression without calls depends on values only. -/
def isCallFree : Expr → Bool
  | .call _ _ => false
  | .number _ => true
  | .string _ => true
  | .bool _ => true
  | .null => true
  | .ident _ => true
  | .member object _ => isCallFree object
  | .index object position => isCallFree object && isCallFree position
  | .unary _ operand => isCallFree operand
  | .binary _ left right => isCallFree left && isCallFree right
  | .conditional test yes no => isCallFree test && isCallFree yes && isCallFree no

end

/-- A source that is no expression contains no call. -/
def isCallFreeSource (source : String) : Bool :=
  match parse source with
  | .ok expr => isCallFree expr
  | .error _ => true

end Expr

/-! What two scopes do can be compared step by step. -/

section

variable {M N : Type → Type} [Monad M] [MonadExceptOf EvalError M] [Monad N] [MonadExceptOf EvalError N]

/-- The names of two scopes are related, and the relation respects failures and sequences. -/
structure Scope.Matches (related : (A : Type) → M A → N A → Prop) (first : Scope M) (second : Scope N) :
    Prop where
  raise : ∀ {A : Type} (result : Except EvalError A), related A (Expr.raise result) (Expr.raise result)
  bind : ∀ {A B : Type} {action : M A} {other : N A} {next : A → M B} {continued : A → N B},
    related A action other → (∀ value, related B (next value) (continued value)) →
      related B (action >>= next) (other >>= continued)
  lookup : ∀ name, related Value (first.lookup name) (second.lookup name)

namespace Scope.Matches

open LiveMarkup.Expr

variable {related : (A : Type) → M A → N A → Prop} {first : Scope M} {second : Scope N}

theorem pure (same : first.Matches related second) {A : Type} (value : A) :
    related A (Pure.pure value) (Pure.pure value) := same.raise (.ok value)

/-- Evaluation without calls does related things in related scopes. -/
theorem eval (same : first.Matches related second) : ∀ expr : Expr, expr.isCallFree = true →
    related Value (Expr.eval first expr) (Expr.eval second expr)
  | .number _, _ => same.raise _
  | .string _, _ => same.pure _
  | .bool _, _ => same.pure _
  | .null, _ => same.pure _
  | .ident name, _ => same.lookup name
  | .call _ _, impossible => by cases impossible
  | .member object _, free => by
      unfold isCallFree at free
      exact same.bind (same.eval object free) fun _ => same.raise _
  | .index object position, free => by
      unfold isCallFree at free
      obtain ⟨freeObject, freePosition⟩ := (Bool.and_eq_true _ _).mp free
      exact same.bind (same.eval object freeObject) fun _ =>
        same.bind (same.eval position freePosition) fun _ => same.raise _
  | .unary _ operand, free => by
      unfold isCallFree at free
      exact same.bind (same.eval operand free) fun _ => same.raise _
  | .binary _ left right, free => by
      unfold isCallFree at free
      obtain ⟨freeLeft, freeRight⟩ := (Bool.and_eq_true _ _).mp free
      refine same.bind (same.eval left freeLeft) fun value => ?_
      split
      · exact same.pure _
      · split
        · exact same.pure _
        · exact same.bind (same.eval right freeRight) fun _ => same.raise _
  | .conditional test yes no, free => by
      unfold isCallFree at free
      obtain ⟨both, freeNo⟩ := (Bool.and_eq_true _ _).mp free
      obtain ⟨freeTest, freeYes⟩ := (Bool.and_eq_true _ _).mp both
      refine same.bind (same.eval test freeTest) fun value => ?_
      split
      · exact same.eval yes freeYes
      · exact same.eval no freeNo

end Scope.Matches

end

/-! What is read decides what is seen. -/

namespace Observed

variable {A B : Type}

/-- An observation is the same from another store that agrees on what was read. -/
def StableTo (first second : Store) (here there : Observed A) : Prop :=
  first.AgreesOn second here.names → there = here

theorem StableTo.same {first second : Store} (seen : Observed A) :
    StableTo first second seen seen := fun _ => rfl

theorem StableTo.bind {first second : Store} {here there : Observed A}
    {next continued : A → Observed B} (start : StableTo first second here there)
    (rest : ∀ value, StableTo first second (next value) (continued value)) :
    StableTo first second (here >>= next) (there >>= continued) := by
  intro agrees
  rw [bind_eq] at agrees
  cases outcome : here.result with
  | error error =>
      rw [outcome] at agrees
      rw [start agrees, bind_eq, bind_eq, outcome]
  | ok value =>
      rw [outcome] at agrees
      have before := start (agrees.mono fun name member => List.mem_append_left _ member)
      have after := rest value (agrees.mono fun name member => List.mem_append_right _ member)
      rw [before, bind_eq, bind_eq, outcome]
      dsimp only
      rw [after]

end Observed

namespace Store

open Observed in
/-- Whoever asks for a name sees what was read about it. -/
theorem matches_view (first second : Store) :
    first.view.Matches (fun _ here there => StableTo first second here there) second.view where
  raise _ := .same _
  bind := .bind
  lookup name := by
    intro agrees
    unfold view at agrees ⊢
    dsimp only at agrees ⊢
    rw [← agrees.methods name]
    split at agrees
    · rename_i isMethod
      rw [if_pos isMethod, if_pos isMethod]
    · rename_i isValue
      rw [if_neg isValue, if_neg isValue, agrees.values name (List.mem_singleton_self name)]

end Store

namespace Expr

open Observed

/-- The value of an expression without calls depends on the names that it reads, and so do they. -/
theorem stableTo_eval (first second : Store) (expr : Expr) (free : expr.isCallFree = true) :
    StableTo first second (eval first.view expr) (eval second.view expr) :=
  (first.matches_view second).eval expr free

end Expr

namespace Store

/-- A source that fails shows the empty text. -/
def evaluate (store : Store) (source : String) : List String × Value :=
  match Expr.parse source with
  | .error _ => ([], .string "")
  | .ok expr =>
      match Expr.eval store.view expr with
      | ⟨names, .ok value⟩ => (names, value)
      | ⟨names, .error _⟩ => (names, .string "")

def evaluateText (store : Store) (source : String) : List String × String :=
  ((store.evaluate source).1, (store.evaluate source).2.display)

def interpolateSegments (store : Store) : List Interpolation.Segment → List String × List Char
  | [] => ([], [])
  | .literal c :: rest => ((interpolateSegments store rest).1, c :: (interpolateSegments store rest).2)
  | .expression source :: rest =>
      ((store.evaluateText (String.ofList source)).1 ++ (interpolateSegments store rest).1,
        (store.evaluateText (String.ofList source)).2.toList ++ (interpolateSegments store rest).2)

def interpolate (store : Store) (text : String) : List String × String :=
  ((store.interpolateSegments (Interpolation.segments text.toList)).1,
    String.ofList (store.interpolateSegments (Interpolation.segments text.toList)).2)

/-- What a source shows depends on the names that it reads. -/
theorem evaluate_stable {first second : Store} {source : String}
    (free : Expr.isCallFreeSource source = true)
    (agrees : first.AgreesOn second (first.evaluate source).1) :
    second.evaluate source = first.evaluate source := by
  unfold evaluate at agrees ⊢
  unfold Expr.isCallFreeSource at free
  cases parsed : Expr.parse source with
  | error error => rfl
  | ok expr =>
      rw [parsed] at free agrees
      have stable := Expr.stableTo_eval first second expr free
      dsimp only at agrees ⊢
      have names : first.AgreesOn second (Expr.eval first.view expr).names := by
        cases seen : Expr.eval first.view expr with
        | mk names result =>
            rw [seen] at agrees
            cases result <;> exact agrees
      rw [stable names]

theorem evaluateText_stable {first second : Store} {source : String}
    (free : Expr.isCallFreeSource source = true)
    (agrees : first.AgreesOn second (first.evaluateText source).1) :
    second.evaluateText source = first.evaluateText source := by
  unfold evaluateText
  rw [evaluate_stable free agrees]

end Store

namespace Interpolation

/-- No expression of these segments contains a call. -/
def areCallFree (segments : List Segment) : Bool :=
  segments.all fun segment =>
    match segment with
    | .literal _ => true
    | .expression source => Expr.isCallFreeSource (String.ofList source)

def isCallFree (text : String) : Bool := areCallFree (segments text.toList)

end Interpolation

namespace Store

theorem interpolateSegments_stable {first second : Store} {segments : List Interpolation.Segment}
    (free : Interpolation.areCallFree segments = true)
    (agrees : first.AgreesOn second (first.interpolateSegments segments).1) :
    second.interpolateSegments segments = first.interpolateSegments segments := by
  induction segments with
  | nil => rfl
  | cons segment rest inductionHypothesis =>
      obtain ⟨freeHere, freeRest⟩ := (Bool.and_eq_true _ _).mp free
      cases segment with
      | literal c =>
          unfold interpolateSegments at agrees ⊢
          rw [inductionHypothesis freeRest agrees]
      | expression source =>
          unfold interpolateSegments at agrees ⊢
          rw [inductionHypothesis freeRest
              (agrees.mono fun name member => List.mem_append_right _ member),
            evaluateText_stable freeHere
              (agrees.mono fun name member => List.mem_append_left _ member)]

/-- What a text shows depends on the names that its expressions read. -/
theorem interpolate_stable {first second : Store} {text : String}
    (free : Interpolation.isCallFree text = true)
    (agrees : first.AgreesOn second (first.interpolate text).1) :
    second.interpolate text = first.interpolate text := by
  unfold interpolate
  rw [interpolateSegments_stable free agrees]

end Store

/-! Code that evaluates in a world sees what its store shows, and subscribes to what it reads. -/

namespace World

/-- The names of a state are read one after the other. -/
def reading (world : World) (state : TargetId) (names : List String) : World :=
  { world with graph := names.foldl (fun graph name => graph.track ⟨state, .named name⟩) world.graph }

theorem reading_append (world : World) (state : TargetId) (first second : List String) :
    world.reading state (first ++ second) = (world.reading state first).reading state second := by
  unfold reading
  rw [List.foldl_append]

end World

namespace Live

variable {A B : Type} {run : Runner} {state : TargetId} {store : Store}

theorem methodsOf_eq {world : World} (found : world.store? state = some store) :
    methodsOf state world = .ok store.methods world := by
  unfold methodsOf
  rw [get_bind, found]
  rfl

theorem valuesOf_eq {world : World} (found : world.store? state = some store) :
    valuesOf state world = .ok store.values world := by
  unfold valuesOf
  rw [get_bind, found]
  rfl

theorem readValue_eq {world : World} (key : String) (found : world.store? state = some store) :
    readValue state key world = .ok (store.values.get? key) (world.reading state [key]) := by
  have same : (world.reading state [key]).store? state = some store := found
  unfold readValue
  rw [bind_apply]
  show peekValue state key (world.reading state [key]) = _
  unfold peekValue
  rw [bind_apply, valuesOf_eq same]
  rfl

/-- Live code does to each world with this store what the observation says. -/
def Mirrors (state : TargetId) (store : Store) (action : Live A) (seen : Observed A) : Prop :=
  ∀ world : World, world.store? state = some store → action world =
    match seen.result with
    | .ok value => .ok value (world.reading state seen.names)
    | .error error => .error (.failed error) (world.reading state seen.names)

namespace Mirrors

theorem raise (result : Except EvalError A) :
    Mirrors state store (Expr.raise result) (Expr.raise result) := by
  intro world _
  cases result <;> rfl

theorem pure (value : A) : Mirrors state store (Pure.pure value) (Pure.pure value) :=
  fun _ _ => rfl

theorem bind {action : Live A} {seen : Observed A} {next : A → Live B} {continued : A → Observed B}
    (first : Mirrors state store action seen)
    (second : ∀ value, Mirrors state store (next value) (continued value)) :
    Mirrors state store (action >>= next) (seen >>= continued) := by
  intro world found
  have start := first world found
  show EStateM.bind action next world = _
  unfold EStateM.bind
  rw [start, Observed.bind_eq]
  cases seen.result with
  | error error => rfl
  | ok value =>
      dsimp only
      rw [second value (world.reading state seen.names) found]
      cases (continued value).result <;> simp [World.reading_append]

/-- A name is looked up in the store, and a read of its value is tracked. -/
theorem lookup (name : String) :
    Mirrors state store ((Live.scopeOf run state).lookup name) (store.view.lookup name) := by
  intro world found
  have looked : (Live.scopeOf run state).lookup name world =
      (do if (← methodsOf state).contains name then throw (EvalError.notAValue name)
          else match ← readValue state name with
            | some value => Pure.pure value
            | none => throw (EvalError.unknownIdentifier name) : Live Value) world := rfl
  rw [looked, bind_apply, methodsOf_eq found]
  unfold Store.view
  dsimp only
  split
  · rfl
  · rw [bind_apply, readValue_eq name found]
    cases store.values.get? name <;> rfl

theorem matches_view (run : Runner) (state : TargetId) (store : Store) :
    (Live.scopeOf run state).Matches (fun _ action seen => Mirrors state store action seen) store.view where
  raise := raise
  bind := bind
  lookup := lookup

/-- Evaluation without calls does what the observation of the store says. -/
theorem eval (expr : Expr) (free : expr.isCallFree = true) :
    Mirrors state store (Expr.eval (Live.scopeOf run state) expr) (Expr.eval store.view expr) :=
  (matches_view run state store).eval expr free

end Mirrors

end Live

namespace ParseCache

/-- The cache changes neither what is parsed nor what fails. -/
theorem map_parse (cache : ParseCache) (source : String) :
    (cache.parse source).1.map Prod.snd = Expr.parse source := by
  have plain : ∀ place : Nat,
      ((Expr.parse source).map fun expr => (place, expr)).map Prod.snd = Expr.parse source := by
    intro place
    cases Expr.parse source <;> rfl
  unfold parse
  cases known : cache.place? source with
  | none => exact plain _
  | some place =>
      dsimp only
      cases held : cache.entries[place]? with
      | none => exact plain _
      | some entry =>
          have member : entry ∈ cache.entries := Array.mem_of_getElem? held
          have named : entry.1 = source := by
            obtain ⟨below, fits, -⟩ := Array.findIdx?_eq_some_iff_getElem.mp known
            rw [Array.getElem?_eq_getElem below] at held
            cases held
            simpa using fits
          have faithful := cache.faithful entry member
          rw [named] at faithful
          dsimp only
          rw [faithful]
          exact plain place

end ParseCache

namespace World

/-- Between these worlds some names of a state were read, and nothing that lasts was changed. -/
def Reads (world : World) (state : TargetId) (names : List String) (after : World) : Prop :=
  ∃ parses notices, after = { world.reading state names with parses, notices }

namespace Reads

variable {first second third : World} {state : TargetId} {names others : List String}

theorem nil (world : World) (state : TargetId) : world.Reads state [] world :=
  ⟨world.parses, world.notices, rfl⟩

theorem append (before : first.Reads state names second) (after : second.Reads state others third) :
    first.Reads state (names ++ others) third := by
  obtain ⟨parses, notices, same⟩ := before
  obtain ⟨laterParses, laterNotices, sameLater⟩ := after
  refine ⟨laterParses, laterNotices, ?_⟩
  rw [sameLater, same, reading_append]
  rfl

theorem store? (reads : first.Reads state names second) (id : TargetId) :
    second.store? id = first.store? id := by
  obtain ⟨parses, notices, same⟩ := reads
  rw [same]
  rfl

end Reads

end World

namespace Live

variable {run : Runner} {state : TargetId} {store : Store}

theorem evaluateStrictly_eq (run : Runner) {world : World} {source : String}
    (found : world.store? state = some store) (free : Expr.isCallFreeSource source = true) :
    ∃ parses, evaluateStrictly run state source world =
      match Expr.parse source with
      | .error error => .error (.failed error) { world with parses }
      | .ok expr =>
          match (Expr.eval store.view expr).result with
          | .ok value => .ok value
              { world.reading state (Expr.eval store.view expr).names with parses }
          | .error error => .error (.failed error)
              { world.reading state (Expr.eval store.view expr).names with parses } := by
  have faithful := world.parses.map_parse source
  unfold Expr.isCallFreeSource at free
  refine ⟨(world.parses.parse source).2, ?_⟩
  have parses : parseCached source world = .ok (world.parses.parse source).1
      { world with parses := (world.parses.parse source).2 } := rfl
  unfold evaluateStrictly
  rw [bind_of_ok parses, ← faithful]
  cases result : (world.parses.parse source).1 with
  | error error => exact bind_of_error rfl
  | ok placed =>
      rw [← faithful, result] at free
      have evaluates : Expr.eval (scopeOf run state) placed.2
          { world with parses := (world.parses.parse source).2 } = _ :=
        Mirrors.eval placed.2 free _ found
      refine (bind_of_ok rfl).trans (evaluates.trans ?_)
      dsimp only [Except.map]
      cases (Expr.eval store.view placed.2).result <;> rfl

/-- A source without calls is evaluated on the store of its state. -/
theorem evaluate_eq (run : Runner) {world : World} {source : String}
    (found : world.store? state = some store) (free : Expr.isCallFreeSource source = true) :
    ∃ after, evaluate run state source world = .ok (store.evaluate source).2 after ∧
      world.Reads state (store.evaluate source).1 after := by
  obtain ⟨parses, strictly⟩ := evaluateStrictly_eq run found free
  unfold evaluate Store.evaluate
  rw [tryCatch_apply, strictly]
  cases Expr.parse source with
  | error error => exact ⟨_, rfl, parses, _, rfl⟩
  | ok expr =>
      dsimp only
      cases Expr.eval store.view expr with
      | mk names result => cases result <;> exact ⟨_, rfl, parses, _, rfl⟩

theorem evaluateText_eq (run : Runner) {world : World} {source : String}
    (found : world.store? state = some store) (free : Expr.isCallFreeSource source = true) :
    ∃ after, evaluateText run state source world = .ok (store.evaluateText source).2 after ∧
      world.Reads state (store.evaluateText source).1 after := by
  obtain ⟨after, evaluates, reads⟩ := evaluate_eq run found free
  refine ⟨after, ?_, reads⟩
  unfold evaluateText
  exact bind_of_ok evaluates

theorem interpolateSegments_eq (run : Runner) {world : World}
    {segments : List Interpolation.Segment} (found : world.store? state = some store)
    (free : Interpolation.areCallFree segments = true) :
    ∃ after, interpolateSegments run state segments world =
        .ok (store.interpolateSegments segments).2 after ∧
      world.Reads state (store.interpolateSegments segments).1 after := by
  induction segments generalizing world with
  | nil => exact ⟨world, rfl, .nil world state⟩
  | cons segment rest inductionHypothesis =>
      obtain ⟨freeHere, freeRest⟩ := (Bool.and_eq_true _ _).mp free
      cases segment with
      | literal c =>
          obtain ⟨after, shows, reads⟩ := inductionHypothesis found freeRest
          refine ⟨after, ?_, reads⟩
          unfold interpolateSegments
          exact bind_of_ok shows
      | expression source =>
          obtain ⟨middle, evaluates, readsHere⟩ := evaluateText_eq run found freeHere
          have still : middle.store? state = some store := (readsHere.store? state).trans found
          obtain ⟨after, shows, readsRest⟩ := inductionHypothesis still freeRest
          refine ⟨after, ?_, readsHere.append readsRest⟩
          unfold interpolateSegments
          exact (bind_of_ok evaluates).trans (bind_of_ok shows)

/-- A text without calls shows what the store of its state says. -/
theorem interpolate_eq (run : Runner) {world : World} {text : String}
    (found : world.store? state = some store) (free : Interpolation.isCallFree text = true) :
    ∃ after, interpolate run state text world = .ok (store.interpolate text).2 after ∧
      world.Reads state (store.interpolate text).1 after := by
  obtain ⟨after, shows, reads⟩ := interpolateSegments_eq run found free
  refine ⟨after, ?_, reads⟩
  unfold interpolate
  exact bind_of_ok shows

end Live

end LiveMarkup
