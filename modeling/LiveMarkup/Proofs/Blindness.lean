import LiveMarkup.Proofs.Conduct

/-
This file compares runs of code in worlds that differ only in what has been parsed and noted so far.
-/

namespace LiveMarkup

/-- Worlds resemble one another if they differ at most in their caches of parses and in their notices. -/
def World.Resembles (world other : World) : Prop :=
  ∃ parses notices, other = { world with parses, notices }

namespace World.Resembles

variable {world other : World}

theorem refl (world : World) : world.Resembles world := ⟨world.parses, world.notices, rfl⟩

theorem disposeEffect (resembles : world.Resembles other) (id : EffectId) :
    (world.disposeEffect id).Resembles (other.disposeEffect id) := by
  obtain ⟨parses, notices, rfl⟩ := resembles
  unfold World.disposeEffect
  dsimp only
  split
  · exact ⟨parses, notices, rfl⟩
  · split
    · exact ⟨parses, notices, rfl⟩
    · exact ⟨parses, _, rfl⟩

theorem foldl {A : Type} {change : World → A → World}
    (each : ∀ {world other : World}, world.Resembles other → ∀ item,
      (change world item).Resembles (change other item)) (items : List A) (resembles : world.Resembles other) :
    (items.foldl change world).Resembles (items.foldl change other) := by
  induction items generalizing world other with
  | nil => exact resembles
  | cons item rest inductionHypothesis => exact inductionHypothesis (each resembles item)

theorem disposeBindings (resembles : world.Resembles other) (bindings : Bindings) :
    (world.disposeBindings bindings).Resembles (other.disposeBindings bindings) := by
  obtain ⟨parses, notices, disposed⟩ := resembles.foldl disposeEffect bindings.effects
  unfold World.disposeBindings
  dsimp only
  rw [disposed]
  split
  · exact ⟨parses, notices, rfl⟩
  · exact ⟨parses, _, rfl⟩

theorem endHost (resembles : world.Resembles other) (id : HostId) : (world.endHost id).Resembles (other.endHost id) := by
  obtain ⟨parses, notices, rfl⟩ := resembles
  unfold World.endHost
  have same : World.host? { world with parses, notices } id = world.host? id := rfl
  rw [same]
  cases world.host? id with
  | none => exact ⟨parses, notices, rfl⟩
  | some host =>
      dsimp only
      refine disposeBindings ?_ host.bindings
      cases host.renderEffect with
      | none => exact ⟨parses, notices, rfl⟩
      | some effect => exact disposeEffect ⟨parses, notices, rfl⟩ effect

theorem endState (resembles : world.Resembles other) (id : TargetId) :
    (world.endState id).Resembles (other.endState id) := by
  obtain ⟨parses, notices, rfl⟩ := resembles
  exact ⟨parses, notices, rfl⟩

/-- What ends in a collection depends on neither parses nor notices. -/
theorem collectRounds (resembles : world.Resembles other) (rounds : Nat) :
    (world.collectRounds rounds).Resembles (other.collectRounds rounds) := by
  induction rounds generalizing world other with
  | zero => exact resembles
  | succ rounds inductionHypothesis =>
      have hosts : other.hostsToEnd = world.hostsToEnd := by
        obtain ⟨parses, notices, rfl⟩ := resembles
        rfl
      have states : other.statesToEnd = world.statesToEnd := by
        obtain ⟨parses, notices, rfl⟩ := resembles
        rfl
      unfold World.collectRounds
      rw [hosts, states]
      split
      · exact resembles
      · exact inductionHypothesis (resembles.foldl endState _)
      · exact inductionHypothesis (resembles.foldl endHost _)

theorem collect (resembles : world.Resembles other) : world.collect.Resembles other.collect := by
  have rounds : other.hosts.size + other.targets.size = world.hosts.size + world.targets.size := by
    obtain ⟨parses, notices, rfl⟩ := resembles
    rfl
  unfold World.collect
  rw [rounds]
  exact resembles.collectRounds _

end World.Resembles

namespace Live

variable {A B : Type}

/-- Two ends are alike if they give the same in worlds that resemble one another. -/
inductive SameEnd : EStateM.Result Stop World A → EStateM.Result Stop World A → Prop where
  | ok (value : A) {world other : World} (resembles : world.Resembles other) :
      SameEnd (.ok value world) (.ok value other)
  | error (stop : Stop) {world other : World} (resembles : world.Resembles other) :
      SameEnd (.error stop world) (.error stop other)

/-- Two pieces of code do the same, except that they may parse and note different things. -/
def Agree (first second : Live A) : Prop :=
  ∀ world other : World, world.Resembles other → SameEnd (first world) (second other)

/-- Code is blind if it does the same whatever has been parsed and noted before. -/
def Blind (action : Live A) : Prop := Agree action action

namespace Agree

theorem bind {first second : Live A} {next following : A → Live B} (before : Agree first second)
    (after : ∀ value, Agree (next value) (following value)) :
    Agree (first >>= next) (second >>= following) := by
  intro world other resembles
  have ends := before world other resembles
  rw [bind_apply, bind_apply]
  cases outcome : first world with
  | ok value reached =>
      rw [outcome] at ends
      generalize second other = result at ends
      cases ends with
      | ok _ later => exact after value _ _ later
  | error stop reached =>
      rw [outcome] at ends
      generalize second other = result at ends
      cases ends with
      | error _ later => exact .error stop later

theorem catches {first second : Live A} {handle handling : EvalError → Live A}
    (before : Agree first second) (handled : ∀ error, Agree (handle error) (handling error)) :
    Agree (tryCatchThe EvalError first handle) (tryCatchThe EvalError second handling) := by
  intro world other resembles
  have ends := before world other resembles
  rw [tryCatch_apply, tryCatch_apply]
  cases outcome : first world with
  | ok value reached =>
      rw [outcome] at ends
      generalize second other = result at ends
      cases ends with
      | ok _ later => exact .ok value later
  | error stop reached =>
      rw [outcome] at ends
      generalize second other = result at ends
      cases ends with
      | error _ later =>
          cases stop with
          | failed error => exact handled error _ _ later
          | panicked payload => exact .error _ later
          | exhausted => exact .error _ later

theorem mapM {first second : A → Live B} {items : List A}
    (each : ∀ item ∈ items, Agree (first item) (second item)) : Agree (items.mapM first) (items.mapM second) := by
  induction items with
  | nil => exact fun _ _ resembles => .ok [] resembles
  | cons item rest inductionHypothesis =>
      rw [List.mapM_cons, List.mapM_cons]
      refine (each item List.mem_cons_self).bind fun value => ?_
      refine (inductionHypothesis fun other member => each other (List.mem_cons_of_mem item member)).bind ?_
      exact fun values _ _ resembles => .ok (value :: values) resembles

/-- What is noted makes no difference. -/
theorem note (notice other : Notice) : Agree (Live.note notice) (Live.note other) := by
  rintro world _ ⟨parses, notices, rfl⟩
  exact .ok () ⟨parses, _, rfl⟩

end Agree

namespace Blind

theorem pure (value : A) : Blind (Pure.pure value) := fun _ _ resembles => .ok value resembles

theorem stops (stop : Stop) : Blind (throwThe Stop stop : Live A) := fun _ _ resembles => .error stop resembles

theorem fails (error : EvalError) : Blind (throw error : Live A) :=
  fun _ _ resembles => .error (.failed error) resembles

theorem raises (result : Except EvalError A) : Blind (Expr.raise result : Live A) := by
  cases result with
  | ok value => exact pure value
  | error error => exact fails error

theorem bind {action : Live A} {next : A → Live B} (first : Blind action)
    (second : ∀ value, Blind (next value)) : Blind (action >>= next) := Agree.bind first second

theorem discard {action : Live A} (blind : Blind action) : Blind (Functor.discard action) := by
  have same : Functor.discard action = (action >>= fun _ => Pure.pure ()) := by
    funext world
    rw [discard_apply, bind_apply]
    cases action world <;> rfl
  rw [same]
  exact blind.bind fun _ => pure ()

/-- A question about the world is blind if parses and notices have no part in what follows. -/
theorem asks {next : World → Live B}
    (sees : ∀ (world : World) parses notices, next { world with parses, notices } = next world)
    (blind : ∀ world, Blind (next world)) : Blind (get >>= next) := by
  rintro world _ ⟨parses, notices, rfl⟩
  rw [get_bind, get_bind, sees world parses notices]
  exact blind world world _ ⟨parses, notices, rfl⟩

theorem modifies {change : World → World} (changed : ∀ (world : World) parses notices,
    (change world).Resembles (change { world with parses, notices })) : Blind (modify change) := by
  rintro world _ ⟨parses, notices, rfl⟩
  exact .ok () (changed world parses notices)

theorem modifiesGet {change : World → A × World}
    (changed : ∀ (world : World) parses notices, (change world).2.Resembles (change { world with parses, notices }).2)
    (gives : ∀ (world : World) parses notices, (change { world with parses, notices }).1 = (change world).1) :
    Blind (modifyGet change) := by
  rintro world _ ⟨parses, notices, rfl⟩
  show SameEnd (.ok (change world).1 (change world).2)
    (.ok (change { world with parses, notices }).1 (change { world with parses, notices }).2)
  rw [gives world parses notices]
  exact .ok _ (changed world parses notices)

theorem modifyGraph (change : Graph Task → Graph Task) : Blind (Live.modifyGraph change) :=
  modifies fun _ parses notices => ⟨parses, notices, rfl⟩

theorem modifyForest (change : Forest Handler → Forest Handler) : Blind (Live.modifyForest change) :=
  modifies fun _ parses notices => ⟨parses, notices, rfl⟩

theorem modifyNames (change : Names → Names) : Blind (Live.modifyNames change) :=
  modifies fun _ parses notices => ⟨parses, notices, rfl⟩

theorem modifyHost (id : HostId) (change : Host → Host) : Blind (Live.modifyHost id change) :=
  modifies fun _ parses notices => ⟨parses, notices, rfl⟩

theorem tell (id : HostId) (milestone : Milestone) : Blind (Live.tell id milestone) :=
  modifies fun _ parses notices => ⟨parses, notices, rfl⟩

theorem attest (deed : Deed) : Blind (Live.attest deed) :=
  modifies fun _ parses notices => ⟨parses, notices, rfl⟩

theorem record (happening : Happening) : Blind (Live.record happening) :=
  modifies fun _ parses notices => ⟨parses, notices, rfl⟩

theorem hold (held : Hold) : Blind (Live.hold held) := by
  refine modifies fun world parses notices => ?_
  dsimp only
  split <;> exact ⟨parses, notices, rfl⟩

/-- What ends in a collection depends on neither parses nor notices. -/
theorem collects {change : World → World} (changed : ∀ (world : World) parses notices,
    (change world).Resembles (change { world with parses, notices })) :
    Blind (modify fun world => (change world).collect) :=
  modifies fun world parses notices => (changed world parses notices).collect

theorem note (notice : Notice) : Blind (Live.note notice) := Agree.note notice notice

theorem catches {action : Live A} {handle : EvalError → Live A} (blind : Blind action)
    (handled : ∀ error, Blind (handle error)) : Blind (tryCatchThe EvalError action handle) :=
  Agree.catches blind handled

theorem ending {action : Live A} {change : World → World} (blind : Blind action)
    (changed : ∀ {world other : World}, world.Resembles other → (change world).Resembles (change other)) :
    Blind (Live.ending action change) := by
  intro world other resembles
  have ends := blind world other resembles
  unfold Live.ending
  cases outcome : action world with
  | ok value reached =>
      rw [outcome] at ends
      generalize action other = result at ends
      cases ends with
      | ok _ later => exact .ok value (changed later)
  | error stop reached =>
      rw [outcome] at ends
      generalize action other = result at ends
      cases ends with
      | error _ later => exact .error stop (changed later)

theorem operation {action : Live A} (blind : Blind action) : Blind (Live.operation action) := by
  rintro world _ ⟨parses, notices, rfl⟩
  refine ending blind ?_ world _ ⟨parses, notices, rfl⟩
  rintro after _ ⟨parses, notices, rfl⟩
  exact World.Resembles.collect ⟨parses, notices, rfl⟩

theorem inFrame {frame : Option EffectId} {action : Live A} (blind : Blind action) :
    Blind (Live.inFrame frame action) := by
  refine (modifyGraph _).bind fun _ => ending blind ?_
  rintro after _ ⟨parses, notices, rfl⟩
  exact World.Resembles.collect ⟨parses, notices, rfl⟩

/-! Expressions. -/

mutual

theorem eval {scope : Scope Live} (looksUp : ∀ name, Blind (scope.lookup name))
    (calls : ∀ name arguments, Blind (scope.call name arguments)) :
    ∀ expr : Expr, Blind (Expr.eval scope expr)
  | .number _ => raises _
  | .string _ => pure _
  | .bool _ => pure _
  | .null => pure _
  | .ident name => looksUp name
  | .member object _ => (eval looksUp calls object).bind fun _ => raises _
  | .index object position =>
      (eval looksUp calls object).bind fun _ => (eval looksUp calls position).bind fun _ => raises _
  | .call name arguments => (evalAll looksUp calls arguments).bind fun _ => calls name _
  | .unary _ operand => (eval looksUp calls operand).bind fun _ => raises _
  | .binary _ left right => (eval looksUp calls left).bind fun _ => by
      split
      · exact pure _
      · split
        · exact pure _
        · exact (eval looksUp calls right).bind fun _ => raises _
  | .conditional test yes no => (eval looksUp calls test).bind fun _ => by
      split
      · exact eval looksUp calls yes
      · exact eval looksUp calls no

theorem evalAll {scope : Scope Live} (looksUp : ∀ name, Blind (scope.lookup name))
    (calls : ∀ name arguments, Blind (scope.call name arguments)) :
    ∀ exprs : List Expr, Blind (Expr.evalAll scope exprs)
  | [] => pure _
  | first :: rest =>
      (eval looksUp calls first).bind fun _ => (evalAll looksUp calls rest).bind fun _ => pure _

end

theorem valuesOf (state : TargetId) : Blind (Live.valuesOf state) := by
  refine asks (fun _ _ _ => rfl) fun world => ?_
  split <;> exact pure _

theorem methodsOf (state : TargetId) : Blind (Live.methodsOf state) := by
  refine asks (fun _ _ _ => rfl) fun world => ?_
  split <;> exact pure _

theorem peekValue (state : TargetId) (key : String) : Blind (Live.peekValue state key) :=
  (valuesOf state).bind fun _ => pure _

theorem readValue (state : TargetId) (key : String) : Blind (Live.readValue state key) :=
  (modifyGraph _).bind fun _ => peekValue state key

end Blind

end Live

end LiveMarkup
