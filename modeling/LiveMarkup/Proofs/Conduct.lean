import LiveMarkup.Script.Interpreter

/-
This file compares the world before some code with the world after it. A conduct is such a
comparison that survives when one piece of code follows another.
-/

namespace LiveMarkup

/-- Code that returns or fails ends calmly. Code that panics or is exhausted breaks off. A state that is
ready for reads stays so as long as code is calm. A host is housed once it has entered the world. Code need
only follow the conduct where it fits. -/
structure Conduct where
  calm : World → World → Prop
  broken : World → World → Prop
  refl : ∀ world, calm world world
  trans : ∀ {first second third}, calm first second → calm second third → calm first third
  carry : ∀ {first second third}, calm first second → broken second third → broken first third
  settle : ∀ {first second third}, broken first second → calm second third → broken first third
  ready : TargetId → World → Prop := fun _ _ => True
  lasts : ∀ {state before after}, calm before after → ready state before → ready state after := by
    exact fun _ _ => trivial
  housed : HostId → World → Prop := fun _ _ => True
  fits : Activity → World → Prop := fun _ _ => True

namespace Conduct

/-- This conduct makes no difference between calm and broken ends. -/
def always (relation : World → World → Prop) (refl : ∀ world, relation world world)
    (trans : ∀ {first second third}, relation first second → relation second third →
      relation first third) : Conduct where
  calm := relation
  broken := relation
  refl := refl
  trans := trans
  carry := trans
  settle := trans

end Conduct

namespace Conduct

variable {A : Type} {conduct : Conduct}

/-- A result is within a conduct if the conduct allows its way to end. -/
def Ends (conduct : Conduct) (before : World) : EStateM.Result Stop World A → Prop
  | .ok _ after => conduct.calm before after
  | .error (.failed _) after => conduct.calm before after
  | .error (.panicked _) after => conduct.broken before after
  | .error .exhausted after => conduct.broken before after

/-- Calm code may come before any end. -/
theorem Ends.after {first second : World} {result : EStateM.Result Stop World A}
    (calm : conduct.calm first second) (ends : conduct.Ends second result) :
    conduct.Ends first result := by
  cases result with
  | ok value after => exact conduct.trans calm ends
  | error stop after =>
      cases stop with
      | failed error => exact conduct.trans calm ends
      | panicked payload => exact conduct.carry calm ends
      | exhausted => exact conduct.carry calm ends

end Conduct

namespace Live

variable {A B : Type} {conduct : Conduct} {world : World}

theorem bind_apply (action : Live A) (next : A → Live B) (world : World) :
    (action >>= next) world =
      match action world with
      | .ok value after => next value after
      | .error stop after => .error stop after := by
  show EStateM.bind action next world = _
  unfold EStateM.bind
  cases action world <;> rfl

theorem bind_of_ok {action : Live A} {next : A → Live B} {world after : World} {value : A}
    (outcome : action world = .ok value after) : (action >>= next) world = next value after := by
  rw [bind_apply, outcome]

theorem bind_of_error {action : Live A} {next : A → Live B} {world after : World} {stop : Stop}
    (outcome : action world = .error stop after) :
    (action >>= next) world = .error stop after := by
  rw [bind_apply, outcome]

/-- A question about the world is answered by the world. -/
theorem get_bind (next : World → Live A) (world : World) :
    (get >>= next) world = next world world := rfl

/-- Code that returns has come through both of its parts. -/
theorem bind_eq_ok {action : Live A} {next : A → Live B} {world final : World} {result : B} :
    (action >>= next) world = .ok result final ↔
      ∃ value after, action world = .ok value after ∧ next value after = .ok result final := by
  rw [bind_apply]
  cases action world with
  | ok value after =>
      constructor
      · exact fun returned => ⟨value, after, rfl, returned⟩
      · rintro ⟨_, _, same, returned⟩
        cases same
        exact returned
  | error stop after =>
      constructor
      · intro impossible
        cases impossible
      · rintro ⟨_, _, impossible, -⟩
        cases impossible

theorem mem_holds_of_hold {held : Hold} {world after : World} {value : Unit}
    (outcome : hold held world = .ok value after) : held ∈ after.holds := by
  cases outcome
  dsimp only
  split
  · rename_i known
    exact List.contains_iff_mem.mp known
  · exact List.mem_cons_self

theorem map_apply (change : A → B) (action : Live A) (world : World) :
    (change <$> action) world =
      match action world with
      | .ok value after => .ok (change value) after
      | .error stop after => .error stop after := by
  show EStateM.map change action world = _
  unfold EStateM.map
  cases action world <;> rfl

theorem discard_apply (action : Live A) (world : World) :
    discard action world =
      match action world with
      | .ok _ after => .ok () after
      | .error stop after => .error stop after := by
  show ((fun _ => ()) <$> action : Live Unit) world = _
  rw [map_apply]

theorem tryCatch_apply (action : Live A) (handle : EvalError → Live A) (world : World) :
    (tryCatchThe EvalError action handle) world =
      match action world with
      | .error (.failed error) after => handle error after
      | other => other := by
  show EStateM.tryCatch action _ world = _
  unfold EStateM.tryCatch
  cases action world with
  | ok value after => rfl
  | error stop after => cases stop <;> rfl

/-- Code follows a conduct from a world if it ends there as the conduct demands. -/
def Follows (conduct : Conduct) (action : Live A) (world : World) : Prop :=
  conduct.Ends world (action world)

/-- Two pieces of code end as the conduct demands since an earlier world. -/
theorem ends_bind {origin : World} {action : Live A} {next : A → Live B}
    (first : conduct.Ends origin (action world))
    (second : ∀ value after, action world = .ok value after →
      conduct.Ends origin (next value after)) :
    conduct.Ends origin ((action >>= next) world) := by
  rw [bind_apply]
  cases outcome : action world with
  | ok value after => exact second value after outcome
  | error stop after =>
      rw [outcome] at first
      cases stop <;> exact first

/-- What is done at the end of code depends on where the code has led, since it started elsewhere. The
code may follow a conduct of its own. -/
theorem ends_ending {inner : Conduct} {origin start : World} {action : Live A}
    {change : World → World} (ends : inner.Ends start (action world))
    (calm : ∀ after, inner.calm start after → conduct.calm origin (change after))
    (broken : ∀ after, inner.broken start after → conduct.broken origin (change after)) :
    conduct.Ends origin (Live.ending action change world) := by
  unfold Live.ending
  cases outcome : action world with
  | ok value after =>
      rw [outcome] at ends
      exact calm after ends
  | error stop after =>
      rw [outcome] at ends
      cases stop with
      | failed error => exact calm after ends
      | panicked payload => exact broken after ends
      | exhausted => exact broken after ends

namespace Follows

/-- Code that returns has been calm. -/
theorem calm {action : Live A} {value : A} {after : World} (follows : Follows conduct action world)
    (outcome : action world = .ok value after) : conduct.calm world after := by
  unfold Follows at follows
  rw [outcome] at follows
  exact follows

theorem pure (value : A) : Follows conduct (Pure.pure value) world := conduct.refl world

theorem fails (error : EvalError) : Follows conduct (throw error : Live A) world :=
  conduct.refl world

/-- Code may break off if the conduct allows it where nothing has happened. -/
theorem stops (breaks : conduct.broken world world) (stop : Stop) :
    Follows conduct (throwThe Stop stop : Live A) world := by
  cases stop with
  | failed error => exact conduct.refl world
  | panicked payload => exact breaks
  | exhausted => exact breaks

theorem raises (result : Except EvalError A) :
    Follows conduct (Expr.raise result : Live A) world := by
  cases result with
  | ok value => exact pure value
  | error error => exact fails error

/-- The second piece of code starts where the first one returned. -/
theorem bind {action : Live A} {next : A → Live B} (first : Follows conduct action world)
    (second : ∀ value after, action world = .ok value after → Follows conduct (next value) after) :
    Follows conduct (action >>= next) world := by
  unfold Follows at first ⊢
  rw [bind_apply]
  cases outcome : action world with
  | ok value after =>
      rw [outcome] at first
      exact Conduct.Ends.after first (second value after outcome)
  | error stop after =>
      rw [outcome] at first
      cases stop <;> exact first

/-- A state that is ready stays ready until the second piece of code starts. -/
theorem bindReady {state : TargetId} {action : Live A} {next : A → Live B}
    (first : Follows conduct action world) (ready : conduct.ready state world)
    (second : ∀ value after, conduct.ready state after → Follows conduct (next value) after) :
    Follows conduct (action >>= next) world :=
  first.bind fun value after outcome => second value after (conduct.lasts (first.calm outcome) ready)

/-- A question about the world leaves it alone. -/
theorem asks {next : World → Live B} (continued : Follows conduct (next world) world) :
    Follows conduct (get >>= next) world := continued

theorem modifies {change : World → World} (changed : conduct.calm world (change world)) :
    Follows conduct (modify change) world := changed

theorem modifiesGet {change : World → A × World} (changed : conduct.calm world (change world).2) :
    Follows conduct (modifyGet change) world := changed

theorem map {action : Live A} (change : A → B) (follows : Follows conduct action world) :
    Follows conduct (change <$> action) world := by
  unfold Follows at follows ⊢
  rw [map_apply]
  cases outcome : action world with
  | ok value after =>
      rw [outcome] at follows
      exact follows
  | error stop after =>
      rw [outcome] at follows
      cases stop <;> exact follows

theorem discard {action : Live A} (follows : Follows conduct action world) :
    Follows conduct (Functor.discard action) world := map _ follows

/-- What is done about a failure starts in the world that the failure left. -/
theorem catches {action : Live A} {handle : EvalError → Live A}
    (follows : Follows conduct action world)
    (handled : ∀ error after, action world = .error (.failed error) after →
      Follows conduct (handle error) after) :
    Follows conduct (tryCatchThe EvalError action handle) world := by
  unfold Follows at follows ⊢
  rw [tryCatch_apply]
  cases outcome : action world with
  | ok value after => simpa [outcome] using follows
  | error stop after =>
      rw [outcome] at follows
      cases stop with
      | failed error => exact Conduct.Ends.after follows (handled error after outcome)
      | panicked payload => exact follows
      | exhausted => exact follows

/-- What happens at the end of code, however it ends, must be calm. -/
theorem ending {action : Live A} {change : World → World} (follows : Follows conduct action world)
    (changed : ∀ after, conduct.calm after (change after)) :
    Follows conduct (Live.ending action change) world :=
  ends_ending follows (fun after calm => conduct.trans calm (changed after))
    fun after broken => conduct.settle broken (changed after)

/-- One conduct may imply another one. -/
theorem mono {weaker : Conduct} {action : Live A} (follows : Follows conduct action world)
    (calm : ∀ after, conduct.calm world after → weaker.calm world after)
    (broken : ∀ after, conduct.broken world after → weaker.broken world after) :
    Follows weaker action world := by
  unfold Follows at follows ⊢
  cases outcome : action world with
  | ok value after =>
      rw [outcome] at follows
      exact calm after follows
  | error stop after =>
      rw [outcome] at follows
      cases stop with
      | failed error => exact calm after follows
      | panicked payload => exact broken after follows
      | exhausted => exact broken after follows

end Follows

/-- Code follows a conduct, and what it returns is as described. -/
def Gives (conduct : Conduct) (post : A → World → Prop) (action : Live A) (world : World) : Prop :=
  Follows conduct action world ∧ ∀ value after, action world = .ok value after → post value after

namespace Gives

theorem of_follows {post : A → World → Prop} {action : Live A}
    (follows : Follows conduct action world) (always : ∀ value after, post value after) :
    Gives conduct post action world := ⟨follows, fun value after _ => always value after⟩

theorem pure {post : A → World → Prop} {value : A} (holds : post value world) :
    Gives conduct post (Pure.pure value) world := by
  refine ⟨Follows.pure value, ?_⟩
  intro _ _ outcome
  cases outcome
  exact holds

theorem bind {middle : A → World → Prop} {post : B → World → Prop} {action : Live A}
    {next : A → Live B} (first : Gives conduct middle action world)
    (second : ∀ value after, conduct.calm world after → middle value after →
      Gives conduct post (next value) after) :
    Gives conduct post (action >>= next) world := by
  have continued : ∀ value after, action world = .ok value after →
      Gives conduct post (next value) after :=
    fun value after outcome => second value after (first.1.calm outcome) (first.2 value after outcome)
  refine ⟨first.1.bind fun value after outcome => (continued value after outcome).1, ?_⟩
  intro result final returned
  obtain ⟨value, after, outcome, rest⟩ := bind_eq_ok.mp returned
  exact (continued value after outcome).2 result final rest

/-- Code of which nothing is said may come first. -/
theorem follows_bind {post : B → World → Prop} {action : Live A} {next : A → Live B}
    (first : Follows conduct action world)
    (second : ∀ value after, conduct.calm world after → Gives conduct post (next value) after) :
    Gives conduct post (action >>= next) world :=
  bind (of_follows first fun _ _ => trivial) fun value after calm _ => second value after calm

theorem asks {post : B → World → Prop} {next : World → Live B}
    (continued : Gives conduct post (next world) world) :
    Gives conduct post (get >>= next) world := continued

/-- What is done about a failure gives the same as what did not fail. -/
theorem catches {post : A → World → Prop} {action : Live A} {handle : EvalError → Live A}
    (gives : Gives conduct post action world)
    (handled : ∀ error after, action world = .error (.failed error) after →
      Gives conduct post (handle error) after) :
    Gives conduct post (tryCatchThe EvalError action handle) world := by
  refine ⟨gives.1.catches fun error after outcome => (handled error after outcome).1, ?_⟩
  intro value final returned
  rw [tryCatch_apply] at returned
  split at returned
  · rename_i error after outcome
    exact (handled error after outcome).2 value final returned
  · exact gives.2 value final returned

theorem mono {post weaker : A → World → Prop} {action : Live A}
    (gives : Gives conduct post action world)
    (weaken : ∀ value after, post value after → weaker value after) :
    Gives conduct weaker action world :=
  ⟨gives.1, fun value after outcome => weaken value after (gives.2 value after outcome)⟩

end Gives

end Live

end LiveMarkup
