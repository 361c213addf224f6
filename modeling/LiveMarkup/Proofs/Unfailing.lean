import LiveMarkup.Proofs.Conduct

/-
This file shows that the failure of an expression or a script never leaves the task of an effect.
-/

namespace LiveMarkup.Live

variable {A B : Type} {run : Runner}

/-- Code does not fail. It may still break off. -/
def Unfailing (action : Live A) : Prop :=
  ∀ world error after, action world ≠ .error (.failed error) after

namespace Unfailing

theorem pure (value : A) : Unfailing (Pure.pure value) := by
  intro world error after impossible
  cases impossible

theorem modifies (change : World → World) : Unfailing (modify change) := by
  intro world error after impossible
  cases impossible

theorem exhausted : Unfailing (throwThe Stop .exhausted : Live A) := by
  intro world error after impossible
  cases impossible

theorem bind {action : Live A} {next : A → Live B} (first : Unfailing action)
    (second : ∀ value, Unfailing (next value)) : Unfailing (action >>= next) := by
  intro world error final outcome
  rw [bind_apply] at outcome
  cases result : action world with
  | ok value after =>
      rw [result] at outcome
      exact second value after error final outcome
  | error stop after =>
      rw [result] at outcome
      cases outcome
      exact first world error _ result

theorem asks {next : World → Live B} (continued : ∀ world, Unfailing (next world)) :
    Unfailing (get >>= next) := fun world => continued world world

theorem discard {action : Live A} (unfailing : Unfailing action) :
    Unfailing (Functor.discard action) := by
  intro world error final outcome
  rw [discard_apply] at outcome
  cases result : action world with
  | ok value after =>
      rw [result] at outcome
      cases outcome
  | error stop after =>
      rw [result] at outcome
      cases outcome
      exact unfailing world error _ result

theorem ending {action : Live A} (change : World → World) (unfailing : Unfailing action) :
    Unfailing (Live.ending action change) := by
  intro world error final outcome
  unfold Live.ending at outcome
  cases result : action world with
  | ok value after =>
      rw [result] at outcome
      cases outcome
  | error stop after =>
      rw [result] at outcome
      cases outcome
      exact unfailing world error after result

theorem operation {action : Live A} (unfailing : Unfailing action) :
    Unfailing (Live.operation action) := by
  intro world
  exact ending _ unfailing world

theorem inFrame {action : Live A} (frame : Option EffectId) (unfailing : Unfailing action) :
    Unfailing (Live.inFrame frame action) :=
  (modifies _).bind fun _ => ending _ unfailing

/-- A failure that is caught is gone. -/
theorem catches {action : Live A} {handle : EvalError → Live A}
    (handled : ∀ error, Unfailing (handle error)) :
    Unfailing (tryCatchThe EvalError action handle) := by
  intro world error final outcome
  rw [tryCatch_apply] at outcome
  cases result : action world with
  | ok value after =>
      rw [result] at outcome
      cases outcome
  | error stop after =>
      rw [result] at outcome
      cases stop with
      | failed caught => exact handled caught after error final outcome
      | panicked payload => cases outcome
      | exhausted => cases outcome

theorem hold (held : Hold) : Unfailing (Live.hold held) := modifies _

theorem note (notice : Notice) : Unfailing (Live.note notice) := modifies _

theorem evaluateText (state : TargetId) (source : String) :
    Unfailing (Live.evaluateText run state source) :=
  (catches fun _ => (note _).bind fun _ => pure _).bind fun _ => pure _

theorem interpolateSegments (state : TargetId) (segments : List Interpolation.Segment) :
    Unfailing (Live.interpolateSegments run state segments) := by
  induction segments with
  | nil => exact pure _
  | cons segment rest inductionHypothesis =>
      cases segment with
      | literal c => exact inductionHypothesis.bind fun _ => pure _
      | expression source =>
          exact (evaluateText state _).bind fun _ => inductionHypothesis.bind fun _ => pure _

theorem interpolate (state : TargetId) (text : String) :
    Unfailing (Live.interpolate run state text) :=
  (interpolateSegments state _).bind fun _ => pure _

theorem whileAlive (state : TargetId) {action : Live Unit} (unfailing : Unfailing action) :
    Unfailing (Live.whileAlive state action) := by
  refine asks fun world => ?_
  split
  · exact operation ((hold _).bind fun _ => unfailing)
  · exact pure _

theorem showAt (node : NodeId) (text : String) : Unfailing (Live.showAt node text) :=
  asks fun _ => (modifies _).bind fun _ => modifies _

theorem showValue (state : TargetId) (node : NodeId) (source : String) :
    Unfailing (Live.showValue run state node source) := by
  refine whileAlive state ((evaluateText state source).bind fun text => asks fun world => ?_)
  split
  · exact modifies _
  · exact pure _

/-! Effects, hooks and hosts. The code that they reach must not fail. -/

theorem runEffect (tasks : ∀ task, Unfailing (run (.task task))) (id : EffectId) :
    Unfailing (Live.runEffect run id) := by
  refine asks fun world => ?_
  split
  · exact pure _
  · split
    · exact pure _
    · split
      · exact note _
      · exact inFrame _ ((modifies _).bind fun _ => (tasks _).discard)

theorem registerEffect (tasks : ∀ task, Unfailing (run (.task task))) (label : String) (task : Task)
    (captures : List TargetId) : Unfailing (Live.registerEffect run label task captures) := by
  have creates : Unfailing (createEffect label task captures) := by
    intro world error after impossible
    cases impossible
  exact creates.bind fun id => (hold _).bind fun _ => (note _).bind fun _ =>
    (runEffect tasks id).bind fun _ => pure _

theorem dropDirective (node : NodeId) (name : String) : Unfailing (Live.dropDirective node name) :=
  asks fun _ => (modifies _).bind fun _ => modifies _

theorem bindAttribute (tasks : ∀ task, Unfailing (run (.task task))) (state : TargetId)
    (node : NodeId) (name source : String) (bindings : Bindings) :
    Unfailing (Live.bindAttribute run state node name source bindings) := by
  unfold Live.bindAttribute
  split
  · exact (registerEffect tasks _ _ _).bind fun _ => (dropDirective _ _).bind fun _ => pure _
  · refine asks fun world => ?_
    dsimp only
    split
    · exact (registerEffect tasks _ _ _).bind fun _ => asks fun _ => (modifies _).bind fun _ =>
        (dropDirective _ _).bind fun _ => pure _
    · exact (note _).bind fun _ => pure _
  · unfold bindEvent
    split
    · exact (note _).bind fun _ => pure _
    · exact (modifies _).bind fun _ => (dropDirective _ _).bind fun _ => pure _
  · exact pure _

theorem bindAttributes (tasks : ∀ task, Unfailing (run (.task task))) (state : TargetId)
    (node : NodeId) (attributes : List (String × String)) (bindings : Bindings) :
    Unfailing (Live.bindAttributes run state node attributes bindings) := by
  induction attributes generalizing bindings with
  | nil => exact pure _
  | cons entry rest inductionHypothesis =>
      exact (bindAttribute tasks state node entry.1 entry.2 bindings).bind
        fun bound => inductionHypothesis bound

theorem bindFrom (tasks : ∀ task, Unfailing (run (.task task))) (state : TargetId) (root : NodeId)
    (limit : Nat) (place : Option NodeId) (bindings : Bindings) :
    Unfailing (Live.bindFrom run state root limit place bindings) := by
  have binds : ∀ node bindings, Unfailing (Live.bindNode run state node bindings) := by
    intro node bindings
    refine asks fun world => ?_
    dsimp only
    split
    · have interpolates : Unfailing (Live.bindInterpolation run state node bindings) := by
        refine asks fun world => ?_
        dsimp only
        split
        · exact (registerEffect tasks _ _ _).bind fun _ => pure _
        · exact pure _
      exact interpolates.bind fun _ => pure _
    · exact (bindAttributes tasks state node _ bindings).bind fun _ => pure _
    · exact pure _
  induction limit generalizing place bindings with
  | zero =>
      cases place with
      | none => exact pure _
      | some node => exact exhausted
  | succ limit inductionHypothesis =>
      cases place with
      | none => exact pure _
      | some node => exact (binds node bindings).bind fun _ => asks fun _ => inductionHypothesis _ _

theorem bind_tree (tasks : ∀ task, Unfailing (run (.task task))) (root : NodeId) (state : TargetId) :
    Unfailing (Live.bind run root state) :=
  asks fun _ => (bindFrom tasks state root _ _ _).bind fun _ => (note _).bind fun _ => pure _

theorem emitHooks (hooks : Hooks) (kind : HookKind) : Unfailing (Live.emitHooks run hooks kind) := by
  have calls : ∀ body, Unfailing (callHook run kind body) := by
    intro body world error after outcome
    unfold callHook at outcome
    cases result : run (.hook kind body) world with
    | ok value reached =>
        rw [result] at outcome
        cases outcome
    | error stop reached =>
        rw [result] at outcome
        cases stop <;> cases outcome
  have all : ∀ bodies, Unfailing (callHooks run kind bodies) := by
    intro bodies
    induction bodies with
    | nil => exact pure _
    | cons body rest inductionHypothesis =>
        exact (calls body).bind fun _ => inductionHypothesis.bind fun _ => pure _
  unfold Live.emitHooks
  dsimp only
  split
  · exact pure _
  · exact (note _).bind fun _ => all _

theorem emitHost (id : HostId) (kind : HookKind) : Unfailing (Live.emitHost run id kind) := by
  refine asks fun world => ?_
  split
  · exact pure _
  · refine (modifies _).bind fun _ => (emitHooks _ kind).bind fun failures => ?_
    split
    · exact note _
    · exact pure _

theorem parseTemplate (source : String) : Unfailing (Live.parseTemplate source) := by
  have plants : Unfailing (modifyGet fun world : World =>
      ((world.forest.plantFragment (Markup.read source).trees).1,
        { world with forest := (world.forest.plantFragment (Markup.read source).trees).2 })) := by
    intro world error after impossible
    cases impossible
  refine plants.bind fun root => ?_
  split
  · exact pure _
  · split
    · exact (note _).bind fun _ => pure _
    · exact pure _

theorem dropBindings (id : HostId) : Unfailing (Live.dropBindings id) := by
  refine asks fun world => ?_
  split
  · exact pure _
  · exact (modifies _).bind fun _ => modifies _

theorem renderHost (tasks : ∀ task, Unfailing (run (.task task)))
    (rendered : ∀ id, Unfailing (run (.rendered id))) (id : HostId) :
    Unfailing (Live.renderHost run id) := by
  refine asks fun world => ?_
  split
  · exact pure _
  · refine (parseTemplate _).bind fun parsed => ?_
    split
    · exact pure _
    · have renders : ∀ host fragment, Unfailing (Live.renderContent run id host fragment) :=
        fun host fragment => (modifies _).bind fun _ => (dropBindings id).bind fun _ => (bind_tree tasks fragment _).bind fun _ =>
          (asks fun _ => (modifies _).bind fun _ => (modifies _).bind fun _ => modifies _).bind
            fun _ => asks fun _ => (note _).bind fun _ => (rendered id).discard
      exact (renders _ _).bind fun _ => pure _

theorem drawHost (tasks : ∀ task, Unfailing (run (.task task)))
    (rendered : ∀ id, Unfailing (run (.rendered id))) (id : HostId) :
    Unfailing (Live.drawHost run id) :=
  (modifies _).bind fun _ => ending _ (renderHost tasks rendered id)

theorem rerender (tasks : ∀ task, Unfailing (run (.task task)))
    (rendered : ∀ id, Unfailing (run (.rendered id))) (id : HostId) :
    Unfailing (Live.rerender run id) := by
  refine operation (asks fun world => ?_)
  split
  · exact pure _
  · split
    · refine (hold _).bind fun _ => (modifies _).bind fun _ => ?_
      split
      · refine (drawHost tasks rendered id).bind fun outcome => ?_
        split
        · exact emitHost id _
        · exact (modifies _).bind fun _ => note _
      · exact pure _
    · exact pure _

/-- A script that is swallowed does not fail. -/
theorem startsScript (happening : Happening) (body : Script) : Unfailing
    (do Live.record happening; Live.swallowing (Live.performAll run [] .null body)) :=
  (modifies _).bind fun _ => catches fun _ => pure _

theorem performTask (tasks : ∀ task, Unfailing (run (.task task)))
    (rendered : ∀ id, Unfailing (run (.rendered id))) (task : Task) :
    Unfailing (Live.performTask run task) := by
  cases task with
  | script name body => exact startsScript _ body
  | interpolation state node source =>
      exact (whileAlive state ((interpolate state source).bind fun _ => showAt node _)).bind
        fun _ => pure _
  | textBinding state node source =>
      exact (whileAlive state ((evaluateText state source).bind fun _ => showAt node _)).bind
        fun _ => pure _
  | valueBinding state node source => exact (showValue state node source).bind fun _ => pure _
  | render host => exact (rerender tasks rendered host).bind fun _ => pure _

theorem performRendered (id : HostId) : Unfailing (Live.performRendered run id) := by
  refine asks fun world => ?_
  split
  · exact pure _
  · refine (modifies _).bind fun _ => ?_
    split
    · exact pure _
    · exact startsScript _ _

end Unfailing

/-- Tasks do not fail, to whatever depth they run others. -/
theorem unfailing_runTo (depth : Nat) :
    (∀ task, Unfailing (runTo depth (.task task))) ∧
      ∀ id, Unfailing (runTo depth (.rendered id)) := by
  induction depth with
  | zero => exact ⟨fun _ => .exhausted, fun _ => .exhausted⟩
  | succ depth inductionHypothesis =>
      obtain ⟨tasks, rendered⟩ := inductionHypothesis
      exact ⟨.performTask tasks rendered, .performRendered⟩

theorem unfailing_runEffect (depth : Nat) (id : EffectId) : Unfailing (runEffect (runTo depth) id) :=
  .runEffect (unfailing_runTo depth).1 id

theorem unfailing_runInTurn (depth : Nat) (ids : List EffectId) :
    Unfailing (runInTurn (runTo depth) ids) := by
  induction ids with
  | nil => exact .pure _
  | cons id rest inductionHypothesis =>
      exact (unfailing_runEffect depth id).bind fun _ =>
        (Unfailing.modifies _).bind fun _ => inductionHypothesis

theorem unfailing_trigger (depth : Nat) (target : TargetId) (name : String) :
    Unfailing (trigger (runTo depth) target name) := by
  refine .operation (.asks fun world => ?_)
  have turns : Unfailing (do
      modify fun current => { current with
        holds := (world.graph.concerned target name).map .effect ++ current.holds }
      runInTurn (runTo depth) (world.graph.concerned target name)) :=
    (Unfailing.modifies _).bind fun _ => unfailing_runInTurn depth _
  dsimp only
  split
  · exact turns
  · exact (Unfailing.note _).bind fun _ => turns

end LiveMarkup.Live
