import LiveMarkup.Proofs.Running

/-
This file lifts conducts from scripts to the activities of a world, and to whole scenarios.
-/

namespace LiveMarkup

namespace Lawful

open Live

variable {A : Type} {conduct : Conduct} {run : Runner} {world : World}

/-- The script of an effect, a listener or a component starts with a record. -/
theorem startsScript (lawful : Lawful conduct run) (happening : Happening) (body : Script) :
    Follows conduct
      (do Live.record happening; Live.swallowing (Live.performAll run [] .null body)) world :=
  (lawful.record happening).bind fun _ after _ =>
    Plain.swallowing (lawful.performAll [] .null after body)

theorem performTask (lawful : Lawful conduct run) (task : Task) (fits : conduct.fits (.task task) world) :
    Follows conduct (Live.performTask run task) world := by
  cases task with
  | script name body => exact lawful.startsScript _ body
  | interpolation state node source =>
      exact (lawful.showInterpolation state node source).bind fun _ _ _ => Follows.pure _
  | textBinding state node source =>
      exact (lawful.showText state node source).bind fun _ _ _ => Follows.pure _
  | valueBinding state node source =>
      exact (lawful.showValue state node source).bind fun _ _ _ => Follows.pure _
  | render host => exact (lawful.rerenders host world fits).bind fun _ _ _ => Follows.pure _

theorem storeInput (lawful : Lawful conduct run) (state : TargetId) (key : String)
    (numeric : Bool) (node : NodeId) :
    Follows conduct (Live.storeInput run state key numeric node) world :=
  lawful.whileAlive state fun _ _ => Follows.asks
    (lawful.untracked fun after => lawful.writes state key _ after)

theorem evaluateListener (lawful : Lawful conduct run) (state : TargetId) (source : String) :
    Follows conduct (Live.evaluateListener run state source) world :=
  lawful.whileAlive state fun after ready =>
    lawful.untracks _ after
      (lawful.evaluate (lawful.frames ready) source).discard

theorem performHandler (lawful : Lawful conduct run) (event : Event) (handler : Handler) :
    Follows conduct (Live.performHandler run event handler) world := by
  cases handler with
  | script body => exact Follows.asks (lawful.startsScript _ body)
  | storeInput state key numeric =>
      exact (lawful.storeInput state key numeric _).bind fun _ _ _ => Follows.pure _
  | evaluate state source =>
      exact (lawful.evaluateListener state source).bind fun _ _ _ => Follows.pure _

theorem performRendered (lawful : Lawful conduct run) (id : HostId) :
    Follows conduct (Live.performRendered run id) world := by
  refine Follows.asks ?_
  split
  · exact Follows.pure _
  · refine (lawful.nameNode _ _).bind fun _ _ _ => ?_
    split
    · exact Follows.pure _
    · exact lawful.startsScript _ _

theorem runActivity (lawful : Lawful conduct run) (activity : Activity) (fits : conduct.fits activity world) :
    Follows conduct (Live.runActivity run activity) world := by
  cases activity with
  | task task => exact lawful.performTask task fits
  | method name body arguments =>
      exact (lawful.record _).bind fun _ after _ => lawful.performAll arguments .null after body
  | handler handler event => exact lawful.performHandler event handler
  | hook kind body =>
      exact (lawful.record _).bind fun _ after _ => lawful.performAll [] .null after body
  | rendered host => exact lawful.performRendered host

end Lawful

/-- If each level is lawful when the code below it keeps the conduct, then all levels keep it. -/
theorem Runner.keeps_runTo {conduct : Conduct}
    (breaks : ∀ world, conduct.broken world world)
    (lawful : ∀ depth, (Live.runTo depth).Keeps conduct → Lawful conduct (Live.runTo depth))
    (depth : Nat) : (Live.runTo depth).Keeps conduct := by
  induction depth with
  | zero => exact fun _ world _ => Live.Follows.stops (breaks world) _
  | succ depth inductionHypothesis =>
      exact fun activity _ fits => (lawful depth inductionHypothesis).runActivity activity fits

namespace Step

/-- A step is calm if it returned a value or failed. -/
def isCalm (step : Step) : Bool :=
  match step.outcome with
  | .ok _ => true
  | .error (.failed _) => true
  | .error _ => false

end Step

namespace World

variable {conduct : Conduct}

/-- The records of the last step are forgotten before the next one. -/
def forget (world : World) : World := { world with happenings := [], notices := [] }

theorem start_follows (lawful : ∀ depth, Lawful conduct (Live.runTo depth)) (command : Command)
    (world : World) : Live.Follows conduct (Live.start command) world :=
  Live.Follows.asks ((lawful (Live.depthOf world)).operation
    ((lawful (Live.depthOf world)).perform [] world command))

theorem step_eq (world : World) (command : Command) :
    world.step command =
      match Live.start command world.forget with
      | .ok value after => (⟨.ok value, after.happenings.reverse, after.notices.reverse⟩, after)
      | .error stop after =>
          (⟨.error stop, after.happenings.reverse, after.notices.reverse⟩, after) := rfl

/-- A calm step stays within the conduct, and so does any step, if it may break off. -/
theorem step_follows_of (breaks : ∀ {before after}, conduct.calm before after → conduct.broken before after)
    (forgets : ∀ world, conduct.calm world world.forget) (world : World) {command : Command}
    (starts : Live.Follows conduct (Live.start command) world.forget) :
    conduct.broken world (world.step command).2 ∧
      ((world.step command).1.isCalm = true → conduct.calm world (world.step command).2) := by
  have started := starts.after (forgets world)
  rw [step_eq]
  cases outcome : Live.start command world.forget with
  | ok value after =>
      rw [outcome] at started
      exact ⟨breaks started, fun _ => started⟩
  | error stop after =>
      rw [outcome] at started
      cases stop with
      | failed error => exact ⟨breaks started, fun _ => started⟩
      | panicked payload => exact ⟨started, fun calm => absurd calm (by simp [Step.isCalm])⟩
      | exhausted => exact ⟨started, fun calm => absurd calm (by simp [Step.isCalm])⟩

theorem step_follows (lawful : ∀ depth, Lawful conduct (Live.runTo depth))
    (forgets : ∀ world, conduct.calm world world.forget) (world : World) (command : Command) :
    conduct.broken world (world.step command).2 ∧
      ((world.step command).1.isCalm = true → conduct.calm world (world.step command).2) :=
  step_follows_of (lawful 0).breaks forgets world (start_follows lawful command world.forget)

theorem play_cons (world : World) (command : Command) (rest : List Command) :
    world.play (command :: rest) =
      ((world.step command).1 :: ((world.step command).2.play rest).1,
        ((world.step command).2.play rest).2) := rfl

/-- A scenario of calm steps stays within the conduct. -/
theorem play_follows (lawful : ∀ depth, Lawful conduct (Live.runTo depth))
    (forgets : ∀ world, conduct.calm world world.forget) (world : World)
    (commands : List Command) (calm : ∀ step ∈ (world.play commands).1, step.isCalm = true) :
    conduct.calm world (world.play commands).2 := by
  induction commands generalizing world with
  | nil => exact conduct.refl world
  | cons command rest inductionHypothesis =>
      rw [play_cons] at calm ⊢
      have first := (step_follows lawful forgets world command).2 (calm _ List.mem_cons_self)
      exact conduct.trans first
        (inductionHypothesis _ fun step member => calm step (List.mem_cons_of_mem _ member))

section Always

variable {relation : World → World → Prop} {refl : ∀ world, relation world world}
  {trans : ∀ {first second third}, relation first second → relation second third →
    relation first third}

/-- A scenario stays within a conduct that makes no difference between calm and broken ends, if its
commands do. -/
theorem play_follows_of (forgets : ∀ world : World, relation world world.forget) {commands : List Command}
    (starts : ∀ command ∈ commands, ∀ world,
      Live.Follows (.always relation refl trans) (Live.start command) world) (world : World) :
    relation world (world.play commands).2 := by
  induction commands generalizing world with
  | nil => exact refl world
  | cons command rest inductionHypothesis =>
      rw [play_cons]
      have first := (step_follows_of (fun calm => calm) forgets world
        (starts command List.mem_cons_self world.forget)).1
      exact trans first (inductionHypothesis (fun other member =>
        starts other (List.mem_cons_of_mem _ member)) _)

theorem play_follows_always (lawful : ∀ depth, Lawful (.always relation refl trans) (Live.runTo depth))
    (forgets : ∀ world : World, relation world world.forget) (world : World)
    (commands : List Command) : relation world (world.play commands).2 :=
  play_follows_of forgets (fun command _ => start_follows lawful command) world

end Always

end World

end LiveMarkup
