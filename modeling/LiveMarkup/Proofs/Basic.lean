import LiveMarkup.Proofs.ReadOnly

/-
This file shows that names, expressions, events and hooks follow each conduct that the simplest
operations follow.
-/

namespace LiveMarkup

/-- Tasks are run by effects, and other code by whoever calls it. -/
def Activity.isTask : Activity → Bool
  | .task _ => true
  | _ => false

/-- A way to run code keeps a conduct if all code that is run so follows it where it fits. -/
def Runner.Keeps (conduct : Conduct) (run : Runner) : Prop :=
  ∀ activity world, conduct.fits activity world → Live.Follows conduct (run activity) world

/-- Names are rearranged without a new name for an effect or a host. -/
structure Names.Rearranged (before after : Names) : Prop where
  effects : ∀ entry ∈ after.effects, ∃ old ∈ before.effects, old.2 = entry.2
  bindings : ∀ entry ∈ after.bindings, ∀ id ∈ entry.2.effects,
    ∃ old ∈ before.bindings, id ∈ old.2.effects
  hosts : ∀ entry ∈ after.hosts, ∃ old ∈ before.hosts, old.2 = entry.2

/-- Most changes of names leave effects, bindings and hosts alone. -/
theorem Names.Rearranged.of_eq {before after : Names} (effects : after.effects = before.effects)
    (bindings : after.bindings = before.bindings) (hosts : after.hosts = before.hosts) :
    before.Rearranged after where
  effects entry member := ⟨entry, effects ▸ member, rfl⟩
  bindings entry member _ listed := ⟨entry, bindings ▸ member, listed⟩
  hosts entry member := ⟨entry, hosts ▸ member, rfl⟩

/-- These commands change what nodes show. -/
def NodeCommand.isEdit : NodeCommand → Bool
  | .append .. => true
  | .detach .. => true
  | .clear .. => true
  | .setText .. => true
  | .setAttribute .. => true
  | .removeAttribute .. => true
  | _ => false

open Live in
/-- These operations run code or change names. A hook that panics is given up. A living host reads its
state without a hold of its own. -/
structure Basic (conduct : Conduct) (run : Runner) : Prop extends Plain conduct where
  keeps : run.Keeps conduct
  calls : ∀ activity world, activity.isTask = false → conduct.fits activity world := by
    exact fun _ _ _ => trivial
  breaks : ∀ {before after}, conduct.calm before after → conduct.broken before after
  records : ∀ happening world, conduct.calm world (world.record happening)
  tracksHost : ∀ id host key (world : World), world.host? id = some host → host.alive = true →
    Follows conduct (track host.state key) world
  names : ∀ names (world : World), world.names.Rearranged names →
    conduct.calm world { world with names }
  recovers : ∀ {before after} kind payload, conduct.broken before after →
    conduct.calm before ((after.note (.hookPanicked kind payload)).attest (.recovered payload))
  emits : ∀ id kind (world : World), kind ≠ .update →
    conduct.calm world (world.tell id (.emitted kind))

namespace Basic

open Live

variable {conduct : Conduct} {run : Runner} {A : Type} {world : World}

theorem record (basic : Basic conduct run) (happening : Happening) :
    Follows conduct (Live.record happening) world := basic.records happening world

/-- Code that is called fits wherever it is called. -/
theorem called (basic : Basic conduct run) (activity : Activity) (call : activity.isTask = false)
    (world : World) : Follows conduct (run activity) world :=
  basic.keeps activity world (basic.calls activity world call)

theorem modifyNames (basic : Basic conduct run) {change : Names → Names}
    (rearranged : world.names.Rearranged (change world.names)) :
    Follows conduct (Live.modifyNames change) world := basic.names _ world rearranged

theorem nameState (basic : Basic conduct run) (name : String) (id : TargetId) :
    Follows conduct (Live.nameState name id) world :=
  basic.modifyNames (.of_eq rfl rfl rfl)

theorem nameEmitter (basic : Basic conduct run) (name : String) (hooks : Hooks) :
    Follows conduct (Live.nameEmitter name hooks) world :=
  basic.modifyNames (.of_eq rfl rfl rfl)

theorem callMethod (basic : Basic conduct run) (state : TargetId) (name : String)
    (arguments : List Value) (world : World) :
    Follows conduct (Live.callMethod run state name arguments) world := by
  refine (Plain.methodsOf state).bind fun methods after _ => ?_
  split
  · exact Follows.fails _
  · exact Follows.pure _
  · rename_i body _
    exact (basic.called (.method name body arguments) rfl after).catches fun _ _ _ =>
      Follows.fails _

section

variable (basic : Basic conduct run) {state : TargetId} (ready : conduct.ready state world)
include basic ready

theorem evaluateStrictly (source : String) :
    Follows conduct (Live.evaluateStrictly run state source) world :=
  basic.evaluatesStrictly state (fun _ => basic.callMethod state) source ready (Or.inr trivial)

theorem evaluate (source : String) : Follows conduct (Live.evaluate run state source) world :=
  basic.evaluates state (fun _ => basic.callMethod state) source ready (Or.inr trivial)

theorem evaluateText (source : String) :
    Follows conduct (Live.evaluateText run state source) world :=
  basic.evaluatesText state (fun _ => basic.callMethod state) source ready (Or.inr trivial)

theorem interpolate (text : String) : Follows conduct (Live.interpolate run state text) world :=
  basic.interpolates state (fun _ => basic.callMethod state) text ready (Or.inr trivial)

end

/-! Events and hooks. -/

theorem callHandlers (basic : Basic conduct run) (event : Event) (handlers : List Handler)
    (world : World) : Follows conduct (Live.callHandlers run event handlers) world := by
  induction handlers generalizing world with
  | nil => exact Follows.pure _
  | cons handler rest inductionHypothesis =>
      exact (basic.called (.handler handler event) rfl world).discard.bind fun _ after _ =>
        inductionHypothesis after

theorem bubble (basic : Basic conduct run) (kind : String) (target : NodeId) (limit : Nat)
    (node : Option NodeId) (called : Nat) (world : World) :
    Follows conduct (Live.bubble run kind target limit node called) world := by
  induction limit generalizing node called world with
  | zero =>
      cases node with
      | none => exact Follows.pure _
      | some node => exact Follows.stops (basic.breaks (conduct.refl world)) _
  | succ limit inductionHypothesis =>
      cases node with
      | none => exact Follows.pure _
      | some node =>
          exact Follows.asks ((basic.callHandlers _ _ world).bind fun _ after _ =>
            Follows.asks (inductionHypothesis _ _ after))

theorem dispatch (basic : Basic conduct run) (kind : String) (target : NodeId) :
    Follows conduct (Live.dispatch run kind target) world :=
  Follows.asks (basic.bubble kind target _ _ _ world)

theorem click (basic : Basic conduct run) (target : NodeId) :
    Follows conduct (Live.click run target) world := (basic.dispatch "click" target).discard

/-- A hook that fails or panics is noted, and the code after it goes on. -/
theorem callHook (basic : Basic conduct run) (kind : HookKind) (body : Script) :
    Follows conduct (Live.callHook run kind body) world := by
  have called := basic.called (.hook kind body) rfl world
  unfold Follows at called ⊢
  unfold Live.callHook
  cases outcome : run (.hook kind body) world with
  | ok value after =>
      rw [outcome] at called
      exact called
  | error stop after =>
      rw [outcome] at called
      cases stop with
      | failed error => exact conduct.trans called (basic.notes _ after)
      | panicked payload => exact basic.recovers kind payload called
      | exhausted => exact called

theorem callHooks (basic : Basic conduct run) (kind : HookKind) (bodies : List Script)
    (world : World) : Follows conduct (Live.callHooks run kind bodies) world := by
  induction bodies generalizing world with
  | nil => exact Follows.pure _
  | cons body rest inductionHypothesis =>
      exact (basic.callHook kind body).bind fun _ after _ =>
        (inductionHypothesis after).bind fun _ _ _ => Follows.pure _

theorem emitHooks (basic : Basic conduct run) (hooks : Hooks) (kind : HookKind) :
    Follows conduct (Live.emitHooks run hooks kind) world := by
  unfold Live.emitHooks
  dsimp only
  split
  · exact Follows.pure _
  · exact (basic.note _).bind fun _ after _ => basic.callHooks kind _ after

/-! Hosts. -/

/-- An emission is told before the hooks are called. -/
theorem emitHost (basic : Basic conduct run) (id : HostId) (kind : HookKind)
    (tells : conduct.calm world (world.tell id (.emitted kind))) :
    Follows conduct (Live.emitHost run id kind) world := by
  refine Follows.asks ?_
  split
  · exact Follows.pure _
  · refine (Follows.modifies tells).bind fun _ _ _ => (basic.emitHooks _ kind).bind fun failures after _ => ?_
    split
    · exact basic.note _
    · exact Follows.pure _

/-- Most kinds of hooks may be called by anybody. -/
theorem emitsHost (basic : Basic conduct run) (id : HostId) {kind : HookKind} (other : kind ≠ .update) :
    Follows conduct (Live.emitHost run id kind) world :=
  basic.emitHost id kind (basic.emits id kind world other)

/-- The inner render of a host lies between two milestones of the host. -/
theorem drawHost_eq_ok {id : HostId} {outcome : Except TemplateError Unit} {world drawn : World} :
    Live.drawHost run id world = .ok outcome drawn ↔ ∃ rendered,
      Live.renderHost run id (world.tell id .began) = .ok outcome rendered ∧
        drawn = rendered.tell id .ended := by
  show Live.ending (Live.renderHost run id) _ (world.tell id .began) = _ ↔ _
  unfold Live.ending
  cases Live.renderHost run id (world.tell id .began) with
  | ok value rendered =>
      constructor
      · intro returned
        cases returned
        exact ⟨rendered, rfl, rfl⟩
      · rintro ⟨_, same, rfl⟩
        cases same
        rfl
  | error stop rendered =>
      constructor
      · intro impossible
        cases impossible
      · rintro ⟨_, impossible, -⟩
        cases impossible

/-! A host whose story may be told to go on in any way renders, if its inner render follows, which may
need the host to be held. -/

section

variable {id : HostId} {needs : Prop}
  (tells : ∀ milestone world, conduct.calm world (world.tell id milestone))
  (renders : ∀ world : World, (needs → .host id ∈ world.holds) →
    Follows conduct (Live.renderHost run id) world)
include tells renders

theorem drawHost (held : needs → .host id ∈ world.holds) : Follows conduct (Live.drawHost run id) world :=
  (Follows.modifies (tells .began world)).bind fun _ begun outcome => by
    cases outcome
    exact (renders _ (by exact held)).ending fun after => tells .ended after

theorem renderAsked (held : needs → .host id ∈ world.holds) : Follows conduct (Live.renderAsked run id) world := by
  refine (Follows.modifies (tells (.asked .render) world)).bind fun _ asked outcome => ?_
  cases outcome
  refine (drawHost tells renders (by exact held)).bind fun drawn after _ => ?_
  split
  · exact (Follows.modifies (tells .refused after)).bind fun _ _ _ => Follows.pure _
  · exact (Follows.modifies (tells (.answered .render) after)).bind fun _ _ _ => Follows.pure _

variable (basic : Basic conduct run)
include basic

theorem mountHost (mounts : ∀ world : World,
      conduct.calm world (world.modifyHost id fun host => { host with mounted := true }))
    (held : needs → .host id ∈ world.holds) : Follows conduct (Live.mountHost run id) world := by
  refine (Follows.modifies (tells (.asked .mount) world)).bind fun _ asked outcome => ?_
  cases outcome
  refine (drawHost tells renders (by exact held)).bind fun drawn after _ => ?_
  split
  · exact (Follows.modifies (tells .refused after)).bind fun _ _ _ => Follows.pure _
  · exact (Follows.modifies (tells (.answered .mount) after)).bind fun _ _ _ =>
      (Follows.modifies (mounts _)).bind fun _ _ _ => Follows.asks
        ((basic.note _).bind fun _ noted _ =>
          (basic.emitHost id .mount (tells _ noted)).bind fun _ _ _ => Follows.pure _)

theorem rerender : Follows conduct (Live.rerender run id) world := by
  refine basic.operation (Follows.asks ?_)
  split
  · exact Follows.pure _
  · rename_i host found
    split
    · rename_i alive
      refine (basic.holds _ world).bind fun _ held holds => ?_
      have known : held.host? id = some host := by
        cases holds
        dsimp only
        split <;> exact found
      refine (basic.tracksHost id host _ held known alive).bind fun _ tracked tracks => ?_
      split
      · have before : .host id ∈ held.holds := mem_holds_of_hold holds
        have kept : .host id ∈ tracked.holds := by
          cases tracks
          exact before
        refine (drawHost tells renders fun _ => kept).bind fun outcome drawn _ => ?_
        split
        · exact basic.emitHost id .update (tells _ drawn)
        · exact (Follows.modifies (tells .refused drawn)).bind fun _ _ _ => basic.note _
      · exact Follows.pure _
    · exact Follows.pure _

end

end Basic

end LiveMarkup
