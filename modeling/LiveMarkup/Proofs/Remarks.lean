import LiveMarkup.Proofs.Emission
import LiveMarkup.Proofs.Fields
import LiveMarkup.Proofs.Homes

/-
This file says what is left of code that only tells, and how loops over effects, listeners and hooks go where each
turn is known.
-/

namespace LiveMarkup

open Live

namespace World

/-- Nothing is different but the parses that are kept and what was recorded and noted. -/
def Remarks (before after : World) : Prop :=
  ∃ parses happenings notices, after = { before with parses, happenings, notices }

namespace Remarks

variable {first second third : World}

theorem refl (world : World) : world.Remarks world := ⟨_, _, _, rfl⟩

theorem trans : first.Remarks second → second.Remarks third → first.Remarks third := by
  rintro ⟨_, _, _, rfl⟩ ⟨_, _, _, rfl⟩
  exact ⟨_, _, _, rfl⟩

theorem homed (homed : first.Homed) : first.Remarks second → second.Homed := by
  rintro ⟨_, _, _, rfl⟩
  exact homed.of_same rfl rfl rfl

end Remarks

end World

namespace Live

variable {run : Runner} {world : World} {depth : Nat}

/-- A command that tells a text leaves a remark. -/
theorem performAll_tell (run : Runner) (arguments : List Value) (last : Value) (rest : Script) (level : Level)
    (text : String) (homed : world.Homed) :
    ∃ after, performAll run arguments last (.tell level text :: rest) world = performAll run arguments .null rest after ∧
      world.Remarks after := by
  have told : (world.note (.told level text)).Homed := homed.of_same rfl rfl rfl
  have tells : perform run arguments (.tell level text) world = .ok .null (world.note (.told level text)) := rfl
  exact ⟨_, performAll_of_homed tells told rfl, _, _, _, rfl⟩

/-- A host with one hook of a kind calls it and counts no failure. -/
theorem emitHost_of_hook {id : HostId} {record : Host} {kind : HookKind} {body : Script} {value : Value} {after : World}
    (found : world.host? id = some record) (bodies : record.hooks.bodies kind = [body])
    (performs : performAll (runTo depth) [] .null body
      (((world.tell id (.emitted kind)).note (.hooksEmitted kind 1)).record (.hookCalled kind)) = .ok value after) :
    emitHost (runTo (depth + 1)) id kind world = .ok () after := by
  have hook : callHook (runTo (depth + 1)) kind body
      ((world.tell id (.emitted kind)).note (.hooksEmitted kind 1)) = .ok false after := by
    have runs : runTo (depth + 1) (.hook kind body)
        ((world.tell id (.emitted kind)).note (.hooksEmitted kind 1)) = .ok value after := performs
    unfold callHook
    rw [runs]
  have emits : emitHooks (runTo (depth + 1)) record.hooks kind (world.tell id (.emitted kind)) = .ok 0 after := by
    have calls : callHooks (runTo (depth + 1)) kind [body]
        ((world.tell id (.emitted kind)).note (.hooksEmitted kind 1)) = .ok 0 after := by
      unfold callHooks
      rw [bind_of_ok hook]
      rfl
    unfold emitHooks
    rw [bodies]
    exact calls
  rw [emitHost_eq _ kind found, bind_of_ok emits]
  rfl

/-- A hook that tells a text leaves remarks. -/
theorem emitHost_tells (depth : Nat) {id : HostId} {record : Host} {kind : HookKind} {level : Level} {text : String}
    (homed : world.Homed) (found : world.host? id = some record)
    (bodies : record.hooks.bodies kind = [[.tell level text]]) :
    ∃ after, emitHost (runTo (depth + 1)) id kind world = .ok () after ∧
      (world.tell id (.emitted kind)).Remarks after := by
  let called := ((world.tell id (.emitted kind)).note (.hooksEmitted kind 1)).record (.hookCalled kind)
  have told : called.Homed := (homed.tell id _).of_same rfl rfl rfl
  obtain ⟨after, tells, remarks⟩ := performAll_tell (runTo depth) [] .null [] level text told
  exact ⟨after, emitHost_of_hook found bodies tells, .trans ⟨_, _, _, rfl⟩ remarks⟩

/-- Effects that are disposed let their turns pass. -/
theorem runInTurn_of_disposed (run : Runner) (homed : world.Homed) :
    ∀ (ids : List EffectId) (holds : List Hold), (∀ id ∈ ids, world.graph.isDisposed id = true) →
      ∃ left, runInTurn run ids { world with holds } = .ok () { world with holds := left }
  | [], holds, _ => ⟨holds, rfl⟩
  | id :: rest, holds, disposed => by
      have gone := disposed id List.mem_cons_self
      have passes : runEffect run id { world with holds } = .ok () { world with holds } := by
        obtain ⟨effect, found, ended⟩ := (Option.any_eq_true _ _).mp gone
        rw [runEffect_apply run (show ({ world with holds } : World).graph.effect? id = some effect from found),
          if_pos ended]
      have lets : letGo id { world with holds } = .ok () { world with holds := holds.erase (.effect id) } := by
        have kept : ({ world with holds := holds.erase (.effect id) } : World).Homed := homed.of_same rfl rfl rfl
        exact congrArg (EStateM.Result.ok ()) kept.collect_eq
      obtain ⟨left, others⟩ := runInTurn_of_disposed run homed rest (holds.erase (.effect id))
        fun other member => disposed other (List.mem_cons_of_mem _ member)
      refine ⟨left, ?_⟩
      unfold runInTurn
      rw [bind_of_ok passes, bind_of_ok lets]
      exact others

theorem callHandlers_cons {event : Event} {handler : Handler} {others : List Handler} {value : Value}
    {called after : World} (calls : run (.handler handler event) world = .ok value called)
    (rest : callHandlers run event others called = .ok () after) :
    callHandlers run event (handler :: others) world = .ok () after := by
  unfold callHandlers
  have first : discard (run (.handler handler event)) world = .ok () called := by rw [discard_apply, calls]
  rw [bind_of_ok first]
  exact rest

/-- Where nobody above the target hears an event, it is over once the target was told. -/
theorem dispatch_of_quiet {kind : String} {target : NodeId} {handlers : List Handler} {after : World}
    (known : target < world.forest.size) (hears : world.forest.listenersFor target kind = handlers)
    (calls : callHandlers run ⟨kind, target, target⟩ handlers world = .ok () after)
    (quiet : after.forest.Quiet kind target) : dispatch run kind target world = .ok handlers.length after := by
  obtain ⟨limit, same, enough⟩ : ∃ limit, world.forest.size + 1 + patience = limit + 1 ∧ target ≤ limit :=
    ⟨world.forest.size + patience, by omega, Nat.le_trans (Nat.le_of_lt known) (Nat.le_add_right _ _)⟩
  unfold dispatch
  rw [get_bind, same]
  unfold bubble
  rw [get_bind, hears, bind_of_ok calls, get_bind, World.bubble_quiet run target quiet enough, Nat.zero_add]

end Live

end LiveMarkup
