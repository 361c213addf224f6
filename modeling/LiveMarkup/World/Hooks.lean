import LiveMarkup.World.Basic

/-
This file emits hooks. A hook that fails or panics does not keep the others from being called.
-/

namespace LiveMarkup

namespace Hooks

def count (hooks : Hooks) (kind : HookKind) : Nat := hooks.countP fun hook => hook.1 = kind

def bodies (hooks : Hooks) (kind : HookKind) : List Script :=
  (hooks.filter fun hook => hook.1 = kind).map Prod.snd

end Hooks

namespace Live

/-- This function calls one hook and tells whether it failed. -/
def callHook (run : Runner) (kind : HookKind) (body : Script) : Live Bool := fun world =>
  match run (.hook kind body) world with
  | .ok _ after => .ok false after
  | .error (.failed error) after => .ok true (after.note (.hookFailed kind error))
  | .error (.panicked payload) after =>
      .ok true ((after.note (.hookPanicked kind payload)).attest (.recovered payload))
  | .error .exhausted after => .error .exhausted after

/-- This function calls hooks in order and counts the failures. -/
def callHooks (run : Runner) (kind : HookKind) : List Script → Live Nat
  | [] => pure 0
  | body :: rest => do
      let failed ← callHook run kind body
      let failures ← callHooks run kind rest
      pure (if failed then failures + 1 else failures)

/-- An emission calls the hooks that are registered when it starts. -/
def emitHooks (run : Runner) (hooks : Hooks) (kind : HookKind) : Live Nat := do
  let bodies := hooks.bodies kind
  if bodies.isEmpty then pure 0
  else
    note (.hooksEmitted kind bodies.length)
    callHooks run kind bodies

end Live

end LiveMarkup
