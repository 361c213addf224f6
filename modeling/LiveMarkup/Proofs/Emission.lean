import LiveMarkup.Proofs.Steadfast

/-
This file follows an emission hook by hook. Which hooks take part is settled when it starts, and each of them
is called once, whatever the others do.
-/

namespace LiveMarkup

namespace Hooks

/-- Hooks that are registered later are called later. -/
theorem bodies_append (hooks more : Hooks) (kind : HookKind) :
    Hooks.bodies (hooks ++ more) kind = hooks.bodies kind ++ more.bodies kind := by
  unfold bodies
  rw [List.filter_append, List.map_append]

end Hooks

/-- This is how the call of a hook ended. -/
inductive HookEnd where
  | succeeded
  | failed (error : EvalError)
  | panicked (payload : Option String)

namespace HookEnd

def isFailure : HookEnd → Bool
  | .succeeded => false
  | _ => true

end HookEnd

namespace World

/-- A hook that failed or panicked is noted. -/
def answered (world : World) (kind : HookKind) : HookEnd → World
  | .succeeded => world
  | .failed error => world.note (.hookFailed kind error)
  | .panicked payload => (world.note (.hookPanicked kind payload)).attest (.recovered payload)

/-- An emission announces itself if there are hooks to call. -/
def announcing (world : World) (kind : HookKind) (bodies : List Script) : World :=
  if bodies.isEmpty then world else world.note (.hooksEmitted kind bodies.length)

/-- Each host keeps its hooks in their order. New hooks come behind them. -/
def Enrolls (before after : World) : Prop :=
  ∀ id host, before.host? id = some host → ∃ newer, after.host? id = some newer ∧ host.hooks <+: newer.hooks

theorem steadfast_enrolls : Steadfast Enrolls where
  trans early late id host found := by
    obtain ⟨newer, known, begins⟩ := early id host found
    obtain ⟨newest, knownLast, beginsLast⟩ := late id newer known
    exact ⟨newest, knownLast, begins.trans beginsLast⟩
  still _ hosts id host found := ⟨host, by unfold host? at found ⊢; rwa [hosts], List.prefix_rfl⟩
  disposes _ _ _ host found := ⟨host, found, List.prefix_rfl⟩
  releases _ _ _ host found := ⟨host, found, List.prefix_rfl⟩
  tracks _ _ _ host found := ⟨host, found, List.prefix_rfl⟩
  creates _ _ _ _ _ host found := ⟨host, found, List.prefix_rfl⟩
  frames _ enrolls := enrolls
  changes world id change keeps other host found := by
    rw [host?_modifyHost, found]
    split
    · exact ⟨change host, rfl, keeps host⟩
    · exact ⟨host, rfl, List.prefix_rfl⟩
  enters _ component state container _ host found :=
    ⟨host, host?_withHost_of_some component state container found, List.prefix_rfl⟩

end World

namespace Live

/-- The end of a call is noted, whatever it was. -/
inductive Called (run : Runner) (kind : HookKind) (body : Script) (world : World) : HookEnd → World → Prop where
  | succeeded {value : Value} {after : World} (returns : run (.hook kind body) world = .ok value after) :
      Called run kind body world .succeeded (after.answered kind .succeeded)
  | failed {error : EvalError} {after : World}
      (fails : run (.hook kind body) world = .error (.failed error) after) :
      Called run kind body world (.failed error) (after.answered kind (.failed error))
  | panicked {payload : Option String} {after : World}
      (panics : run (.hook kind body) world = .error (.panicked payload) after) :
      Called run kind body world (.panicked payload) (after.answered kind (.panicked payload))

/-- Hooks are called one after the other. Each call tells its hook and how it ended. -/
inductive Emission (run : Runner) (kind : HookKind) : World → List (Script × HookEnd) → World → Prop where
  | done (world : World) : Emission run kind world [] world
  | next {world after final : World} {body : Script} {outcome : HookEnd} {rest : List (Script × HookEnd)}
      (call : Called run kind body world outcome after) (others : Emission run kind after rest final) :
      Emission run kind world ((body, outcome) :: rest) final

/-- These calls failed or panicked. -/
def failures (calls : List (Script × HookEnd)) : Nat := calls.countP fun call => call.2.isFailure

/-- All hooks are called, and the failures are counted. Only where a hook of its own is exhausted, the
emission is too, with all hooks before that one called. -/
inductive Emits (run : Runner) (kind : HookKind) (bodies : List Script) (start : World) :
    EStateM.Result Stop World Nat → Prop where
  | complete {calls : List (Script × HookEnd)} {after : World} (all : calls.map Prod.fst = bodies)
      (chain : Emission run kind start calls after) : Emits run kind bodies start (.ok (failures calls) after)
  | exhausted {calls : List (Script × HookEnd)} {body : Script} {rest : List Script} {middle after : World}
      (all : bodies = calls.map Prod.fst ++ body :: rest) (chain : Emission run kind start calls middle)
      (last : run (.hook kind body) middle = .error .exhausted after) :
      Emits run kind bodies start (.error .exhausted after)

variable {run : Runner} {kind : HookKind}

/-- A call ends, and the number of failures tells how, unless it is exhausted. -/
theorem callHook_ends (run : Runner) (kind : HookKind) (body : Script) (world : World) :
    (∃ outcome after, Called run kind body world outcome after ∧
      callHook run kind body world = .ok outcome.isFailure after) ∨
    ∃ after, run (.hook kind body) world = .error .exhausted after ∧
      callHook run kind body world = .error .exhausted after := by
  unfold callHook
  cases outcome : run (.hook kind body) world with
  | ok value after => exact .inl ⟨_, _, .succeeded outcome, rfl⟩
  | error stop after =>
      cases stop with
      | failed error => exact .inl ⟨_, _, .failed outcome, rfl⟩
      | panicked payload => exact .inl ⟨_, _, .panicked outcome, rfl⟩
      | exhausted => exact .inr ⟨after, rfl, rfl⟩

theorem failures_cons (body : Script) (outcome : HookEnd) (calls : List (Script × HookEnd)) :
    failures ((body, outcome) :: calls) = if outcome.isFailure then failures calls + 1 else failures calls := by
  unfold failures
  rw [List.countP_cons]
  cases outcome.isFailure <;> rfl

/-- An emission calls all of its hooks, whatever some of them do. -/
theorem emits_callHooks (run : Runner) (kind : HookKind) (bodies : List Script) (world : World) :
    Emits run kind bodies world (callHooks run kind bodies world) := by
  induction bodies generalizing world with
  | nil => exact .complete rfl (.done world)
  | cons body rest inductionHypothesis =>
      unfold callHooks
      rcases callHook_ends run kind body world with ⟨outcome, middle, call, called⟩ | ⟨after, last, called⟩
      · rw [bind_of_ok called, bind_apply]
        have others := inductionHypothesis middle
        generalize callHooks run kind rest middle = result at others ⊢
        cases others with
        | complete all chain =>
            show Emits run kind (body :: rest) world (.ok (if outcome.isFailure then _ else _) _)
            rw [← failures_cons body outcome]
            exact .complete (congrArg (body :: ·) all) (.next call chain)
        | exhausted all chain last =>
            subst all
            exact .exhausted rfl (.next call chain) last
      · rw [bind_of_error called]
        have all : body :: rest = ([] : List (Script × HookEnd)).map Prod.fst ++ body :: rest := rfl
        exact .exhausted all (.done world) last

theorem emits_emitHooks (run : Runner) (hooks : Hooks) (kind : HookKind) (world : World) :
    Emits run kind (hooks.bodies kind) (world.announcing kind (hooks.bodies kind))
      (emitHooks run hooks kind world) := by
  unfold emitHooks World.announcing
  cases bodies : hooks.bodies kind with
  | nil => exact .complete rfl (.done world)
  | cons body rest => exact emits_callHooks run kind (body :: rest) _

/-- A host tells how many of its hooks failed, if any did. -/
def tellFailures (host : Host) (kind : HookKind) (number : Nat) : Live Unit :=
  if 0 < number then note (.hooksFailed number kind host.component.selector) else pure ()

/-- An emission of a host calls the hooks that the host has when it starts. -/
theorem emitHost_eq (run : Runner) {id : HostId} {host : Host} (kind : HookKind) {world : World}
    (found : world.host? id = some host) :
    emitHost run id kind world =
      (emitHooks run host.hooks kind >>= tellFailures host kind) (world.tell id (.emitted kind)) := by
  have tells : tell id (.emitted kind) world = .ok () (world.tell id (.emitted kind)) := rfl
  unfold emitHost
  rw [get_bind, found]
  exact bind_of_ok tells

/-! Between the calls. -/

variable {world after : World} {calls : List (Script × HookEnd)}

/-- A hook is called with the stack of the emission, and adds hooks at most. -/
theorem Called.restores {depth : Nat} {body : Script} {outcome : HookEnd}
    (call : Called (runTo depth) kind body world outcome after) :
    after.graph.stack = world.graph.stack ∧ world.Enrolls after := by
  have later := World.later_activity depth (.hook kind body) world
  have enrolls := World.steadfast_enrolls.activity depth (.hook kind body) world
  unfold worldAfter at later enrolls
  cases call with
  | succeeded returns =>
      rw [returns] at later enrolls
      exact ⟨later.stack, enrolls⟩
  | failed fails =>
      rw [fails] at later enrolls
      exact ⟨later.stack, enrolls⟩
  | panicked panics =>
      rw [panics] at later enrolls
      exact ⟨later.stack, enrolls⟩

theorem Emission.restores {depth : Nat} (emission : Emission (runTo depth) kind world calls after) :
    after.graph.stack = world.graph.stack ∧ world.Enrolls after := by
  induction emission with
  | done world => exact ⟨rfl, World.steadfast_enrolls.refl world⟩
  | next call _ inductionHypothesis =>
      obtain ⟨stack, enrolls⟩ := call.restores
      exact ⟨inductionHypothesis.1.trans stack, World.steadfast_enrolls.trans enrolls inductionHypothesis.2⟩

/-- Each call of an emission comes after some of the others. -/
theorem Emission.split {body : Script} {outcome : HookEnd} {early late : List (Script × HookEnd)}
    (emission : Emission run kind world (early ++ (body, outcome) :: late) after) :
    ∃ before middle, Emission run kind world early before ∧ Called run kind body before outcome middle ∧
      Emission run kind middle late after := by
  induction early generalizing world with
  | nil =>
      cases emission with
      | next call others => exact ⟨world, _, .done world, call, others⟩
  | cons first rest inductionHypothesis =>
      cases emission with
      | next call others =>
          obtain ⟨before, middle, chain, this, remaining⟩ := inductionHypothesis others
          exact ⟨before, middle, .next call chain, this, remaining⟩

/-- A hook that is registered by the name of a host comes behind the hooks that the host has. -/
theorem registerHook_eq {owner : String} {id : HostId} {host : Host} {kind : HookKind} {body : Script}
    (named : world.names.hosts.get? owner = some id) (found : world.host? id = some host) :
    ∃ after, registerHook owner kind body world = .ok .null after ∧
      after.host? id = some { host with hooks := host.hooks ++ [(kind, body)] } := by
  refine ⟨world.modifyHost id fun host => { host with hooks := host.hooks ++ [(kind, body)] }, ?_, ?_⟩
  · unfold registerHook
    rw [get_bind, named]
    rfl
  · rw [World.host?_modifyHost, if_pos rfl, found]
    rfl

end Live

open Live in
/-- An emission calls the hooks of its kind that are registered when it starts, once each and in their order,
and counts those that fail or panic. Before and after each call the stack is that of the emission, and hosts
have the hooks that they had, perhaps with further ones behind them. A hook that is registered comes behind
the others, so it is called only by emissions that start later. -/
theorem hook_emission_complete (depth : Nat) (kind : HookKind) :
    (∀ (hooks : Hooks) (world : World),
      Emits (runTo depth) kind (hooks.bodies kind) (world.announcing kind (hooks.bodies kind))
        (emitHooks (runTo depth) hooks kind world) ∧
      (worldAfter (emitHooks (runTo depth) hooks kind) world).graph.stack = world.graph.stack ∧
      world.Enrolls (worldAfter (emitHooks (runTo depth) hooks kind) world)) ∧
    (∀ id host (world : World), world.host? id = some host →
      emitHost (runTo depth) id kind world =
        (emitHooks (runTo depth) host.hooks kind >>= tellFailures host kind) (world.tell id (.emitted kind)) ∧
      (worldAfter (emitHost (runTo depth) id kind) world).graph.stack = world.graph.stack ∧
      ∃ newer more, (worldAfter (emitHost (runTo depth) id kind) world).host? id = some newer ∧
        ∀ other, newer.hooks.bodies other = host.hooks.bodies other ++ Hooks.bodies more other) ∧
    (∀ world early body outcome late after,
      Emission (runTo depth) kind world (early ++ (body, outcome) :: late) after → ∃ before middle,
        Emission (runTo depth) kind world early before ∧ Called (runTo depth) kind body before outcome middle ∧
        Emission (runTo depth) kind middle late after ∧
        before.graph.stack = world.graph.stack ∧ middle.graph.stack = world.graph.stack ∧
        world.Enrolls before ∧ before.Enrolls middle) ∧
    (∀ arguments command (world : World),
      world.Enrolls (worldAfter (perform (runTo depth) arguments command) world)) ∧
    ∀ (world : World) owner id host body, world.names.hosts.get? owner = some id → world.host? id = some host →
      ∃ after newer, perform (runTo depth) [] (.onHook owner kind body) world = .ok .null after ∧
        after.host? id = some newer ∧ newer.hooks.bodies kind = host.hooks.bodies kind ++ [body] ∧
        ∀ other, other ≠ kind → newer.hooks.bodies other = host.hooks.bodies other := by
  have lasting := lawful_lasting depth
  have enrolling := World.steadfast_enrolls.lawful depth
  refine ⟨fun hooks world => ⟨emits_emitHooks _ hooks kind world, ?_, ?_⟩, ?_, ?_, ?_, ?_⟩
  · exact (lasting.emitHooks hooks kind).later.stack
  · exact Follows.always_iff.mp (enrolling.emitHooks hooks kind)
  · intro id host world found
    have told : World.steadfast_enrolls.conduct.calm world (world.tell id (.emitted kind)) :=
      World.steadfast_enrolls.alters world id fun _ => rfl
    obtain ⟨newer, known, more, same⟩ := Follows.always_iff.mp (enrolling.emitHost id kind told) id host found
    refine ⟨emitHost_eq _ kind found, ?_, newer, more, known, ?_⟩
    · exact (lasting.emitHost id kind (Lasting.later_tell id _ world)).later.stack
    · intro other
      rw [← same, Hooks.bodies_append]
  · intro world early body outcome late after emission
    obtain ⟨before, middle, chain, call, others⟩ := emission.split
    obtain ⟨stack, enrolls⟩ := chain.restores
    obtain ⟨stackAfter, enrollsAfter⟩ := call.restores
    exact ⟨before, middle, chain, call, others, stack, stackAfter.trans stack, enrolls, enrollsAfter⟩
  · intro arguments command world
    exact Follows.always_iff.mp (enrolling.perform arguments world command)
  · intro world owner id host body named found
    obtain ⟨after, registers, known⟩ := @registerHook_eq world owner id host kind body named found
    refine ⟨after, _, registers, known, ?_, fun other different => ?_⟩
    · exact (Hooks.bodies_append _ _ kind).trans (by simp [Hooks.bodies])
    · exact (Hooks.bodies_append _ _ other).trans (by simp [Hooks.bodies, different.symm])

/-- The first hook fails, the second one panics, and the third one registers another hook. -/
def troubledHooks : Hooks :=
  [(.update, [.fail (.unknownMethod "boom")]), (.mount, []), (.update, [.untracked [.panic (some "stop")]]),
    (.update, [.onHook "app" .update []])]

/-- A host has these hooks, and is known by its name. -/
def troubledHost : Host where
  component := { name := "app", selector := "#app", initial := .null, template := "", methods := []
                 hooks := troubledHooks, rendered := none }
  state := 0
  container := 0
  hooks := troubledHooks

def troubledWorld : World where
  hosts := #[troubledHost]
  names := { hosts := [("app", 0)] }

open Live in
/-- Two of three calls fail, and the hook that the third one registers is not called yet. -/
theorem emission_of_troubledHooks :
    (∃ calls start reached, Emission (runTo 2) .update start calls reached ∧
      calls.map Prod.fst = troubledHooks.bodies .update ∧ failures calls = 2) ∧
    ∃ after newer more, emitHost (runTo 2) 0 .update troubledWorld = .ok () after ∧
      after.graph.stack = [] ∧ after.host? 0 = some newer ∧
      newer.hooks.bodies .update = troubledHooks.bodies .update ++ Hooks.bodies more .update ∧
      newer.hooks.bodies .update = troubledHooks.bodies .update ++ [[]] := by
  obtain ⟨complete, hosts, -⟩ := hook_emission_complete 2 .update
  constructor
  · obtain ⟨emits, -⟩ := complete troubledHooks troubledWorld
    obtain ⟨after, returns⟩ : ∃ after, emitHooks (runTo 2) troubledHooks .update troubledWorld = .ok 2 after :=
      ⟨_, rfl⟩
    generalize emitHooks (runTo 2) troubledHooks .update troubledWorld = result at emits returns
    cases emits with
    | complete all chain =>
        injection returns with number
        exact ⟨_, _, _, chain, all, number⟩
    | exhausted => cases returns
  · obtain ⟨-, stack, newer, more, known, later⟩ := hosts 0 troubledHost troubledWorld rfl
    exact ⟨_, newer, more, rfl, stack, known, later .update, by cases known; rfl⟩

end LiveMarkup
