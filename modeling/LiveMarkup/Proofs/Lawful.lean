import LiveMarkup.Proofs.Basic

/-
This file names the operations that scripts are made of. What all code of a world keeps is reduced to
what these operations keep.
-/

namespace LiveMarkup

/-- A host was found by its name, and is held. -/
structure World.Finds (world : World) (id : HostId) : Prop where
  held : .host id ∈ world.holds
  named : ∃ entry ∈ world.names.hosts, entry.2 = id

open Live in
/-- These are the operations that scripts and bindings are made of, given the way to run code. -/
structure Lawful (conduct : Conduct) (run : Runner) : Prop extends Basic conduct run where
  createsState : ∀ values world, Follows conduct (createState values) world
  presets : ∀ state key value world, Follows conduct (presetValue state key value) world
  writes : ∀ state key value world, Follows conduct (writeValue run state key value) world
  addsMethod : ∀ state name method world, Follows conduct (addMethod state name method) world
  addsTarget : ∀ world : World, conduct.calm world (world.addTarget none).2
  createsEffect : ∀ name body options world,
    Follows conduct (performCreateEffect run name body options) world
  runsEffect : ∀ name world, Follows conduct (performEffect run (.run name)) world
  triggers : ∀ target name world, Follows conduct (trigger run target name) world
  releases : ∀ target world, Follows conduct (releaseTarget target) world
  disposes : ∀ name world, Follows conduct (performEffect run (.dispose name)) world
  disposesActive : ∀ world, Follows conduct (performEffect run .disposeActive) world
  createsNode : ∀ content (world : World),
    conduct.calm world { world with forest := (world.forest.create content).2 }
  parsesTemplate : ∀ source world, Follows conduct (parseTemplate source) world
  setsValue : ∀ node value (world : World),
    conduct.calm world { world with forest := world.forest.setValue node value }
  listens : ∀ node kind handler (world : World),
    conduct.calm world { world with forest := world.forest.listen node kind handler }
  edits : ∀ command world, command.isEdit = true → Follows conduct (performNode run command) world
  binds : ∀ name node state world, Follows conduct (performHost run (.bind name node state)) world
  disposesBindings : ∀ name world,
    Follows conduct (performHost run (.disposeBindings name)) world
  shows : ∀ node text world, Follows conduct (showAt node text) world
  createsHost : ∀ document component world,
    Follows conduct (performCreateHost run document component) world
  renders : ∀ id (world : World), world.Finds id → Follows conduct (renderAsked run id) world
  mounts : ∀ id (world : World), world.Finds id → Follows conduct (mountHost run id) world
  rerenders : ∀ id world, conduct.fits (.task (.render id)) world →
    Follows conduct (rerender run id) world
  destroys : ∀ id world, Follows conduct (destroyHost run id) world
  changesTemplate : ∀ id template (world : World), conduct.calm world
    (world.modifyHost id fun host => { host with component := { host.component with template } })
  hooks : ∀ id kind body (world : World), conduct.calm world
    (world.modifyHost id fun host => { host with hooks := host.hooks ++ [(kind, body)] })

namespace Live

theorem names_of_hold {held : Hold} {world after : World} (holds : hold held world = .ok () after) :
    after.names = world.names := by
  cases holds
  dsimp only
  split <;> rfl

/-- A name that is found is listed. -/
theorem mem_of_named {A : Type} {name : String} {entries : Dictionary A} {found : A} {world after : World}
    (outcome : named name (entries.get? name) world = .ok found after) :
    (∃ entry ∈ entries, entry.2 = found) ∧ after = world := by
  cases entry : entries.get? name with
  | none =>
      rw [entry] at outcome
      cases outcome
  | some known =>
      rw [entry] at outcome
      cases outcome
      exact ⟨⟨_, Assoc.mem_of_get? entry, rfl⟩, rfl⟩

/-- A host that was found by its name is held. -/
theorem finds_of_hostNamed {name : String} {id : HostId} {world after : World}
    (outcome : hostNamed name world = .ok id after) : after.Finds id := by
  unfold hostNamed at outcome
  obtain ⟨_, asked, asks, outcome⟩ := bind_eq_ok.mp outcome
  cases asks
  obtain ⟨found, looked, looks, outcome⟩ := bind_eq_ok.mp outcome
  obtain ⟨_, held, holds, outcome⟩ := bind_eq_ok.mp outcome
  cases outcome
  obtain ⟨listed, rfl⟩ := mem_of_named looks
  exact ⟨mem_holds_of_hold holds, names_of_hold holds ▸ listed⟩

/-- An effect that was found by its name keeps this name. -/
theorem names_of_effectNamed {name : String} {id : EffectId} {world after : World}
    (outcome : effectNamed name world = .ok id after) :
    (∃ entry ∈ world.names.effects, entry.2 = id) ∧ after.names = world.names := by
  unfold effectNamed at outcome
  obtain ⟨_, asked, asks, outcome⟩ := bind_eq_ok.mp outcome
  cases asks
  obtain ⟨found, looked, looks, outcome⟩ := bind_eq_ok.mp outcome
  obtain ⟨_, held, holds, outcome⟩ := bind_eq_ok.mp outcome
  cases outcome
  obtain ⟨listed, rfl⟩ := mem_of_named looks
  exact ⟨listed, names_of_hold holds⟩

end Live

namespace Lawful

open Live

variable {conduct : Conduct} {run : Runner} {world : World}

theorem updateValue (lawful : Lawful conduct run) (state : TargetId) (key : String)
    (change : Option Value → Value) :
    Follows conduct (Live.updateValue run state key change) world :=
  (Plain.peekValue state key).bind fun _ after _ => lawful.writes state key _ after

theorem inputValue (lawful : Lawful conduct run) (target : NodeId) (value : String) :
    Follows conduct (Live.inputValue run target value) world :=
  (Follows.modifies (lawful.setsValue target value world)).bind fun _ _ _ =>
    (lawful.dispatch "input" target).discard

theorem showInterpolation (lawful : Lawful conduct run) (state : TargetId) (node : NodeId)
    (source : String) : Follows conduct (Live.showInterpolation run state node source) world :=
  lawful.whileAlive state fun _ ready =>
    (lawful.interpolate ready source).bind fun text after _ => lawful.shows node text after

theorem showText (lawful : Lawful conduct run) (state : TargetId) (node : NodeId)
    (source : String) : Follows conduct (Live.showText run state node source) world :=
  lawful.whileAlive state fun _ ready =>
    (lawful.evaluateText ready source).bind fun text after _ => lawful.shows node text after

theorem showValue (lawful : Lawful conduct run) (state : TargetId) (node : NodeId)
    (source : String) : Follows conduct (Live.showValue run state node source) world := by
  refine lawful.whileAlive state fun _ ready =>
    (lawful.evaluateText ready source).bind fun text after _ => Follows.asks ?_
  split
  · exact Follows.modifies (lawful.setsValue node text after)
  · exact Follows.pure _

end Lawful

end LiveMarkup
