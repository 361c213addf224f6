import LiveMarkup.Proofs.Gentle

/-
This file reads the content of a host off the deeds of a world, and says which changes leave the content
of a host to itself.
-/

namespace LiveMarkup

namespace Deed

variable {host : HostId}

/-- A host did this. -/
def concerns (host : HostId) : Deed → Bool
  | .parsed other _ => other = host
  | .rendered other _ _ => other = host
  | .destroyed other _ => other = host
  | _ => false

/-- The content of a host has these effects, unless the host has no content. -/
def content? (host : HostId) : List Deed → Option (List EffectId)
  | [] => none
  | .rendered other effects _ :: older => if other = host then some effects else content? host older
  | .destroyed other _ :: older => if other = host then none else content? host older
  | _ :: older => content? host older

/-- This template was the last one that parsed when a host rendered. -/
def template? (host : HostId) : List Deed → Option String
  | [] => none
  | .parsed other template :: older => if other = host then some template else template? host older
  | _ :: older => template? host older

/-- Deeds of others concern neither the content of a host nor its template. -/
theorem content?_append_of_others {newer : List Deed} (others : ∀ deed ∈ newer, deed.concerns host = false)
    (older : List Deed) : content? host (newer ++ older) = content? host older ∧
      template? host (newer ++ older) = template? host older := by
  induction newer with
  | nil => exact ⟨rfl, rfl⟩
  | cons deed rest inductionHypothesis =>
      have kept := inductionHypothesis fun other member => others other (List.mem_cons_of_mem _ member)
      have here := others deed List.mem_cons_self
      cases deed with
      | parsed other template =>
          have apart : other ≠ host := of_decide_eq_false here
          exact ⟨kept.1, (if_neg apart).trans kept.2⟩
      | rendered other effects holders =>
          have apart : other ≠ host := of_decide_eq_false here
          exact ⟨(if_neg apart).trans kept.1, kept.2⟩
      | destroyed other holders =>
          have apart : other ≠ host := of_decide_eq_false here
          exact ⟨(if_neg apart).trans kept.1, kept.2⟩
      | _ => exact kept

/-- As long as a host is not destroyed it keeps some content. -/
theorem content?_append {newer : List Deed} (standing : ∀ holders, .destroyed host holders ∉ newer)
    (older : List Deed) :
    content? host (newer ++ older) = (content? host newer).or (content? host older) := by
  induction newer with
  | nil => rfl
  | cons deed rest inductionHypothesis =>
      have kept := inductionHypothesis fun holders member => standing holders (List.mem_cons_of_mem _ member)
      cases deed with
      | rendered other effects holders =>
          by_cases same : other = host
          · show (if other = host then _ else _) = Option.or (if other = host then _ else _) _
            rw [if_pos same, if_pos same]
            rfl
          · show (if other = host then _ else _) = Option.or (if other = host then _ else _) _
            rw [if_neg same, if_neg same]
            exact kept
      | destroyed other holders =>
          have apart : other ≠ host := fun same => standing holders (same ▸ List.mem_cons_self)
          show (if other = host then _ else _) = Option.or (if other = host then _ else _) _
          rw [if_neg apart, if_neg apart]
          exact kept
      | _ => exact kept

end Deed

namespace World

/-- A living host counts as mounted. -/
def Mounted (host : HostId) (world : World) : Prop :=
  ∃ record, world.host? host = some record ∧ record.alive = true ∧ record.mounted = true

/-- From one world to the other, a host did nothing. Its effects were spared, and its state lives, unless
it ended. -/
structure Steady (host : HostId) (before after : World) : Prop where
  later : before.Later after
  deeds : ∃ newer, after.deeds = newer ++ before.deeds ∧ ∀ deed ∈ newer, deed.concerns host = false
  spares : ∀ id < before.graph.effects.size, after.graph.isDisposed id = true →
    before.graph.isDisposed id = true ∨ ∃ place, before.RefersAt id place ∧
      (place = .content host → place.Lost after)
  mounted : after.Mounted host → before.Mounted host
  houses : before.Houses host after

namespace Steady

variable {host : HostId} {first second third before after : World}

theorem refl (host : HostId) (world : World) : world.Steady host world where
  later := .refl world
  deeds := ⟨[], rfl, fun _ impossible => by cases impossible⟩
  spares _ _ disposed := Or.inl disposed
  mounted mounted := mounted
  houses := .of_targets rfl

theorem trans (early : first.Steady host second) (late : second.Steady host third) :
    first.Steady host third where
  later := early.later.trans late.later
  deeds := by
    obtain ⟨newer, since, others⟩ := early.deeds
    obtain ⟨newest, sinceLast, othersLast⟩ := late.deeds
    refine ⟨newest ++ newer, by rw [sinceLast, since, List.append_assoc], fun deed member => ?_⟩
    rcases List.mem_append.mp member with last | before
    · exact othersLast deed last
    · exact others deed before
  spares id below disposed := by
    have known := Nat.lt_of_lt_of_le below early.later.effects
    rcases late.spares id known disposed with already | ⟨place, refers, lost⟩
    · rcases early.spares id below already with gone | ⟨place, refers, lost⟩
      · exact Or.inl gone
      · refine Or.inr ⟨place, refers, fun own => (lost own).later late.later ?_⟩
        rintro other rfl
        obtain ⟨record, found, -⟩ := refers
        obtain ⟨newer, reached, -⟩ := early.later.hosts other record found
        rw [reached]
        rfl
    · exact Or.inr ⟨place, early.later.inherits id place below refers, lost⟩
  mounted mounted := early.mounted (late.mounted mounted)
  houses := early.houses.trans early.later late.houses late.later

/-- Nothing happened to effects, hosts and deeds, and no state ended. -/
theorem of_same (later : before.Later after) (graph : after.graph = before.graph)
    (hosts : after.hosts = before.hosts) (deeds : after.deeds = before.deeds)
    (houses : before.Houses host after) : before.Steady host after where
  later := later
  deeds := ⟨[], deeds, fun _ impossible => by cases impossible⟩
  spares id _ disposed := by
    rw [graph] at disposed
    exact Or.inl disposed
  mounted mounted := by
    unfold Mounted host? at mounted ⊢
    rwa [hosts] at mounted
  houses := houses

theorem of_sweeps (later : before.Later after) (sweeps : before.Sweeps after)
    (spares : before.Spares after) (houses : before.Houses host after) :
    before.Steady host after where
  later := later
  deeds := ⟨[], sweeps.deeds, fun _ impossible => by cases impossible⟩
  spares id below disposed := by
    rcases spares id below disposed with gone | ⟨place, refers, lost⟩
    · exact Or.inl gone
    · exact Or.inr ⟨place, refers, fun _ => lost⟩
  mounted := by
    rintro ⟨record, found, alive, mounted⟩
    exact ⟨record, sweeps.records host record found alive, alive, mounted⟩
  houses := houses

theorem collect (world : World) : world.Steady host world.collect :=
  .of_sweeps (later_collect world) (sweeps_collect world) (spares_collect world)
    (houses_collect host world)

theorem note (world : World) (notice : Notice) : world.Steady host (world.note notice) :=
  .of_same (later_note world notice) rfl rfl rfl (.of_targets rfl)

theorem attest (world : World) {deed : Deed} (other : deed.concerns host = false) :
    world.Steady host (world.attest deed) where
  later := .attest world deed
  deeds := ⟨[deed], rfl, fun _ member => by cases List.mem_singleton.mp member; exact other⟩
  spares _ _ disposed := Or.inl disposed
  mounted mounted := mounted
  houses := .of_targets rfl

theorem forest (world : World) {forest : Forest Handler} (grows : world.forest.size ≤ forest.size) :
    world.Steady host { world with forest } :=
  .of_same (.of_forest world forest grows) rfl rfl rfl (.of_targets rfl)

/-- Bindings that run are steady. -/
theorem of_gentle {state : TargetId} (gentle : before.Gentle state after) : before.Steady host after where
  later := gentle.later
  deeds := by
    obtain ⟨newer, since, shows⟩ := gentle.deeds
    refine ⟨newer, since, fun deed member => ?_⟩
    have show? := shows deed member
    cases deed <;> first | rfl | cases show?
  spares id below disposed := by
    rcases gentle.spares id below disposed with gone | ⟨place, refers, lost⟩
    · exact Or.inl gone
    · exact Or.inr ⟨place, refers, fun _ => lost⟩
  mounted := by
    rintro ⟨record, found, alive, mounted⟩
    exact ⟨record, gentle.records host record found alive, alive, mounted⟩
  houses := gentle.houses host

/-- A change of another host, or a change that does not mount this one. -/
theorem modifyHost {id : HostId} {change : Host → Host} (later : before.Later (before.modifyHost id change))
    (mounts : id = host → ∀ record, (change record).mounted = true → record.mounted = true)
    (alive : ∀ record, (change record).alive = true → record.alive = true) :
    before.Steady host (before.modifyHost id change) where
  later := later
  deeds := ⟨[], rfl, fun _ impossible => by cases impossible⟩
  spares _ _ disposed := Or.inl disposed
  mounted := by
    rintro ⟨record, found, lives, mounted⟩
    rw [host?_modifyHost] at found
    split at found
    · rename_i same
      obtain ⟨old, known, rfl⟩ := Option.map_eq_some_iff.mp found
      exact ⟨old, known, alive old lives, mounts same old mounted⟩
    · exact ⟨record, found, lives, mounted⟩
  houses := .of_targets rfl

end Steady

end World

/-- This conduct leaves the content of a host to itself. -/
def Conduct.steady (host : HostId) : Conduct := .always (World.Steady host) (.refl host) .trans

namespace Steady

open Live

variable {host : HostId} {run : Runner} {world : World}

theorem attest {deed : Deed} (other : deed.concerns host = false) :
    Follows (Conduct.steady host) (Live.attest deed) world := Follows.modifies (.attest world other)

theorem modifyForest {change : Forest Handler → Forest Handler}
    (grows : world.forest.size ≤ (change world.forest).size) :
    Follows (Conduct.steady host) (Live.modifyForest change) world :=
  Follows.modifies (.forest world grows)

theorem hold (held : Hold) : Follows (Conduct.steady host) (Live.hold held) world := by
  apply Follows.modifies
  split
  · exact .refl host world
  · exact .of_same (World.later_holds world _) rfl rfl rfl (.of_targets rfl)

theorem track (target : TargetId) (key : Key) :
    Follows (Conduct.steady host) (Live.track target key) world := by
  refine Follows.modifies ⟨?_, ⟨[], rfl, fun _ impossible => by cases impossible⟩, ?_,
    fun mounted => mounted, .of_targets rfl⟩
  · exact (show world.Later _ from Lasting.track target key)
  · intro id _ disposed
    have same := Graph.isDisposed_track world.graph ⟨target, key⟩ id
    exact Or.inl (same.symm.trans disposed)

/-- A store may change as long as its state lives. -/
theorem modifyStore {state : TargetId} {change : Store → Store}
    (later : world.Later (world.modifyStore state change))
    (alive : ∀ store, (change store).alive = store.alive) :
    world.Steady host (world.modifyStore state change) :=
  .of_same later rfl rfl rfl fun _ _ _ _ _ lives => (World.isAlive_modifyStore alive _).trans lives

theorem putValue (state : TargetId) (key : String) (value : Value) :
    Follows (Conduct.steady host) (Live.putValue state key value) world :=
  Follows.modifies (modifyStore (show world.Later _ from Lasting.putValue state key value) fun _ => rfl)

theorem presetValue (state : TargetId) (key : String) (value : Value) (world : World) :
    Follows (Conduct.steady host) (Live.presetValue state key value) world := by
  unfold Live.presetValue
  split
  · exact Follows.modifies (.note world _)
  · exact (attest rfl).bind fun _ _ _ => putValue state key value

theorem addMethod (state : TargetId) (name : String) (method : Method) (world : World) :
    Follows (Conduct.steady host) (Live.addMethod state name method) world :=
  Follows.modifies (modifyStore (World.later_modifyStore world state _ (fun _ lives => lives)
    fun store other known => Lasting.contains_put store.methods name other method known) fun _ => rfl)

theorem releaseTarget (target : TargetId) (world : World) :
    Follows (Conduct.steady host) (Live.releaseTarget target) world := by
  have released : world.Steady host
      { world.attest (.released target) with graph := world.graph.release target } := by
    refine ⟨Lasting.releaseTarget target world, ⟨[.released target], rfl, ?_⟩, ?_,
      fun mounted => mounted, .of_targets rfl⟩
    · intro deed member
      cases List.mem_singleton.mp member
      rfl
    · intro id _ disposed
      exact Or.inl ((Graph.isDisposed_release world.graph target id).symm.trans disposed)
  exact released

theorem edits : (Conduct.steady host).Edits := fun world _ _ grows _ _ =>
  (World.Steady.attest world rfl).trans (.forest _ grows)

theorem showAt (node : NodeId) (text : String) (world : World) :
    Follows (Conduct.steady host) (Live.showAt node text) world :=
  Follows.asks ((attest rfl).bind fun _ after _ =>
    modifyForest (Forest.size_setTextContent after.forest node text))

/-- Another host drops effects that its own content refers to. -/
theorem dropBindings {id : HostId} (other : id ≠ host) (world : World) :
    Follows (Conduct.steady host) (Live.dropBindings id) world := by
  refine Follows.asks ?_
  split
  · exact Follows.pure _
  · rename_i record found
    have emptied : world.Later (world.modifyHost id fun record => { record with bindings := {} }) :=
      World.later_modifyHost world id _ (fun _ => rfl) (fun _ => rfl) (fun _ lives => lives)
        (fun _ => Or.inr rfl) (fun _ => Or.inl rfl)
    have first : world.Steady host (world.modifyHost id fun record => { record with bindings := {} }) :=
      .modifyHost emptied (fun same => absurd same other) fun _ lives => lives
    have second : world.Steady host
        ((world.modifyHost id fun record => { record with bindings := {} }).disposeBindings
          record.bindings) := by
      have later := World.later_disposeBindings
        (world.modifyHost id fun record => { record with bindings := {} }) record.bindings
      have sweeps := World.sweeps_disposeBindings
        (world.modifyHost id fun record => { record with bindings := {} }) record.bindings
      refine ⟨emptied.trans later, ⟨[], sweeps.deeds, fun _ impossible => by cases impossible⟩, ?_, ?_,
        .of_targets (World.objects_disposeBindings _ record.bindings).1⟩
      · intro effect _ disposed
        rw [World.graph_disposeBindings] at disposed
        by_cases bound : effect ∈ record.bindings.effects
        · refine Or.inr ⟨.content id, ⟨record, found, bound⟩, fun own => ?_⟩
          injection own with same
          exact absurd same other
        · rw [World.isDisposed_foldl_disposeEffect _ _ bound] at disposed
          exact Or.inl disposed
      · rintro ⟨found, reached, lives, mounted⟩
        exact first.mounted ⟨found, sweeps.records host found reached lives, lives, mounted⟩
    exact second.trans (.collect _)

/-- Another host is destroyed. -/
theorem removeContent {id : HostId} (other : id ≠ host) (record : Host) (world : World) :
    Follows (Conduct.steady host) (Live.removeContent id record) world :=
  Follows.asks ((attest (show (Deed.destroyed id _).concerns host = false from
      decide_eq_false other)).bind fun _ after _ =>
    (modifyForest (Nat.le_of_eq (Forest.size_clear after.forest record.container).symm)).bind
      fun _ cleared _ => Follows.modifies (.modifyHost (World.later_modifyHost cleared id _ (fun _ => rfl)
        (fun _ => rfl) (fun _ lives => lives) (fun _ => Or.inl rfl) (fun _ => Or.inl rfl))
        (fun same => absurd same other) fun _ lives => lives))

end Steady

end LiveMarkup
