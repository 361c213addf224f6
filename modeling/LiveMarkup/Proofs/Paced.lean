import LiveMarkup.Proofs.Pacing
import LiveMarkup.Proofs.Telling

/-
This file shows what changes of hosts, frames and notifications mean for the account of renders. A
notification lists the effects that it concerns, which pays for the turns that they get.
-/

namespace LiveMarkup

namespace World

variable {world before after : World} {id other : HostId} {effect : EffectId} {task : Task} {record : Host}
  {newer : List Milestone} {owed : Debt}

/-- A host that is new has rendered nothing, and nothing is bound to it. -/
theorem Paces.withHost (furnished : world.Furnished) (component : Component Script) (state : TargetId)
    (container : NodeId) : world.Paces .none (world.withHost component state container) := by
  have later := Lasting.later_withHost component state container world
  have idle := Paces.refl furnished
  have same : ∀ id effect, (world.withHost component state container).RefersAt effect (.content id) →
      world.RefersAt effect (.content id) := by
    rintro id effect ⟨host, found, listed⟩
    rcases host?_of_withHost found with old | ⟨-, rfl⟩
    · exact ⟨host, old, listed⟩
    · cases listed
  refine ⟨idle.toFurnishes.carry furnished.sound later rfl ?_ (fun id effect refers => Or.inl (same id effect refers))
    (fun _ refers => Or.inl refers) furnished.named, fun id => ?_⟩
  · exact Nat.le_trans (Nat.le_succ _) (Nat.le_of_eq (Array.size_push _).symm)
  · refine (idle.tells id).carry rfl (account_withHost world component state container id) rfl ?_
    rintro effect ⟨host, found, listed⟩
    exact ⟨host, host?_withHost_of_some component state container found, listed⟩

/-- The bindings of a host are disposed when the host forgets them. -/
theorem Paces.emptied (furnished : world.Furnished) (found : world.host? id = some record) :
    world.Paces .none (world.emptied id record) := by
  let forgotten := world.modifyHost id fun host => { host with bindings := {} }
  have forgets : world.Later forgotten := later_modifyHost world id _ (fun _ => rfl) (fun _ => rfl)
    (fun _ lives => lives) (fun _ => Or.inr rfl) (fun _ => Or.inl rfl)
  have later : world.Later (forgotten.disposeBindings record.bindings) :=
    forgets.trans (later_disposeBindings forgotten record.bindings)
  have sweeps := sweeps_disposeBindings forgotten record.bindings
  have disposed : world.Paces .none (forgotten.disposeBindings record.bindings) := by
    refine ⟨furnished.furnishes later sweeps.effects fun entry member => ⟨entry, sweeps.names ▸ member, rfl⟩,
      fun other => ⟨[], .nil, .of_carried ?_ (notices_disposeBindings forgotten record.bindings), Or.inr ?_⟩⟩
    · have carried : (world.account other).Carried (forgotten.account other) :=
        carried_modifyHost world id other fun _ => ⟨rfl, rfl, Or.inr rfl, rfl⟩
      exact carried.trans (.of_eq (account_of_hosts (objects_disposeBindings forgotten record.bindings).2 other))
    · refine .disposed furnished found forgets (fun another apart => ?_) other
      exact (host?_modifyHost ..).trans (if_neg (Ne.symm apart))
  exact disposed.steadily (.collect disposed.furnished)

/-- A host that has a render effect may be given effects that came later. -/
theorem Works.installed {host : Host} {bindings : Bindings} {fragment : NodeId} (works : before.Works id newer owed world)
    (sound : before.Sound) (later : before.Later (world.installed id host bindings fragment))
    (housed : ∃ older, before.HasTask older (.render id))
    (fresh : ∀ effect ∈ bindings.effects, before.graph.effects.size ≤ effect) :
    before.Works id newer owed (world.installed id host bindings fragment) := by
  let shown : World := { world.attest (.rendered id bindings.effects (world.forest.holders host.container ++
      world.forest.appendHolders host.container fragment)) with
    forest := (world.forest.clear host.container).append host.container fragment }
  have looked : ∀ other, other ≠ id →
      (world.installed id host bindings fragment).host? other = world.host? other :=
    fun other apart => (host?_modifyHost ..).trans (if_neg (Ne.symm apart))
  have account : ∀ other, other ≠ id →
      (world.installed id host bindings fragment).account other = world.account other :=
    fun other apart => by
      have same : (shown.modifyHost id fun host => { host with bindings, renders := host.renders + 1 }).account other =
          shown.account other := account_modifyHost_of_ne (Ne.symm apart) _
      exact same
  have own : (world.installed id host bindings fragment).host? id =
      (world.host? id).map fun host => { host with bindings, renders := host.renders + 1 } :=
    (host?_modifyHost ..).trans (if_pos rfl)
  refine ⟨works.toFurnishes.carry sound later rfl ?_ ?_ (fun _ refers => Or.inl refers)
    works.furnished.named, works.own.carry ?_ ?_ rfl, fun other apart => (works.others other apart).carry
      rfl (account other apart) rfl ?_⟩
  · exact Nat.le_of_eq (Array.size_modify).symm
  · rintro other effect ⟨newest, found, listed⟩
    by_cases same : other = id
    · subst same
      rw [own] at found
      obtain ⟨record, -, rfl⟩ := Option.map_eq_some_iff.mp found
      obtain ⟨older, has⟩ := housed
      exact Or.inr ⟨older, works.later.hasTask has, Nat.lt_of_lt_of_le has.lt_size (fresh effect listed)⟩
    · exact Or.inl ⟨newest, (looked other same).symm.trans found, listed⟩
  · unfold World.account
    rw [own]
    cases world.host? id <;> rfl
  · unfold World.account
    rw [own]
    cases world.host? id <;> rfl
  · rintro effect ⟨newest, found, listed⟩
    exact ⟨newest, (looked other apart).trans found, listed⟩

/-- A host whose content is removed tells that it was destroyed. -/
theorem Paces.removed (furnished : world.Furnished) (found : world.host? id = some record) :
    world.Paces .none (world.removed id record) := by
  let cleared : World := { world.attest (.destroyed id (world.forest.holders record.container)) with
    forest := world.forest.clear record.container }
  have clears : world.Later cleared :=
    .of_same rfl rfl rfl rfl (Nat.le_of_eq (Forest.size_clear _ _).symm) (List.suffix_cons _ _)
  have first : world.Paces .none cleared :=
    .of_same furnished clears rfl rfl (fun entry member => ⟨entry, member, rfl⟩) (List.suffix_refl _)
  let change : Host → Host := fun host =>
    { host with mounted := false, story := .destroyed host.renders :: host.story }
  have kept : ∀ host : Host, (change host).bindings = host.bindings := fun _ => rfl
  have later : cleared.Later (cleared.modifyHost id change) := later_modifyHost cleared id change
    (fun _ => rfl) (fun _ => rfl) (fun _ lives => lives) (fun _ => Or.inl rfl) (fun _ => Or.inl rfl)
  have works : cleared.Works id [.destroyed record.renders] .none (cleared.modifyHost id change) :=
    .modifyHost first.furnished found later rfl (fun _ => Or.inr ⟨_, List.mem_cons_self⟩) fun _ => by
      simp [Debt.none, Milestone.asks]
  have second : cleared.Paces .none (cleared.modifyHost id change) :=
    works.paces (.single rfl) (Or.inr fun _ refers => Or.inl ((refersAt_content_modifyHost kept).mpr refers))
      (fun _ _ => Int.le_refl 0) fun _ => Int.le_refl 0
  exact first.steadily second

/-- A host may learn which effect renders it. -/
theorem Paces.rendersBy (paces : before.Paces owed world) (sound : before.Sound)
    (new : before.graph.effects.size ≤ effect) (known : effect < world.graph.effects.size) :
    before.Paces owed (world.modifyHost id fun host => { host with renderEffect := some effect }) := by
  have later := paces.later.modifyHost id (fun host => { host with renderEffect := some effect }) (fun _ => rfl)
    (fun _ => rfl) (fun _ lives => lives) (fun _ _ listed => Or.inl listed) fun _ other renders => by
      cases renders
      exact Or.inr ⟨new, known⟩
  have kept : ∀ host : Host, ({ host with renderEffect := some effect } : Host).bindings = host.bindings :=
    fun _ => rfl
  have same : ∀ host : Host, ({ host with renderEffect := some effect } : Host).account = host.account :=
    fun _ => rfl
  refine ⟨paces.toFurnishes.carry sound later rfl (Nat.le_of_eq (Array.size_modify).symm) (fun _ _ refers =>
      Or.inl ((refersAt_content_modifyHost kept).mp refers)) (fun _ refers => Or.inl refers) paces.furnished.named,
    fun other => (paces.tells other).carry rfl (account_modifyHost_of_eq same) rfl fun _ refers =>
      (refersAt_content_modifyHost kept).mpr refers⟩

/-! Frames. -/

theorem hasTask_entered {frame : Option EffectId} :
    (world.entered frame).HasTask effect task ↔ world.HasTask effect task := by
  cases frame with
  | none => exact Iff.rfl
  | some entered =>
      show (∃ found, ((world.graph.push (some entered)).countRun entered).effect? effect = some found ∧ _) ↔ _
      rw [Graph.effect?_countRun]
      show _ ↔ ∃ found, (world.graph.push (some entered)).effect? effect = some found ∧ _
      split
      · rename_i same
        cases (world.graph.push (some entered)).effect? effect <;> simp
      · exact Iff.rfl

theorem Furnished.entered {frame : Option EffectId} (furnished : world.Furnished)
    (allowed : world.graph.Allows (.entered frame)) : (world.entered frame).Furnished where
  reachable := by
    obtain ⟨moves, path⟩ := furnished.reachable
    exact ⟨_, .step _ path allowed⟩
  sound effect place refers :=
    Nat.lt_of_lt_of_le (furnished.sound effect place refers) (Graph.size_moved world.graph (.entered frame))
  hosts effect id has := furnished.hosts effect id (hasTask_entered.mp has)
  unique first second id one two :=
    furnished.unique first second id (hasTask_entered.mp one) (hasTask_entered.mp two)
  unnamed effect refers id has := furnished.unnamed effect refers id (hasTask_entered.mp has)
  named entry member := by
    obtain ⟨effect, has⟩ := furnished.named entry member
    exact ⟨effect, hasTask_entered.mpr has⟩
  bound id effect refers := by
    obtain ⟨older, has, less⟩ := furnished.bound id effect refers
    exact ⟨older, hasTask_entered.mpr has, less⟩

/-- What is done in a frame may be done without it. -/
theorem Paces.leave {frame : Option EffectId} (furnished : world.Furnished)
    (allowed : world.graph.Allows (.entered frame)) (paces : (world.entered frame).Paces owed after) :
    world.Paces owed { after with graph := after.graph.pop } := by
  have later := paces.later.leave allowed
  have last := paces.furnished
  refine ⟨⟨⟨later.reachable furnished.reachable, later.sound furnished.sound, last.hosts, last.unique,
    last.unnamed, last.named, last.bound⟩, later, fun effect id known has => ?_⟩, fun id => ?_⟩
  · exact hasTask_entered.mp (paces.old effect id known has)
  · obtain ⟨newer, regular, spends, drops⟩ := paces.tells id
    exact ⟨newer, regular, ⟨spends.story, fun effect has => spends.listed effect (hasTask_entered.mpr has),
      spends.mounted⟩, drops⟩

/-! Notifications. -/

/-- A notification pays for each effect that it concerns. -/
theorem Paces.notifying (furnished : world.Furnished) (target : TargetId) (name : String) :
    world.Paces (fun effect => -((world.graph.concerned target name).count effect)) (world.notifying target name) := by
  have later : world.Later (world.notifying target name) := by
    unfold World.notifying
    dsimp only
    split
    · exact later_holds world _
    · exact (later_note world _).trans (later_holds _ _)
  have same : (world.notifying target name).hosts = world.hosts ∧
      (world.notifying target name).names = world.names := by
    unfold World.notifying
    dsimp only
    split <;> exact ⟨rfl, rfl⟩
  have counted : ∀ effect, (world.notifying target name).listed effect =
      world.listed effect + (world.graph.concerned target name).count effect := by
    intro effect
    unfold World.notifying
    dsimp only
    split
    · rename_i none
      rw [List.isEmpty_iff.mp none]
      rfl
    · exact List.count_append.trans (Nat.add_comm _ _)
  refine ⟨furnished.furnishes later ?_ fun entry member => ⟨entry, same.2 ▸ member, rfl⟩, fun id =>
    ⟨[], .nil, ⟨?_, fun effect _ => ?_, fun was => Or.inl ?_⟩, Or.inr (.of_hosts same.1)⟩⟩
  · rw [Live.graph_notifying]
  · rw [account_of_hosts same.1]
    rfl
  · have more := counted effect
    simp only [List.count_nil, List.countP_nil]
    omega
  · rw [account_of_hosts same.1]
    exact was

end World

end LiveMarkup
