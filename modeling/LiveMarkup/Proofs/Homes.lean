import LiveMarkup.Proofs.Fruitless
import LiveMarkup.Proofs.Sweeping

/-
This file is about worlds in which each living host has a name and each living state belongs to a living host.
Whatever ends there ends nothing else, so it is known exactly what operations, frames and commands leave.
-/

namespace LiveMarkup

open Live

/-- This is what a host keeps alive with itself. -/
def Host.home (host : Host) : Bool × TargetId := (host.alive, host.state)

namespace World

/-- Each living host has a name, and each living state belongs to a living host. -/
structure Homed (world : World) : Prop where
  hosts : ∀ id, (world.host? id).any Host.alive = true → ∃ entry ∈ world.names.hosts, entry.2 = id
  states : ∀ id, world.isAlive id = true →
    ∃ host record, world.host? host = some record ∧ record.alive = true ∧ record.state = id

namespace Homed

variable {world before after : World}

theorem settled (homed : world.Homed) : world.Settled where
  hosts := homed.hosts
  states id alive := by
    obtain ⟨host, record, found, lives, same⟩ := homed.states id alive
    have listed : record ∈ world.hosts.toList := Array.mem_toList_iff.mpr (Array.mem_of_getElem? found)
    exact Or.inr (Or.inl (List.mem_map.mpr ⟨record, List.mem_filter.mpr ⟨listed, lives⟩, same⟩))

theorem collect_eq (homed : world.Homed) : world.collect = world := collect_eq_self homed.settled

/-- Homes last as long as hosts live, keep their states and keep their names. -/
theorem of_homes (homed : before.Homed)
    (homes : ∀ id, (after.host? id).map Host.home = (before.host? id).map Host.home)
    (states : ∀ id, after.isAlive id = before.isAlive id) (names : after.names.hosts = before.names.hosts) :
    after.Homed where
  hosts id alive := by
    rw [names]
    apply homed.hosts
    have same := congrArg (fun home => home.any Prod.fst) (homes id)
    rw [Option.any_map, Option.any_map] at same
    exact same.symm.trans alive
  states id alive := by
    obtain ⟨host, record, found, lives, state⟩ := homed.states id ((states id).symm.trans alive)
    have same := homes host
    rw [found] at same
    obtain ⟨newer, known, equal⟩ := Option.map_eq_some_iff.mp same
    exact ⟨host, newer, known, (congrArg Prod.fst equal).trans lives, (congrArg Prod.snd equal).trans state⟩

theorem of_same (homed : before.Homed) (hosts : after.hosts = before.hosts) (targets : after.targets = before.targets)
    (names : after.names.hosts = before.names.hosts) : after.Homed := by
  refine homed.of_homes (fun id => ?_) (fun id => ?_) names
  · unfold host?
    rw [hosts]
  · unfold isAlive store?
    rw [targets]

theorem modifyHost (homed : world.Homed) (id : HostId) {change : Host → Host}
    (same : ∀ host, (change host).home = host.home) : (world.modifyHost id change).Homed := by
  refine homed.of_homes (fun other => ?_) (fun _ => rfl) rfl
  rw [host?_modifyHost]
  split
  · rw [Option.map_map]
    exact congrArg (Option.map · _) (funext same)
  · rfl

theorem tell (homed : world.Homed) (id : HostId) (milestone : Milestone) : (world.tell id milestone).Homed :=
  homed.modifyHost id fun _ => rfl

theorem modifyStore (homed : world.Homed) (id : TargetId) {change : Store → Store}
    (same : ∀ store, (change store).alive = store.alive) : (world.modifyStore id change).Homed := by
  refine homed.of_homes (fun _ => rfl) (fun other => ?_) rfl
  unfold isAlive
  rw [store?_modifyStore]
  split
  · rw [Option.any_map]
    exact congrArg (Option.any · _) (funext same)
  · rfl

end Homed

/-- Nothing ends, either, where each living host is held and each living state belongs to a living host. -/
theorem collect_eq_of_held {world : World}
    (hosts : ∀ id, (world.host? id).any Host.alive = true → .host id ∈ world.holds)
    (states : ∀ id, world.isAlive id = true →
      ∃ host record, world.host? host = some record ∧ record.alive = true ∧ record.state = id) :
    world.collect = world := by
  refine IsCollected.collect_eq ⟨List.eq_nil_iff_forall_not_mem.mpr fun id member => ?_,
    List.eq_nil_iff_forall_not_mem.mpr fun id member => ?_⟩
  · have alive := (Bool.and_eq_true _ _).mp (List.mem_filter.mp member).2
    exact not_mem_hostsToEnd (hosts id alive.1) member
  · obtain ⟨alive, free, -⟩ := (mem_statesToEnd world id).mp member
    obtain ⟨host, record, found, lives, same⟩ := states id alive
    exact free (mem_stateReferences.mpr (Or.inr (Or.inr ⟨host, record, found, lives, same⟩)))

end World

namespace Live

variable {A : Type} {action : Live A} {world after : World} {value : A}

/-- Where nothing is left to end, an operation lets go of what it held. -/
theorem operation_of_collected (returns : action world = .ok value after)
    (same : ({ after with holds := world.holds } : World).collect = { after with holds := world.holds }) :
    operation action world = .ok value { after with holds := world.holds } := by
  unfold operation ending
  rw [returns]
  exact congrArg (EStateM.Result.ok value) same

theorem inFrame_of_collected {frame : Option EffectId}
    (returns : action { world with graph := world.graph.push frame } = .ok value after)
    (same : ({ after with graph := after.graph.pop } : World).collect = { after with graph := after.graph.pop }) :
    inFrame frame action world = .ok value { after with graph := after.graph.pop } := by
  show ending action (fun ended => { ended with graph := ended.graph.pop }.collect)
    { world with graph := world.graph.push frame } = _
  unfold ending
  rw [returns]
  exact congrArg (EStateM.Result.ok value) same

/-- A command that is no block is recorded, and the rest of its script follows. -/
theorem performAll_of_collected {run : Runner} {arguments : List Value} {command : Command} {rest : List Command}
    {last given : Value} (performs : perform run arguments command world = .ok given after)
    (same : ({ after with holds := world.holds } : World).collect = { after with holds := world.holds })
    (plain : command.isBlock = false) :
    performAll run arguments last (command :: rest) world = performAll run arguments given rest
      (({ after with holds := world.holds } : World).record (.finished command.name (.ok given))) := by
  have done : recorded command.name command.isBlock (perform run arguments command) world = .ok given
      (({ after with holds := world.holds } : World).record (.finished command.name (.ok given))) := by
    unfold recorded
    rw [operation_of_collected performs same, plain]
    rfl
  rw [performAll]
  exact bind_of_ok done

/-! In a world of homes nothing is left to end. -/

theorem operation_of_homed (returns : action world = .ok value after) (homed : after.Homed) :
    operation action world = .ok value { after with holds := world.holds } :=
  operation_of_collected returns
    (homed.of_same rfl rfl rfl : ({ after with holds := world.holds } : World).Homed).collect_eq

theorem inFrame_of_homed {frame : Option EffectId} (returns : action { world with graph := world.graph.push frame } =
    .ok value after) (homed : after.Homed) :
    inFrame frame action world = .ok value { after with graph := after.graph.pop } :=
  inFrame_of_collected returns
    (homed.of_same rfl rfl rfl : ({ after with graph := after.graph.pop } : World).Homed).collect_eq

theorem performAll_of_homed {run : Runner} {arguments : List Value} {command : Command} {rest : List Command}
    {last given : Value} (performs : perform run arguments command world = .ok given after) (homed : after.Homed)
    (plain : command.isBlock = false) :
    performAll run arguments last (command :: rest) world = performAll run arguments given rest
      (({ after with holds := world.holds } : World).record (.finished command.name (.ok given))) :=
  performAll_of_collected performs
    (homed.of_same rfl rfl rfl : ({ after with holds := world.holds } : World).Homed).collect_eq plain

end Live

end LiveMarkup
