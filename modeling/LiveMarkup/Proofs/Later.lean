import LiveMarkup.Proofs.Primitive
import LiveMarkup.Proofs.Playing
import LiveMarkup.Proofs.Trace

/-
This file says what no code of a world can undo. The graph moves on, deeds stay done, objects keep
their identity, and what has gone stays gone.
-/

namespace LiveMarkup

namespace World

/-- These places of a world refer to effects. -/
inductive Place where
  | names
  | bindings
  | content (host : HostId)
  | renderer (host : HostId)
deriving DecidableEq, Repr

def RefersAt (world : World) (id : EffectId) : Place → Prop
  | .names => ∃ entry ∈ world.names.effects, entry.2 = id
  | .bindings => ∃ entry ∈ world.names.bindings, id ∈ entry.2.effects
  | .content host => ∃ found, world.host? host = some found ∧ id ∈ found.bindings.effects
  | .renderer host => ∃ found, world.host? host = some found ∧ found.renderEffect = some id

/-- A world is sound if it refers to effects that exist. -/
def Sound (world : World) : Prop :=
  ∀ id place, world.RefersAt id place → id < world.graph.effects.size

/-- A target is freed by hand, or with the end of its state. -/
def Frees (before after : World) (target : TargetId) : Prop :=
  (∃ newer, after.deeds = newer ++ before.deeds ∧ Deed.released target ∈ newer) ∨
    ∃ store, after.store? target = some store ∧ store.alive = false

/-- One world is later than another if the code of worlds may lead from one to the other. -/
structure Later (before after : World) : Prop where
  moves : ∃ moves, Graph.Path before.graph moves after.graph ∧
    ∀ target, Graph.Move.released target ∈ moves → before.Frees after target
  stack : after.graph.stack = before.graph.stack
  effects : before.graph.effects.size ≤ after.graph.effects.size
  deeds : before.deeds <:+ after.deeds
  nodes : before.forest.size ≤ after.forest.size
  stores : ∀ id store, before.store? id = some store → ∃ newer, after.store? id = some newer ∧
    (newer.alive = true → store.alive = true) ∧
    ∀ name, store.methods.contains name = true → newer.methods.contains name = true
  hosts : ∀ id host, before.host? id = some host → ∃ newer, after.host? id = some newer ∧
    newer.container = host.container ∧ newer.state = host.state ∧
    (newer.alive = true → host.alive = true)
  inherits : ∀ id place, id < before.graph.effects.size → after.RefersAt id place →
    before.RefersAt id place
  sound : before.Sound → after.Sound

theorem Frees.later {first second third : World} {target : TargetId}
    (frees : first.Frees second target) (later : second.Later third) :
    first.Frees third target := by
  rcases frees with ⟨newer, since, done⟩ | ⟨store, found, gone⟩
  · obtain ⟨newest, appended⟩ := later.deeds
    refine Or.inl ⟨newest ++ newer, ?_, List.mem_append_right _ done⟩
    rw [← appended, since, List.append_assoc]
  · obtain ⟨newest, known, alive, -⟩ := later.stores target store found
    refine Or.inr ⟨newest, known, ?_⟩
    cases lives : newest.alive with
    | false => rfl
    | true =>
        rw [alive lives] at gone
        cases gone

theorem Frees.earlier {first second third : World} {target : TargetId}
    (deeds : first.deeds <:+ second.deeds) (frees : second.Frees third target) :
    first.Frees third target := by
  rcases frees with ⟨newest, since, done⟩ | gone
  · obtain ⟨newer, appended⟩ := deeds
    refine Or.inl ⟨newest ++ newer, ?_, List.mem_append_left _ done⟩
    rw [since, ← appended, List.append_assoc]
  · exact Or.inr gone

namespace Later

theorem refl (world : World) : world.Later world where
  moves := ⟨[], .here, fun _ impossible => by cases impossible⟩
  stack := rfl
  effects := Nat.le_refl _
  deeds := List.suffix_refl _
  nodes := Nat.le_refl _
  stores _ store found := ⟨store, found, fun lives => lives, fun _ known => known⟩
  hosts id host found := ⟨host, found, rfl, rfl, fun lives => lives⟩
  inherits id place _ refers := refers
  sound := fun sound => sound

theorem trans {first second third : World} (before : first.Later second)
    (after : second.Later third) : first.Later third where
  moves := by
    obtain ⟨early, earlyPath, earlyFrees⟩ := before.moves
    obtain ⟨late, latePath, lateFrees⟩ := after.moves
    refine ⟨late ++ early, earlyPath.append latePath, fun target released => ?_⟩
    rcases List.mem_append.mp released with recent | old
    · exact (lateFrees target recent).earlier before.deeds
    · exact (earlyFrees target old).later after
  stack := after.stack.trans before.stack
  effects := Nat.le_trans before.effects after.effects
  deeds := before.deeds.trans after.deeds
  nodes := Nat.le_trans before.nodes after.nodes
  stores id store found := by
    obtain ⟨newer, known, alive, methods⟩ := before.stores id store found
    obtain ⟨newest, knownLast, aliveLast, methodsLast⟩ := after.stores id newer known
    exact ⟨newest, knownLast, fun lives => alive (aliveLast lives),
      fun name listed => methodsLast name (methods name listed)⟩
  hosts id host found := by
    obtain ⟨newer, known, container, state, alive⟩ := before.hosts id host found
    obtain ⟨newest, knownLast, containerLast, stateLast, aliveLast⟩ := after.hosts id newer known
    exact ⟨newest, knownLast, containerLast.trans container, stateLast.trans state,
      fun lives => alive (aliveLast lives)⟩
  inherits id place old refers :=
    before.inherits id place old
      (after.inherits id place (Nat.lt_of_lt_of_le old before.effects) refers)
  sound sound := after.sound (before.sound sound)

/-- Targets and the places that refer to effects may stay the same while the graph moves on. -/
theorem of_graph {before after : World} {moves : List (Graph.Move Task)}
    (path : Graph.Path before.graph moves after.graph)
    (frees : ∀ target, Graph.Move.released target ∈ moves → before.Frees after target)
    (stack : after.graph.stack = before.graph.stack)
    (targets : after.targets = before.targets) (hosts : after.hosts = before.hosts)
    (names : after.names = before.names) (nodes : before.forest.size ≤ after.forest.size)
    (deeds : before.deeds <:+ after.deeds) : before.Later after where
  moves := ⟨moves, path, frees⟩
  stack := stack
  effects := path.effects_le
  deeds := deeds
  nodes := nodes
  stores id store found := by
    refine ⟨store, ?_, fun lives => lives, fun _ known => known⟩
    unfold store? at found ⊢
    rw [targets]
    exact found
  hosts id host found := by
    refine ⟨host, ?_, rfl, rfl, fun lives => lives⟩
    unfold host? at found ⊢
    rw [hosts]
    exact found
  inherits id place _ refers := by
    unfold RefersAt host? at refers ⊢
    rw [hosts, names] at refers
    exact refers
  sound sound id place refers := by
    refine Nat.lt_of_lt_of_le (sound id place ?_) path.effects_le
    unfold RefersAt host? at refers ⊢
    rw [hosts, names] at refers
    exact refers

/-- A single move that neither enters, leaves nor releases. -/
theorem of_move (world : World) (move : Graph.Move Task) (allowed : world.graph.Allows move)
    (stack : (world.graph.moved move).stack = world.graph.stack)
    (keeps : ∀ target, move ≠ .released target) :
    world.Later { world with graph := world.graph.moved move } :=
  of_graph (.single world.graph move allowed)
    (fun target member => absurd (List.mem_singleton.mp member).symm (keeps target)) stack
    rfl rfl rfl (Nat.le_refl _) (List.suffix_refl _)

/-- Records, deeds and changes of nodes leave effects, targets, hosts and names alone. -/
theorem of_same {before after : World} (graph : after.graph = before.graph)
    (targets : after.targets = before.targets) (hosts : after.hosts = before.hosts)
    (names : after.names = before.names) (nodes : before.forest.size ≤ after.forest.size)
    (deeds : before.deeds <:+ after.deeds) : before.Later after := by
  have path : Graph.Path before.graph [] after.graph := by
    rw [graph]
    exact .here
  exact of_graph path (fun _ impossible => by cases impossible) (by rw [graph]) targets hosts names
    nodes deeds

/-- A record, a hold or a known source changes nothing that lasts. -/
theorem of_forest (world : World) (forest : Forest Handler)
    (grows : world.forest.size ≤ forest.size) : world.Later { world with forest } :=
  of_same rfl rfl rfl rfl grows (List.suffix_refl _)

theorem attest (world : World) (deed : Deed) : world.Later (world.attest deed) :=
  of_same rfl rfl rfl rfl (Nat.le_refl _) (List.suffix_cons _ _)

/-- Names and hosts may refer to effects that have been made since an earlier world. -/
theorem refer {origin world after : World} (later : origin.Later world)
    (graph : after.graph = world.graph) (targets : after.targets = world.targets)
    (nodes : after.forest = world.forest) (deeds : after.deeds = world.deeds)
    (hosts : ∀ id host, world.host? id = some host → ∃ newer, after.host? id = some newer ∧
      newer.container = host.container ∧ newer.state = host.state ∧
      (newer.alive = true → host.alive = true))
    (refers : ∀ id place, after.RefersAt id place → world.RefersAt id place ∨
      (origin.graph.effects.size ≤ id ∧ id < world.graph.effects.size)) : origin.Later after where
  moves := by
    obtain ⟨moves, path, frees⟩ := later.moves
    refine ⟨moves, graph ▸ path, fun target released => ?_⟩
    rcases frees target released with done | gone
    · exact Or.inl (deeds ▸ done)
    · refine Or.inr ?_
      unfold store? at gone ⊢
      rw [targets]
      exact gone
  stack := by rw [graph, later.stack]
  effects := by rw [graph]; exact later.effects
  deeds := deeds ▸ later.deeds
  nodes := nodes ▸ later.nodes
  stores id store found := by
    obtain ⟨newer, known, facts⟩ := later.stores id store found
    refine ⟨newer, ?_, facts⟩
    unfold store? at known ⊢
    rw [targets]
    exact known
  hosts id host found := by
    obtain ⟨newer, known, container, state, alive⟩ := later.hosts id host found
    obtain ⟨newest, knownLast, containerLast, stateLast, aliveLast⟩ := hosts id newer known
    exact ⟨newest, knownLast, containerLast.trans container, stateLast.trans state,
      fun lives => alive (aliveLast lives)⟩
  inherits id place old reached := by
    rcases refers id place reached with known | ⟨new, -⟩
    · exact later.inherits id place old known
    · exact absurd old (Nat.not_lt.mpr new)
  sound sound id place reached := by
    rw [graph]
    rcases refers id place reached with known | ⟨-, below⟩
    · exact later.sound sound id place known
    · exact below

/-- A store may change its values, gain methods, or end. -/
theorem of_stores {before after : World} (graph : after.graph = before.graph)
    (hosts : after.hosts = before.hosts) (names : after.names = before.names)
    (nodes : after.forest = before.forest) (deeds : after.deeds = before.deeds)
    (stores : ∀ id store, before.store? id = some store → ∃ newer, after.store? id = some newer ∧
      (newer.alive = true → store.alive = true) ∧
      ∀ name, store.methods.contains name = true → newer.methods.contains name = true) :
    before.Later after where
  moves := ⟨[], graph ▸ .here, fun _ impossible => by cases impossible⟩
  stack := by rw [graph]
  effects := by simp [graph]
  deeds := by simp [deeds]
  nodes := by simp [nodes]
  stores := stores
  hosts id host found := by
    refine ⟨host, ?_, rfl, rfl, fun lives => lives⟩
    unfold host? at found ⊢
    rw [hosts]
    exact found
  inherits id place _ refers := by
    unfold RefersAt host? at refers ⊢
    rw [hosts, names] at refers
    exact refers
  sound sound id place refers := by
    rw [graph]
    refine sound id place ?_
    unfold RefersAt host? at refers ⊢
    rw [hosts, names] at refers
    exact refers

end Later

end World

end LiveMarkup
