import LiveMarkup.Proofs.Asking
import LiveMarkup.Proofs.Harmless

/-
This file shows that a render comes to nothing if the template does not parse: the host tells of it, and there
are further nodes that hang nowhere.
-/

namespace LiveMarkup

namespace Markup

theorem parse_eq_error {source : String} {error : TemplateError} :
    parse source = .error error ↔ (read source).error = some error := by
  cases found : (read source).error with
  | none => simp [parse, found]
  | some other => simp [parse, found]

end Markup

namespace Forest

variable {other : Nat}

/-! What is planted leaves all nodes alone but the one that it hangs from. -/

theorem node?_grown (forest : Forest Handler) {parent : Nat} (known : parent < forest.size)
    (below : other < forest.size) (aside : parent ≠ other) (content : Content Handler) :
    ((forest.create content).2.attach parent (forest.create content).1).node? other = forest.node? other := by
  rw [node?_attach_created known content below, if_neg aside]

mutual

theorem node?_plant (forest : Forest Handler) {parent : Nat} (known : parent < forest.size)
    (below : other < forest.size) (aside : parent ≠ other) :
    ∀ tree : Markup, (forest.plant parent tree).node? other = forest.node? other
  | .text content => node?_grown forest known below aside _
  | .comment content => node?_grown forest known below aside _
  | .element tag attributes children => by
      have child : (forest.create (.element { tag, attributes })).1 <
          ((forest.create (.element { tag, attributes })).2.attach parent
            (forest.create (.element { tag, attributes })).1).size := by
        rw [size_attach, size_create]
        exact Nat.lt_succ_self _
      have inside := node?_plantAll _ child (Nat.lt_trans below child) (Nat.ne_of_gt below) children
      exact inside.trans (node?_grown forest known below aside _)

theorem node?_plantAll (forest : Forest Handler) {parent : Nat} (known : parent < forest.size)
    (below : other < forest.size) (aside : parent ≠ other) :
    ∀ trees : List Markup, (forest.plantAll parent trees).node? other = forest.node? other
  | [] => rfl
  | first :: rest => by
      have grown := size_plant forest parent first
      have later := node?_plantAll (forest.plant parent first) (Nat.lt_of_lt_of_le known grown)
        (Nat.lt_of_lt_of_le below grown) aside rest
      exact later.trans (node?_plant forest known below aside first)

end

/-- A new fragment leaves all nodes alone that were there. -/
theorem node?_plantFragment (forest : Forest Handler) (trees : List Markup) (below : other < forest.size) :
    (forest.plantFragment trees).2.node? other = forest.node? other := by
  have size : (forest.create (.fragment : Content Handler)).2.size = forest.size + 1 := size_create _ _
  have root : (forest.create (.fragment : Content Handler)).1 < forest.size + 1 := Nat.lt_succ_self _
  have planted := node?_plantAll (forest.create .fragment).2 (size ▸ root) (size ▸ Nat.lt_succ_of_lt below)
    (Nat.ne_of_gt below) trees
  have inside : other < forest.nodes.size := below
  refine planted.trans ?_
  simp only [create, node?, Array.getElem?_push_lt inside, Array.getElem?_eq_getElem inside]

end Forest

/-- One effect has run once more, and may depend on one thing more. -/
structure Graph.Reran (effect : EffectId) (dependency : Dependency) (before after : Graph Task) : Prop where
  stack : after.stack = before.stack
  others : ∀ other, other ≠ effect → after.effect? other = before.effect? other
  lasting : ∀ other, after.isDisposed other = before.isDisposed other
  listed : ∀ other id, id ∈ after.subscribersOf other ↔
    id ∈ before.subscribersOf other ∨ id = effect ∧ other = dependency

namespace World

/-- A template leaves its nodes in a new fragment. -/
def planting (world : World) (source : String) : World :=
  { world with forest := (world.forest.plantFragment (Markup.read source).trees).2 }

/-- A host has told these milestones, and there may be further nodes. The objects and records are what they were. -/
structure Fruitless (before : World) (id : HostId) (told : List Milestone) (after : World) : Prop where
  host : after.host? id = (before.host? id).map fun host => { host with story := told ++ host.story }
  others : ∀ other, other ≠ id → after.host? other = before.host? other
  nodes : ∀ node < before.forest.size, after.forest.node? node = before.forest.node? node
  size : before.forest.size ≤ after.forest.size
  targets : after.targets = before.targets
  names : after.names = before.names
  holds : after.holds = before.holds
  parses : after.parses = before.parses
  met : after.met = before.met
  happenings : after.happenings = before.happenings
  deeds : after.deeds = before.deeds

namespace Fruitless

variable {before after : World} {id : HostId} {told : List Milestone}

theorem refl (world : World) (id : HostId) : world.Fruitless id [] world where
  host := by cases world.host? id <;> rfl
  others _ _ := rfl
  nodes _ _ := rfl
  size := Nat.le_refl _
  targets := rfl
  names := rfl
  holds := rfl
  parses := rfl
  met := rfl
  happenings := rfl
  deeds := rfl

theorem trans {middle : World} {later : List Milestone} (first : before.Fruitless id told middle)
    (second : middle.Fruitless id later after) : before.Fruitless id (later ++ told) after where
  host := by
    rw [second.host, first.host, Option.map_map]
    exact congrArg (Option.map · _) (funext fun host => by simp)
  others other different := (second.others other different).trans (first.others other different)
  nodes node below := (second.nodes node (Nat.lt_of_lt_of_le below first.size)).trans (first.nodes node below)
  size := Nat.le_trans first.size second.size
  targets := second.targets.trans first.targets
  names := second.names.trans first.names
  holds := second.holds.trans first.holds
  parses := second.parses.trans first.parses
  met := second.met.trans first.met
  happenings := second.happenings.trans first.happenings
  deeds := second.deeds.trans first.deeds

/-- An operation lets go of what it held, and a frame that was put on the stack is taken off. -/
theorem around {holds last : List Hold} {graph other : Graph Task}
    (fruitless : ({ before with graph, holds } : World).Fruitless id told after) (same : last = before.holds) :
    before.Fruitless id told { after with graph := other, holds := last } :=
  ⟨fruitless.host, fruitless.others, fruitless.nodes, fruitless.size, fruitless.targets, fruitless.names, same,
    fruitless.parses, fruitless.met, fruitless.happenings, fruitless.deeds⟩

theorem tell (fruitless : before.Fruitless id told after) (milestone : Milestone) :
    before.Fruitless id (milestone :: told) (after.tell id milestone) where
  host := by
    unfold World.tell
    rw [host?_modifyHost, if_pos rfl, fruitless.host, Option.map_map]
    rfl
  others other different := by
    unfold World.tell
    rw [host?_modifyHost, if_neg (Ne.symm different), fruitless.others other different]
  nodes := fruitless.nodes
  size := fruitless.size
  targets := fruitless.targets
  names := fruitless.names
  holds := fruitless.holds
  parses := fruitless.parses
  met := fruitless.met
  happenings := fruitless.happenings
  deeds := fruitless.deeds

theorem planting (fruitless : before.Fruitless id told after) (source : String) :
    before.Fruitless id told (after.planting source) where
  host := fruitless.host
  others := fruitless.others
  nodes node below := (after.forest.node?_plantFragment _ (Nat.lt_of_lt_of_le below fruitless.size)).trans
    (fruitless.nodes node below)
  size := Nat.le_trans fruitless.size (Forest.size_plantFragment after.forest _)
  targets := fruitless.targets
  names := fruitless.names
  holds := fruitless.holds
  parses := fruitless.parses
  met := fruitless.met
  happenings := fruitless.happenings
  deeds := fruitless.deeds

end Fruitless

theorem IsCollected.collect_eq {world : World} (collected : world.IsCollected) : world.collect = world := by
  unfold collect collectRounds
  rw [collected.1, collected.2]

theorem isAlive_of_targets {before after : World} (targets : after.targets = before.targets) (id : TargetId) :
    after.isAlive id = before.isAlive id := by
  unfold isAlive store?
  rw [targets]

/-- A host refers to its state while it lives. -/
theorem mem_stateReferences {world : World} {state : TargetId} :
    state ∈ world.stateReferences ↔ state ∈ world.names.handles.map Prod.snd ∨
      state ∈ world.holds.filterMap Hold.state? ∨
      ∃ id host, world.host? id = some host ∧ host.alive = true ∧ host.state = state := by
  have hosted : state ∈ (world.hosts.toList.filter Host.alive).map Host.state ↔
      ∃ id host, world.host? id = some host ∧ host.alive = true ∧ host.state = state := by
    constructor
    · intro member
      obtain ⟨host, kept, same⟩ := List.mem_map.mp member
      obtain ⟨listed, alive⟩ := List.mem_filter.mp kept
      obtain ⟨id, found⟩ := Array.mem_iff_getElem?.mp (Array.mem_toList_iff.mp listed)
      exact ⟨id, host, found, alive, same⟩
    · rintro ⟨id, host, found, alive, same⟩
      have listed := Array.mem_toList_iff.mpr (Array.mem_of_getElem? found)
      exact List.mem_map.mpr ⟨host, List.mem_filter.mpr ⟨listed, alive⟩, same⟩
  rw [stateReferences, List.mem_append, List.mem_append, hosted, or_assoc]

/-- Nothing is left for a collection afterwards if all that lives has lived before, and all references are kept. -/
theorem IsCollected.of_refers {before after : World} (collected : before.IsCollected)
    (hosts : ∀ id, (after.host? id).any Host.alive = true → (before.host? id).any Host.alive = true)
    (held : ∀ id, before.holdsHost id = true → after.holdsHost id = true)
    (states : ∀ state, after.isAlive state = true → before.isAlive state = true)
    (refers : ∀ state, before.Refers state → after.Refers state) : after.IsCollected := by
  constructor
  · refine List.filter_eq_nil_iff.mpr fun id _ both => ?_
    rw [Bool.and_eq_true, Bool.not_eq_true'] at both
    obtain ⟨host, found, -⟩ := (Option.any_eq_true _ _).mp (hosts id both.1)
    refine List.filter_eq_nil_iff.mp collected.1 id (List.mem_range.mpr (Array.getElem?_eq_some_iff.mp found).1) ?_
    rw [Bool.and_eq_true, Bool.not_eq_true']
    exact ⟨hosts id both.1, Bool.eq_false_iff.mpr fun holds => Bool.eq_false_iff.mp both.2 (held id holds)⟩
  · refine List.eq_nil_iff_forall_not_mem.mpr fun state member => ?_
    obtain ⟨alive, free⟩ := (mem_statesToEnd_iff after state).mp member
    exact free (refers state (collected.refers (states state alive)))

theorem Fruitless.isCollected {before after : World} {id : HostId} {told : List Milestone}
    (fruitless : before.Fruitless id told after) (collected : before.IsCollected)
    (references : ∀ effect ∈ before.effectReferences, effect ∈ after.effectReferences)
    (captures : ∀ effect, after.graph.capturesOf effect = before.graph.capturesOf effect) : after.IsCollected := by
  -- A host that tells something lives as before and keeps its state.
  have lives : ∀ {other : HostId} {alive : Bool} {state : TargetId},
      (∃ host, after.host? other = some host ∧ host.alive = alive ∧ host.state = state) ↔
        ∃ host, before.host? other = some host ∧ host.alive = alive ∧ host.state = state := by
    intro other alive state
    by_cases same : other = id
    · rw [same, fruitless.host]
      cases before.host? id <;> simp
    · rw [fruitless.others other same]
  refine collected.of_refers (fun other living => ?_) (fun other holds => ?_) (fun state alive => ?_) fun state refers =>
    refers.imp (fun referred => ?_) ?_
  · obtain ⟨host, found, alive⟩ := (Option.any_eq_true _ _).mp living
    obtain ⟨old, known, lived, -⟩ := lives.mp ⟨host, found, alive, rfl⟩
    exact (Option.any_eq_true _ _).mpr ⟨old, known, lived⟩
  · unfold holdsHost at holds ⊢
    rwa [fruitless.names, fruitless.holds]
  · rwa [isAlive_of_targets fruitless.targets] at alive
  · rw [mem_stateReferences] at referred ⊢
    rw [fruitless.names, fruitless.holds]
    refine referred.imp_right (Or.imp_right ?_)
    rintro ⟨other, hosted⟩
    exact ⟨other, lives.mpr hosted⟩
  · rintro ⟨effect, referred, captured⟩
    exact ⟨effect, references effect referred, captures effect ▸ captured⟩

/-- It does no harm if more is held. -/
theorem IsCollected.holding {world : World} (collected : world.IsCollected) {holds : List Hold}
    (more : ∀ held ∈ world.holds, held ∈ holds) : ({ world with holds } : World).IsCollected := by
  have kept : ∀ {A : Type} (part : Hold → Option A) {item : A}, item ∈ world.holds.filterMap part →
      item ∈ holds.filterMap part := fun part item member => by
    obtain ⟨entry, listed, same⟩ := List.mem_filterMap.mp member
    exact List.mem_filterMap.mpr ⟨entry, more entry listed, same⟩
  refine collected.of_refers (fun _ living => living) (fun id held => ?_) (fun _ alive => alive) fun state refers =>
    refers.imp (fun referred => ?_) ?_
  · unfold holdsHost at held ⊢
    rw [Bool.or_eq_true, List.contains_iff_mem] at held ⊢
    exact held.imp_right (more _)
  · rw [mem_stateReferences] at referred ⊢
    exact referred.imp_right (Or.imp_left (kept Hold.state?))
  · rintro ⟨effect, referred, captured⟩
    refine ⟨effect, ?_, captured⟩
    unfold effectReferences at referred ⊢
    simp only [List.mem_append] at referred ⊢
    exact referred.imp_left (Or.imp_right (kept Hold.effect?))

theorem effectReferences_of_quiet {before after : World} (quiet : before.graph.Quiet after.graph)
    (names : after.names = before.names) (holds : after.holds = before.holds) :
    ∀ effect ∈ before.effectReferences, effect ∈ after.effectReferences := by
  intro effect referred
  unfold effectReferences at referred ⊢
  rw [List.mem_append] at referred ⊢
  rw [names, holds, quiet.stack]
  exact referred.imp_right (quiet.subscribed effect)

/-- A frame refers to one effect more. -/
theorem IsCollected.entered {world : World} (collected : world.IsCollected) (frame : Option EffectId) :
    (world.entered frame).IsCollected := by
  have fruitless : world.Fruitless 0 [] (world.entered frame) := (Fruitless.refl world 0).around rfl
  have quiet : (world.graph.push frame).Quiet (world.entered frame).graph := by
    cases frame with
    | none => exact .refl _
    | some id => exact .countRun _ id
  have keeps : ∀ effect ∈ ({ world with graph := world.graph.push frame } : World).effectReferences,
      effect ∈ (world.entered frame).effectReferences := effectReferences_of_quiet quiet rfl rfl
  refine fruitless.isCollected collected (fun effect referred => keeps effect ?_) quiet.capturesOf
  unfold effectReferences at referred ⊢
  simp only [List.mem_append] at referred ⊢
  refine referred.imp_left (Or.imp_left (Or.imp_right fun framed => ?_))
  obtain ⟨entry, listed, same⟩ := List.mem_filterMap.mp framed
  exact List.mem_filterMap.mpr ⟨entry, List.mem_cons_of_mem frame listed, same⟩

theorem reran_entered (world : World) {effect : EffectId} (dependency : Dependency)
    (lasting : world.graph.isDisposed effect = false) :
    world.graph.Reran effect dependency ((world.entered (some effect)).graph.track dependency).pop := by
  have entered := world.isDisposed_entered (some effect)
  have tracks : (world.entered (some effect)).graph.track dependency =
      (world.entered (some effect)).graph.subscribe effect dependency := by
    rcases Graph.track_eq (world.entered (some effect)).graph dependency with ⟨-, idle⟩ | ⟨id, active, -, same⟩
    · exact absurd ((entered effect).symm.trans (idle effect rfl)) (by simp [lasting])
    · cases active
      exact same
  rw [tracks]
  constructor
  · show ((world.entered (some effect)).graph.subscribe effect dependency).stack.tail = _
    rw [Graph.stack_subscribe]
    rfl
  · intro other different
    show ((world.entered (some effect)).graph.subscribe effect dependency).effect? other = _
    rw [Graph.effect?_subscribe, if_neg fun both => different both.1.symm]
    exact (Graph.effect?_countRun (world.graph.push (some effect)) effect other).trans (if_neg (Ne.symm different))
  · intro other
    rw [← entered other, ← Graph.isDisposed_track (world.entered (some effect)).graph dependency other, tracks]
    rfl
  · intro other id
    show id ∈ ((world.entered (some effect)).graph.subscribe effect dependency).subscribersOf other ↔ _
    rw [Graph.subscribersOf_subscribe]
    have same : (world.entered (some effect)).graph.subscribersOf = world.graph.subscribersOf := rfl
    rw [same]
    split
    · rename_i new
      obtain ⟨rfl, -⟩ := new
      simp
    · rename_i known
      constructor
      · exact Or.inl
      · rintro (listed | ⟨rfl, rfl⟩)
        · exact listed
        · exact Decidable.by_contra fun absent => known ⟨rfl, absent⟩

end World

namespace Live

variable {world : World} {id : HostId} {host : Host} {error : TemplateError}

theorem parseTemplate_of_failing {source : String} (failed : Markup.parse source = .error error) (world : World) :
    parseTemplate source world = .ok (.error error) (world.planting source) := by
  unfold parseTemplate
  simp only [Markup.parse_eq_error.mp failed]
  rfl

/-- A render whose template does not parse begins and ends, and nothing else. -/
theorem drawHost_of_failing (run : Runner) (found : world.host? id = some host)
    (failed : Markup.parse host.component.template = .error error) :
    ∃ drawn, drawHost run id world = .ok (.error error) drawn ∧ world.Fruitless id [.ended, .began] drawn ∧
      drawn.graph = world.graph ∧ drawn.notices = world.notices := by
  have begun : (world.tell id .began).host? id = some { host with story := .began :: host.story } := by
    unfold World.tell
    rw [World.host?_modifyHost, if_pos rfl, found]
    rfl
  have renders : renderHost run id (world.tell id .began) =
      .ok (.error error) ((world.tell id .began).planting host.component.template) := by
    unfold renderHost
    rw [get_bind, begun]
    exact bind_of_ok (parseTemplate_of_failing failed _)
  have draws : drawHost run id world =
      ending (renderHost run id) (World.tell · id .ended) (world.tell id .began) := rfl
  have fruitless := (((World.Fruitless.refl world id).tell .began).planting host.component.template).tell .ended
  refine ⟨_, ?_, fruitless, rfl, rfl⟩
  rw [draws]
  unfold ending
  rw [renders]

/-- A host that is asked refuses if its template does not parse. -/
theorem asked_of_failing {run : Runner} {call : Call}
    {next : Except TemplateError Unit → Live (Except TemplateError Unit)}
    (refuses : next (.error error) = do tell id .refused; pure (.error error)) (found : world.host? id = some host)
    (failed : Markup.parse host.component.template = .error error) :
    ∃ after, (do tell id (.asked call); drawHost run id >>= next) world = .ok (.error error) after ∧
      world.Fruitless id [.refused, .ended, .began, .asked call] after ∧ after.graph = world.graph ∧
      after.notices = world.notices := by
  have asked : (world.tell id (.asked call)).host? id = some { host with story := .asked call :: host.story } := by
    unfold World.tell
    rw [World.host?_modifyHost, if_pos rfl, found]
    rfl
  obtain ⟨drawn, draws, fruitless, graph, notices⟩ := drawHost_of_failing run asked failed
  refine ⟨drawn.tell id .refused, ?_, ?_, graph, notices⟩
  · show (drawHost run id >>= next) (world.tell id (.asked call)) = _
    rw [bind_of_ok draws, refuses]
    rfl
  · exact (((World.Fruitless.refl world id).tell (.asked call)).trans fruitless).tell .refused

theorem renderAsked_of_failing (run : Runner) (found : world.host? id = some host)
    (failed : Markup.parse host.component.template = .error error) :
    ∃ after, renderAsked run id world = .ok (.error error) after ∧
      world.Fruitless id [.refused, .ended, .began, .asked .render] after ∧ after.graph = world.graph ∧
      after.notices = world.notices := asked_of_failing rfl found failed

theorem mountHost_of_failing (run : Runner) (found : world.host? id = some host)
    (failed : Markup.parse host.component.template = .error error) :
    ∃ after, mountHost run id world = .ok (.error error) after ∧
      world.Fruitless id [.refused, .ended, .began, .asked .mount] after ∧ after.graph = world.graph ∧
      after.notices = world.notices := asked_of_failing rfl found failed

theorem redraw_of_failing (run : Runner) (found : world.host? id = some host)
    (failed : Markup.parse host.component.template = .error error) :
    ∃ after, redraw run id host world = .ok () after ∧ world.Fruitless id [.refused, .ended, .began] after ∧
      after.graph = world.graph ∧
      after.notices = .rerenderFailed host.component.selector error :: world.notices := by
  obtain ⟨drawn, draws, fruitless, graph, notices⟩ := drawHost_of_failing run found failed
  have refused := fruitless.tell .refused
  refine ⟨(drawn.tell id .refused).note (.rerenderFailed host.component.selector error), ?_, ?_, graph, ?_⟩
  · unfold redraw
    rw [bind_of_ok draws]
    rfl
  · exact ⟨refused.host, refused.others, refused.nodes, refused.size, refused.targets, refused.names, refused.holds,
      refused.parses, refused.met, refused.happenings, refused.deeds⟩
  · exact congrArg _ notices

/-- The task of a render effect of which nothing comes leaves a subscription to all keys. -/
theorem rerender_of_failing (run : Runner) (found : world.host? id = some host) (alive : host.alive = true)
    (mounted : host.mounted = true) (failed : Markup.parse host.component.template = .error error)
    (collected : world.IsCollected) :
    ∃ after, rerender run id world = .ok () after ∧ world.Fruitless id [.refused, .ended, .began] after ∧
      after.graph = world.graph.track ⟨host.state, .any⟩ ∧
      after.notices = .rerenderFailed host.component.selector error :: world.notices := by
  obtain ⟨holds, held⟩ : ∃ holds, hold (.host id) world = .ok () ({ world with holds } : World) := by
    by_cases known : world.holds.contains (.host id) = true
    · refine ⟨world.holds, ?_⟩
      show EStateM.Result.ok () (if world.holds.contains (.host id) then world else _) = _
      rw [if_pos known]
    · refine ⟨.host id :: world.holds, ?_⟩
      show EStateM.Result.ok () (if world.holds.contains (.host id) then world else _) = _
      rw [if_neg known]
  let tracked : World := { world with holds, graph := world.graph.track ⟨host.state, .any⟩ }
  obtain ⟨drawn, draws, fruitless, graph, notices⟩ :=
    redraw_of_failing run (show tracked.host? id = some host from found) failed
  have inside : (do hold (.host id); track host.state .any; redraw run id host) world = .ok () drawn :=
    (bind_of_ok held).trans draws
  have whole : world.Fruitless id [.refused, .ended, .began] { drawn with holds := world.holds } :=
    fruitless.around rfl
  have quiet : world.graph.Quiet drawn.graph := graph ▸ (Graph.Quiet.track world.graph ⟨host.state, .any⟩).1
  have left : ({ drawn with holds := world.holds } : World).IsCollected := whole.isCollected collected
    (World.effectReferences_of_quiet quiet fruitless.names rfl) quiet.capturesOf
  refine ⟨{ drawn with holds := world.holds }, ?_, whole, graph, notices⟩
  have runs : rerender run id world = operation (do
      hold (.host id)
      track host.state .any
      redraw run id host) world := by
    unfold rerender operation ending
    rw [get_bind, found]
    simp only [alive, mounted, if_true]
    rfl
  rw [runs]
  unfold operation ending
  rw [inside]
  dsimp only
  rw [left.collect_eq]

/-- The render effect counts the run of which nothing comes. -/
theorem runEffect_of_failing (depth : Nat) {effect : EffectId} (has : world.HasTask effect (.render id))
    (lasting : world.graph.isDisposed effect = false) (idle : some effect ∉ world.graph.stack)
    (found : world.host? id = some host) (alive : host.alive = true) (mounted : host.mounted = true)
    (failed : Markup.parse host.component.template = .error error) (collected : world.IsCollected) :
    ∃ after, runEffect (runTo (depth + 1)) effect world = .ok () after ∧
      world.Fruitless id [.refused, .ended, .began] after ∧
      world.graph.Reran effect ⟨host.state, .any⟩ after.graph ∧
      after.notices = .rerenderFailed host.component.selector error :: world.notices := by
  obtain ⟨known, looked, task⟩ := has
  obtain ⟨drawn, draws, fruitless, graph, notices⟩ := rerender_of_failing (runTo depth)
    (show (world.entered (some effect)).host? id = some host from found) alive mounted failed
    (collected.entered (some effect))
  have whole : world.Fruitless id [.refused, .ended, .began] { drawn with graph := drawn.graph.pop } :=
    fruitless.around fruitless.holds
  have quiet : world.graph.Quiet drawn.graph.pop := by
    have pushed := Graph.Quiet.countRun (world.graph.push (some effect)) effect
    rw [graph]
    exact (pushed.trans (Graph.Quiet.track _ ⟨host.state, .any⟩).1).inFrame
  have left : ({ drawn with graph := drawn.graph.pop } : World).IsCollected := whole.isCollected collected
    (World.effectReferences_of_quiet quiet fruitless.names fruitless.holds) quiet.capturesOf
  have reran : world.graph.Reran effect ⟨host.state, .any⟩ drawn.graph.pop := by
    rw [graph]
    exact world.reran_entered _ lasting
  refine ⟨{ drawn with graph := drawn.graph.pop }, ?_, whole, reran, notices⟩
  have lives : ¬ known.disposed = true := by
    unfold Graph.isDisposed at lasting
    rw [looked] at lasting
    simpa using lasting
  have free : ¬ world.graph.isRunning effect = true := by
    simpa [Graph.isRunning] using idle
  have runs : runBody (runTo (depth + 1)) effect known world =
      ending (discard (do rerender (runTo depth) id; pure Value.null))
        (fun last => { last with graph := last.graph.pop }.collect) (world.entered (some effect)) := by
    unfold runBody
    rw [task]
    rfl
  rw [runEffect_apply (runTo (depth + 1)) looked, if_neg lives, if_neg free, runs]
  unfold ending
  rw [discard_apply, bind_of_ok draws]
  show EStateM.Result.ok () ({ drawn with graph := drawn.graph.pop } : World).collect = _
  rw [left.collect_eq]

end Live

end LiveMarkup
