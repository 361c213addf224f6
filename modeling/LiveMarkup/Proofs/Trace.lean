import LiveMarkup.Proofs.Subscription

/-
This file follows a graph from move to move, and finds the dependencies of its effects in the record
of the moves.
-/

namespace LiveMarkup.Graph

/-- A graph changes by these moves only. -/
inductive Move (Task : Type) where
  | created (label : String) (task : Task) (captures : List TargetId)
  | entered (frame : Option EffectId)
  | left
  | tracked (dependency : Dependency)
  | disposed (id : EffectId)
  | released (target : TargetId)

variable {Task : Type}

/-- An effect enters the stack only if it is neither disposed nor running. -/
def Allows (graph : Graph Task) : Move Task → Prop
  | .entered (some id) => ∃ effect, graph.effect? id = some effect ∧ effect.disposed = false ∧
      graph.isRunning id = false
  | _ => True

/-- An effect that enters the stack counts one more run. -/
def moved (graph : Graph Task) : Move Task → Graph Task
  | .created label task captures => (graph.create label task captures).2
  | .entered none => graph.push none
  | .entered (some id) => (graph.push (some id)).countRun id
  | .left => graph.pop
  | .tracked dependency => graph.track dependency
  | .disposed id => graph.dispose id
  | .released target => graph.release target

/-- A path lists the moves that lead from one graph to another, the latest one in front. -/
inductive Path (start : Graph Task) : List (Move Task) → Graph Task → Prop where
  | here : Path start [] start
  | step {moves : List (Move Task)} {graph : Graph Task} (move : Move Task) :
      Path start moves graph → graph.Allows move → Path start (move :: moves) (graph.moved move)

instance (graph : Graph Task) (move : Move Task) : Decidable (graph.Allows move) :=
  match move with
  | .entered (some id) =>
      match found : graph.effect? id with
      | none => isFalse fun ⟨_, other, _⟩ => by rw [found] at other; cases other
      | some effect =>
          decidable_of_iff (effect.disposed = false ∧ graph.isRunning id = false)
            ⟨fun free => ⟨effect, found, free⟩, fun ⟨other, same, free⟩ => by
              rw [found] at same
              cases same
              exact free⟩
  | .entered none => isTrue trivial
  | .created .. => isTrue trivial
  | .left => isTrue trivial
  | .tracked _ => isTrue trivial
  | .disposed _ => isTrue trivial
  | .released _ => isTrue trivial

/-- This function makes moves from the empty graph on, the latest one in front. -/
def replay : List (Move Task) → Graph Task
  | [] => {}
  | move :: earlier => (replay earlier).moved move

/-- This function checks that each move was allowed when it was made. -/
def allAllowed : List (Move Task) → Bool
  | [] => true
  | move :: earlier => allAllowed earlier && decide ((replay earlier).Allows move)

theorem path_replay (moves : List (Move Task)) (allowed : allAllowed moves = true) :
    Path {} moves (replay moves) := by
  induction moves with
  | nil => exact .here
  | cons move earlier inductionHypothesis =>
      obtain ⟨before, now⟩ := (Bool.and_eq_true _ _).mp allowed
      exact .step move (inductionHypothesis before) (of_decide_eq_true now)

namespace Path

variable {first second third : Graph Task} {earlier later : List (Move Task)}

/-- One path goes on where another one ends. -/
theorem append (before : Path first earlier second) (after : Path second later third) :
    Path first (later ++ earlier) third := by
  induction after with
  | here => exact before
  | step move _ allowed inductionHypothesis => exact .step move inductionHypothesis allowed

theorem single (graph : Graph Task) (move : Move Task) (allowed : graph.Allows move) :
    Path graph [move] (graph.moved move) := .step move .here allowed

end Path

/-- The frames that the moves left on a stack that was empty at first, the innermost in front. -/
def framesOf : List (Move Task) → List (Option EffectId)
  | [] => []
  | .entered frame :: earlier => frame :: framesOf earlier
  | .left :: earlier => (framesOf earlier).tail
  | _ :: earlier => framesOf earlier

/-- A read is attributed to the effect of the innermost frame. A release ends the reads of its target
that came before it. -/
def attributedReads (id : EffectId) : List (Move Task) → List Dependency
  | [] => []
  | .tracked dependency :: earlier =>
      if (framesOf earlier).head? = some (some id) then attributedReads id earlier ++ [dependency]
      else attributedReads id earlier
  | .released target :: earlier =>
      (attributedReads id earlier).filter fun dependency => dependency.target ≠ target
  | _ :: earlier => attributedReads id earlier

/-! Repetitions. -/

theorem eraseDups_concat (reads : List Dependency) (dependency : Dependency) :
    (reads ++ [dependency]).eraseDups =
      if dependency ∈ reads then reads.eraseDups else reads.eraseDups ++ [dependency] := by
  rw [List.eraseDups_append]
  by_cases known : dependency ∈ reads
  · rw [if_pos known]
    simp [List.removeAll, known]
  · rw [if_neg known]
    simp [List.removeAll, known, List.eraseDups_cons]

/-- It makes no difference whether repetitions are removed before or after a selection. -/
theorem eraseDups_filter (select : Dependency → Bool) (reads : List Dependency) :
    (reads.filter select).eraseDups = reads.eraseDups.filter select := by
  match reads with
  | [] => rfl
  | first :: rest =>
      have shorter : (rest.filter fun other => !other == first).length < (first :: rest).length :=
        Nat.lt_succ_of_le (List.length_filter_le _ _)
      have inductionHypothesis := eraseDups_filter select (rest.filter fun other => !other == first)
      rw [List.eraseDups_cons, List.filter_cons, List.filter_cons]
      by_cases selected : select first = true
      · rw [if_pos selected, if_pos selected, List.eraseDups_cons, ← inductionHypothesis]
        simp only [List.filter_filter, Bool.and_comm]
      · rw [if_neg selected, if_neg selected, ← inductionHypothesis]
        have none : (rest.filter select).filter (fun other => !other == first) =
            rest.filter select := by
          refine List.filter_eq_self.mpr fun other member => ?_
          have chosen := (List.mem_filter.mp member).2
          have different : other ≠ first := fun same => selected (same ▸ chosen)
          simpa using different
        rw [← none]
        simp only [List.filter_filter, Bool.and_comm]
termination_by reads.length
decreasing_by exact Nat.lt_succ_of_le (List.length_filter_le _ _)

/-! What a single move leaves. -/

theorem effect?_create (graph : Graph Task) (label : String) (task : Task)
    (captures : List TargetId) (id : EffectId) :
    (graph.create label task captures).2.effect? id =
      if id = graph.effects.size then some { label, task, captures } else graph.effect? id := by
  simp [create, effect?, Array.getElem?_push]

theorem effect?_countRun (graph : Graph Task) (id other : EffectId) :
    (graph.countRun id).effect? other =
      if id = other then (graph.effect? other).map fun effect =>
        { effect with runs := effect.runs + 1 }
      else graph.effect? other := effect?_modifyEffect graph id other _

/-- A read leaves the graph alone unless an effect that is not disposed is active. -/
theorem track_eq (graph : Graph Task) (dependency : Dependency) :
    (graph.track dependency = graph ∧ ∀ id, graph.active? = some id → graph.isDisposed id = true) ∨
      ∃ id, graph.active? = some id ∧ graph.isDisposed id = false ∧
        graph.track dependency = graph.subscribe id dependency := by
  unfold track
  cases active : graph.active? with
  | none => exact Or.inl ⟨rfl, fun id impossible => by cases impossible⟩
  | some id =>
      cases disposed : graph.isDisposed id with
      | true =>
          refine Or.inl ⟨by simp [disposed], fun other same => ?_⟩
          cases same
          exact disposed
      | false => exact Or.inr ⟨id, rfl, disposed, by simp [disposed]⟩

theorem mem_stack_of_active? {graph : Graph Task} {id : EffectId}
    (active : graph.active? = some id) : some id ∈ graph.stack := by
  unfold active? at active
  split at active
  · rename_i frame rest frames
    rw [frames, active]
    exact List.mem_cons_self
  · cases active

theorem stack_track (graph : Graph Task) (dependency : Dependency) :
    (graph.track dependency).stack = graph.stack := by
  rcases track_eq graph dependency with ⟨same, -⟩ | ⟨id, -, -, subscribed⟩
  · rw [same]
  · rw [subscribed, stack_subscribe]

/-- Only moves that enter and leave change the stack. -/
theorem stack_moved (graph : Graph Task) (move : Move Task) :
    (graph.moved move).stack =
      match move with
      | .entered frame => frame :: graph.stack
      | .left => graph.stack.tail
      | _ => graph.stack := by
  cases move with
  | created label task captures => rfl
  | entered frame => cases frame <;> rfl
  | left => rfl
  | tracked dependency => exact stack_track graph dependency
  | disposed id => exact stack_dispose graph id
  | released target => exact stack_release graph target

/-- The frames that the moves left are the stack. -/
theorem Path.stack_eq {moves : List (Move Task)} {graph : Graph Task} (path : Path {} moves graph) :
    graph.stack = framesOf moves := by
  induction path with
  | here => rfl
  | step move _ _ inductionHypothesis =>
      rw [stack_moved]
      cases move <;> simp [framesOf, inductionHypothesis]

theorem size_track (graph : Graph Task) (dependency : Dependency) :
    (graph.track dependency).effects.size = graph.effects.size := by
  rcases track_eq graph dependency with ⟨same, -⟩ | ⟨id, -, -, subscribed⟩
  · rw [same]
  · rw [subscribed]
    by_cases known : id ∈ graph.subscribersOf dependency
    · rw [subscribe_of_mem known]
    · rw [subscribe_of_not_mem known]
      simp [modifyEffect]

/-- No move takes an effect away. -/
theorem size_moved (graph : Graph Task) (move : Move Task) :
    graph.effects.size ≤ (graph.moved move).effects.size := by
  cases move with
  | created label task captures => simp [moved, create]
  | entered frame =>
      cases frame with
      | none => exact Nat.le_refl _
      | some id => simp [moved, push, countRun, modifyEffect]
  | left => exact Nat.le_refl _
  | tracked dependency => exact Nat.le_of_eq (size_track graph dependency).symm
  | disposed id => exact Nat.le_of_eq (size_dispose graph id).symm
  | released target => exact Nat.le_of_eq (size_release graph target).symm

theorem Path.effects_le {start finish : Graph Task} {moves : List (Move Task)}
    (path : Path start moves finish) : start.effects.size ≤ finish.effects.size := by
  induction path with
  | here => exact Nat.le_refl _
  | step move _ _ inductionHypothesis =>
      exact Nat.le_trans inductionHypothesis (size_moved _ move)

/-! Each move keeps the table and the dependencies in agreement. -/

namespace Agrees

variable {graph : Graph Task}

theorem create (agrees : graph.Agrees) (label : String) (task : Task)
    (captures : List TargetId) : (graph.create label task captures).2.Agrees where
  listed id dependency := by
    have table : (graph.create label task captures).2.subscribersOf dependency =
        graph.subscribersOf dependency := rfl
    rw [table, agrees.listed, effect?_create]
    by_cases new : id = graph.effects.size
    · have unknown : graph.effect? id = none := by simp [effect?, new]
      simp [new, new ▸ unknown]
    · simp [new]
  disposed id effect found gone := by
    rw [effect?_create] at found
    split at found
    · cases found
      rfl
    · exact agrees.disposed id effect found gone

theorem countRun (agrees : graph.Agrees) (counted : EffectId) : (graph.countRun counted).Agrees where
  listed id dependency := by
    have table : (graph.countRun counted).subscribersOf dependency =
        graph.subscribersOf dependency := rfl
    rw [table, agrees.listed, effect?_countRun]
    by_cases same : counted = id
    · cases graph.effect? id <;> simp [same]
    · simp [same]
  disposed id effect found gone := by
    rw [effect?_countRun] at found
    split at found
    · cases known : graph.effect? id with
      | none =>
          rw [known] at found
          cases found
      | some old =>
          rw [known] at found
          cases found
          exact agrees.disposed id old known gone
    · exact agrees.disposed id effect found gone

/-- Only an effect that exists and is not disposed subscribes. -/
theorem subscribe (agrees : graph.Agrees) {id : EffectId} {effect : Effect Task}
    (found : graph.effect? id = some effect) (lasting : effect.disposed = false)
    (dependency : Dependency) : (graph.subscribe id dependency).Agrees := by
  by_cases known : id ∈ graph.subscribersOf dependency
  · rw [subscribe_of_mem known]
    exact agrees
  · constructor
    · intro other read
      by_cases same : id = other
      · subst same
        have extended := effect?_subscribe graph id id dependency
        rw [if_pos ⟨rfl, known⟩, found] at extended
        rw [subscribersOf_subscribe, extended]
        by_cases this : read = dependency
        · simp [this, known]
        · simp [this, agrees.mem_dependencies found]
      · have kept := effect?_subscribe graph id other dependency
        rw [if_neg fun both => same both.1] at kept
        rw [subscribersOf_subscribe, kept, ← agrees.listed]
        by_cases this : read = dependency
        · have different : ¬ other = id := fun equal => same equal.symm
          simp [this, known, different]
        · simp [this]
    · intro other changed seen gone
      rw [effect?_subscribe] at seen
      split at seen
      · rename_i both
        rw [← both.1, found] at seen
        cases seen
        rw [show ({ effect with dependencies := effect.dependencies ++ [dependency] } :
          Effect Task).disposed = effect.disposed from rfl, lasting] at gone
        cases gone
      · exact agrees.disposed other changed seen gone

theorem track (agrees : graph.Agrees) (running : ∀ id, some id ∈ graph.stack →
    (graph.effect? id).isSome = true) (dependency : Dependency) :
    (graph.track dependency).Agrees := by
  rcases track_eq graph dependency with ⟨same, -⟩ | ⟨id, active, lasting, subscribed⟩
  · rw [same]
    exact agrees
  · have member := mem_stack_of_active? active
    obtain ⟨effect, found⟩ := Option.isSome_iff_exists.mp (running id member)
    have undisposed : effect.disposed = false := by
      simpa [isDisposed, found] using lasting
    rw [subscribed]
    exact agrees.subscribe found undisposed dependency

theorem dispose (agrees : graph.Agrees) (id : EffectId) : (graph.dispose id).Agrees := by
  cases found : graph.effect? id with
  | none =>
      have same : graph.dispose id = graph := by simp [Graph.dispose, found]
      rw [same]
      exact agrees
  | some effect =>
      cases gone : effect.disposed with
      | true =>
          have same : graph.dispose id = graph := by simp [Graph.dispose, found, gone]
          rw [same]
          exact agrees
      | false =>
          have lasting : graph.isDisposed id = false := by simp [isDisposed, found, gone]
          have table : ∀ dependency, (graph.dispose id).subscribersOf dependency =
              if dependency ∈ effect.dependencies then
                (graph.subscribersOf dependency).filter (· ≠ id)
              else graph.subscribersOf dependency := by
            intro dependency
            simp only [Graph.dispose, found, gone, Bool.false_eq_true, if_false]
            rw [subscribersOf_unsubscribes]
            rfl
          constructor
          · intro other dependency
            by_cases same : id = other
            · subst same
              have changed := effect?_dispose graph id id
              rw [if_pos ⟨rfl, lasting⟩, found] at changed
              rw [table, changed]
              by_cases member : dependency ∈ effect.dependencies
              · simp [member, ended]
              · have absent := fun listed =>
                  member ((agrees.mem_dependencies found dependency).mp listed)
                simpa [member, ended] using absent
            · have different : ¬ other = id := fun equal => same equal.symm
              have kept := effect?_dispose graph id other
              rw [if_neg fun both => same both.1] at kept
              rw [table, kept, ← agrees.listed]
              by_cases member : dependency ∈ effect.dependencies
              · simp [member, different]
              · simp [member]
          · intro other changed seen disposed
            rw [effect?_dispose] at seen
            split at seen
            · obtain ⟨old, -, equal⟩ := Option.map_eq_some_iff.mp seen
              rw [← equal]
              rfl
            · exact agrees.disposed other changed seen disposed

theorem release (agrees : graph.Agrees) (target : TargetId) : (graph.release target).Agrees where
  listed id dependency := by
    rw [subscribersOf_release, agrees.effect?_release]
    by_cases same : dependency.target = target
    · simp [same, forgetting]
    · rw [if_neg same, agrees.listed]
      cases graph.effect? id <;> simp [forgetting, same]
  disposed id effect found gone := by
    rw [agrees.effect?_release] at found
    obtain ⟨old, known, equal⟩ := Option.map_eq_some_iff.mp found
    have none : old.dependencies = [] := agrees.disposed id old known (by rw [← equal] at gone; exact gone)
    rw [← equal]
    simp [forgetting, none]

end Agrees

/-- The dependencies of each effect are the reads that the moves attribute to it. -/
structure Recorded (moves : List (Move Task)) (graph : Graph Task) : Prop where
  agrees : graph.Agrees
  frames : graph.stack = framesOf moves
  running : ∀ id, some id ∈ graph.stack → (graph.effect? id).isSome = true
  unborn : ∀ id, graph.effect? id = none → attributedReads id moves = []
  reads : ∀ id effect, graph.effect? id = some effect → effect.disposed = false →
    effect.dependencies = (attributedReads id moves).eraseDups

namespace Recorded

variable {moves : List (Move Task)} {graph : Graph Task}

theorem empty : Recorded [] ({} : Graph Task) where
  agrees := .empty
  frames := rfl
  running id member := by cases member
  unborn id _ := rfl
  reads id effect found := by simp [effect?] at found

/-- A new effect has no dependencies, and no read was attributed to it before. -/
theorem create (recorded : Recorded moves graph) (label : String) (task : Task)
    (captures : List TargetId) :
    Recorded (.created label task captures :: moves) (graph.create label task captures).2 where
  agrees := recorded.agrees.create label task captures
  frames := recorded.frames
  running id member := by
    rw [effect?_create]
    split
    · rfl
    · exact recorded.running id member
  unborn id absent := by
    rw [effect?_create] at absent
    split at absent
    · cases absent
    · exact recorded.unborn id absent
  reads id effect found lasting := by
    rw [effect?_create] at found
    split at found
    · rename_i new
      have unknown : graph.effect? id = none := by simp [effect?, new]
      have none : attributedReads id moves = [] := recorded.unborn id unknown
      cases found
      show [] = (attributedReads id moves).eraseDups
      rw [none]
      rfl
    · exact recorded.reads id effect found lasting

theorem push (recorded : Recorded moves graph) (frame : Option EffectId)
    (known : ∀ id, frame = some id → (graph.effect? id).isSome = true) :
    Recorded (.entered frame :: moves) (graph.push frame) where
  agrees := ⟨recorded.agrees.listed, recorded.agrees.disposed⟩
  frames := congrArg (frame :: ·) recorded.frames
  running id member := by
    rcases List.mem_cons.mp member with new | old
    · exact known id new.symm
    · exact recorded.running id old
  unborn := recorded.unborn
  reads := recorded.reads

theorem pop (recorded : Recorded moves graph) : Recorded (.left :: moves) graph.pop where
  agrees := ⟨recorded.agrees.listed, recorded.agrees.disposed⟩
  frames := congrArg List.tail recorded.frames
  running id member := recorded.running id (List.mem_of_mem_tail member)
  unborn := recorded.unborn
  reads := recorded.reads

/-- A count of runs is no part of the dependencies. -/
theorem countRun (recorded : Recorded moves graph) (counted : EffectId) :
    Recorded moves (graph.countRun counted) where
  agrees := recorded.agrees.countRun counted
  frames := recorded.frames
  running id member := by
    have known := recorded.running id member
    rw [effect?_countRun]
    split
    · rw [Option.isSome_map]
      exact known
    · exact known
  unborn id absent := by
    rw [effect?_countRun] at absent
    split at absent
    · exact recorded.unborn id (Option.map_eq_none_iff.mp absent)
    · exact recorded.unborn id absent
  reads id effect found lasting := by
    rw [effect?_countRun] at found
    split at found
    · obtain ⟨old, known, equal⟩ := Option.map_eq_some_iff.mp found
      rw [← equal]
      exact recorded.reads id old known (by rw [← equal] at lasting; exact lasting)
    · exact recorded.reads id effect found lasting

/-- The innermost frame of the record is that of the active effect. -/
theorem head_frames (recorded : Recorded moves graph) (id : EffectId) :
    (framesOf moves).head? = some (some id) ↔ graph.active? = some id := by
  rw [← recorded.frames]
  unfold active?
  cases graph.stack <;> simp

/-- A read is not attributed to an effect that does not exist. -/
theorem unborn_tracked (recorded : Recorded moves graph) (dependency : Dependency) {id : EffectId}
    (unknown : graph.effect? id = none) :
    attributedReads id (.tracked dependency :: moves) = [] := by
  have idle : ¬ (framesOf moves).head? = some (some id) := by
    rw [recorded.head_frames]
    intro active
    have known := recorded.running id (mem_stack_of_active? active)
    rw [unknown] at known
    cases known
  rw [attributedReads, if_neg idle]
  exact recorded.unborn id unknown

/-- A read that no effect can note changes no record of an effect that is not disposed. -/
theorem track_idle (recorded : Recorded moves graph) (dependency : Dependency)
    (idle : ∀ id, graph.active? = some id → graph.isDisposed id = true) :
    Recorded (.tracked dependency :: moves) graph where
  agrees := recorded.agrees
  frames := recorded.frames
  running := recorded.running
  unborn _ unknown := recorded.unborn_tracked dependency unknown
  reads id effect found lasting := by
    have resting : ¬ (framesOf moves).head? = some (some id) := by
      rw [recorded.head_frames]
      intro active
      have disposed := idle id active
      rw [isDisposed, found] at disposed
      rw [show effect.disposed = true from disposed] at lasting
      cases lasting
    rw [attributedReads, if_neg resting]
    exact recorded.reads id effect found lasting

/-- The active effect notes a read unless it knows the dependency already. -/
theorem reads_subscribe (recorded : Recorded moves graph) (dependency : Dependency)
    {active : EffectId} {old effect : Effect Task} (isActive : graph.active? = some active)
    (known : graph.effect? active = some old) (lasting : old.disposed = false)
    (found : (graph.subscribe active dependency).effect? active = some effect) :
    effect.dependencies = (attributedReads active (.tracked dependency :: moves)).eraseDups := by
  have before := recorded.reads active old known lasting
  have listed := recorded.agrees.mem_dependencies known dependency
  rw [attributedReads, if_pos ((recorded.head_frames active).mpr isActive), eraseDups_concat,
    ← before]
  rw [effect?_subscribe, known] at found
  by_cases subscribed : active ∈ graph.subscribersOf dependency
  · rw [if_neg fun both => both.2 subscribed] at found
    have read : dependency ∈ attributedReads active moves :=
      List.mem_eraseDups.mp (before ▸ listed.mp subscribed)
    rw [if_pos read]
    cases found
    rfl
  · rw [if_pos ⟨rfl, subscribed⟩] at found
    have unread : dependency ∉ attributedReads active moves := by
      intro read
      exact subscribed (listed.mpr (before ▸ List.mem_eraseDups.mpr read))
    rw [if_neg unread]
    cases found
    rfl

/-- A read extends the dependencies of the effect in the innermost frame, at the first time. -/
theorem track (recorded : Recorded moves graph) (dependency : Dependency) :
    Recorded (.tracked dependency :: moves) (graph.track dependency) := by
  have agrees := recorded.agrees.track recorded.running dependency
  rcases track_eq graph dependency with ⟨same, idle⟩ | ⟨active, isActive, lastingActive, subscribed⟩
  · rw [same]
    exact recorded.track_idle dependency idle
  · rw [subscribed] at agrees ⊢
    have keeps : ∀ id, graph.effect? id = none ↔
        (graph.subscribe active dependency).effect? id = none := by
      intro id
      rw [effect?_subscribe]
      split
      · exact Option.map_eq_none_iff.symm
      · rfl
    refine ⟨agrees, (stack_subscribe graph active dependency).trans recorded.frames, ?_, ?_, ?_⟩
    · intro id member
      rw [stack_subscribe] at member
      rw [Option.isSome_iff_ne_none, ne_eq, ← keeps]
      exact Option.isSome_iff_ne_none.mp (recorded.running id member)
    · exact fun id absent => recorded.unborn_tracked dependency ((keeps id).mpr absent)
    · intro id effect found lasting
      by_cases same : active = id
      · subst same
        obtain ⟨old, known⟩ := Option.isSome_iff_exists.mp
          (recorded.running active (mem_stack_of_active? isActive))
        have undisposed : old.disposed = false := by
          rw [isDisposed, known] at lastingActive
          exact lastingActive
        exact recorded.reads_subscribe dependency isActive known undisposed found
      · have resting : ¬ (framesOf moves).head? = some (some id) := by
          rw [recorded.head_frames, isActive]
          intro equal
          cases equal
          exact same rfl
        rw [effect?_subscribe, if_neg fun both => same both.1] at found
        rw [attributedReads, if_neg resting]
        exact recorded.reads id effect found lasting

/-- A disposal concerns one effect, which reads nothing afterwards. -/
theorem dispose (recorded : Recorded moves graph) (disposed : EffectId) :
    Recorded (.disposed disposed :: moves) (graph.dispose disposed) where
  agrees := recorded.agrees.dispose disposed
  frames := (stack_dispose graph disposed).trans recorded.frames
  running id member := by
    rw [stack_dispose] at member
    have known := recorded.running id member
    rw [effect?_dispose]
    split
    · rw [Option.isSome_map]
      exact known
    · exact known
  unborn id absent := by
    rw [effect?_dispose] at absent
    split at absent
    · exact recorded.unborn id (Option.map_eq_none_iff.mp absent)
    · exact recorded.unborn id absent
  reads id effect found lasting := by
    rw [effect?_dispose] at found
    split at found
    · obtain ⟨old, -, equal⟩ := Option.map_eq_some_iff.mp found
      rw [← equal] at lasting
      cases lasting
    · exact recorded.reads id effect found lasting

/-- A release ends the dependencies on its target, and the reads that led to them. -/
theorem release (recorded : Recorded moves graph) (target : TargetId) :
    Recorded (.released target :: moves) (graph.release target) where
  agrees := recorded.agrees.release target
  frames := (stack_release graph target).trans recorded.frames
  running id member := by
    rw [stack_release] at member
    rw [recorded.agrees.effect?_release, Option.isSome_map]
    exact recorded.running id member
  unborn id absent := by
    rw [recorded.agrees.effect?_release] at absent
    have none := recorded.unborn id (Option.map_eq_none_iff.mp absent)
    rw [attributedReads, none]
    rfl
  reads id effect found lasting := by
    rw [recorded.agrees.effect?_release] at found
    obtain ⟨old, known, equal⟩ := Option.map_eq_some_iff.mp found
    have before := recorded.reads id old known (by rw [← equal] at lasting; exact lasting)
    rw [← equal, attributedReads, eraseDups_filter, ← before]
    rfl

/-- Every allowed move keeps the law. -/
theorem moved (recorded : Recorded moves graph) (move : Move Task) (allowed : graph.Allows move) :
    Recorded (move :: moves) (graph.moved move) := by
  cases move with
  | created label task captures => exact recorded.create label task captures
  | entered frame =>
      cases frame with
      | none => exact recorded.push none fun id impossible => by cases impossible
      | some id =>
          obtain ⟨effect, found, -, -⟩ := allowed
          refine (recorded.push (some id) fun other same => ?_).countRun id
          cases same
          rw [found]
          rfl
  | left => exact recorded.pop
  | tracked dependency => exact recorded.track dependency
  | disposed id => exact recorded.dispose id
  | released target => exact recorded.release target

end Recorded

/-- The law holds after every path from the empty graph. -/
theorem Path.recorded {moves : List (Move Task)} {graph : Graph Task}
    (path : Path {} moves graph) : Recorded moves graph := by
  induction path with
  | here => exact .empty
  | step move _ allowed inductionHypothesis => exact inductionHypothesis.moved move allowed

end LiveMarkup.Graph
