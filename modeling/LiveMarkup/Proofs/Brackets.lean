import LiveMarkup.Proofs.Gentle

/-
This file looks at moves that take only frames off that they put on themselves, and at the effects that get
subscribed by such moves.
-/

namespace LiveMarkup.Graph

variable {Task : Type}

/-- A frame that is taken off was put on by these moves. The latest move stands in front. -/
def Bracketed : List (Move Task) → Prop
  | [] => True
  | .left :: earlier => framesOf earlier ≠ [] ∧ Bracketed earlier
  | _ :: earlier => Bracketed earlier

/-- Whatever is read is read in a frame that these moves put on. -/
def Sheltered : List (Move Task) → Prop
  | [] => True
  | .tracked _ :: earlier => framesOf earlier ≠ [] ∧ Sheltered earlier
  | _ :: earlier => Sheltered earlier

section Moves

variable {later earlier moves : List (Move Task)}

/-- A stack that was there before stays below the frames of bracketed moves. -/
theorem framesOf_append (bracketed : Bracketed later) :
    framesOf (later ++ earlier) = framesOf later ++ framesOf earlier := by
  induction later with
  | nil => rfl
  | cons move rest inductionHypothesis =>
      cases move with
      | left =>
          obtain ⟨nonempty, before⟩ := bracketed
          show (framesOf (rest ++ earlier)).tail = (framesOf rest).tail ++ framesOf earlier
          rw [inductionHypothesis before, List.tail_append_of_ne_nil nonempty]
      | entered frame => exact congrArg (frame :: ·) (inductionHypothesis bracketed)
      | _ => exact inductionHypothesis bracketed

theorem Bracketed.append (late : Bracketed later) (early : Bracketed earlier) : Bracketed (later ++ earlier) := by
  induction later with
  | nil => exact early
  | cons move rest inductionHypothesis =>
      cases move with
      | left =>
          obtain ⟨nonempty, before⟩ := late
          refine ⟨?_, inductionHypothesis before⟩
          show framesOf (rest ++ earlier) ≠ []
          rw [framesOf_append before]
          exact List.append_ne_nil_of_left_ne_nil nonempty _
      | _ => exact inductionHypothesis late

/-- Bracketed moves behind a frame are sheltered by it, and others by their own frames. -/
theorem Sheltered.append (bracketed : Bracketed later) (early : Sheltered earlier)
    (late : Sheltered later ∨ framesOf earlier ≠ []) : Sheltered (later ++ earlier) := by
  induction later with
  | nil => exact early
  | cons move rest inductionHypothesis =>
      cases move with
      | tracked dependency =>
          refine ⟨?_, inductionHypothesis bracketed (late.imp_left And.right)⟩
          have before : Bracketed rest := bracketed
          show framesOf (rest ++ earlier) ≠ []
          rw [framesOf_append before]
          rcases late with ⟨nonempty, -⟩ | nonempty
          · exact List.append_ne_nil_of_left_ne_nil nonempty _
          · exact List.append_ne_nil_of_right_ne_nil _ nonempty
      | left => exact inductionHypothesis bracketed.2 late
      | _ => exact inductionHypothesis bracketed late

/-- A frame that is still there was put on. -/
theorem entered_mem_of_mem_framesOf {frame : Option EffectId} (there : frame ∈ framesOf moves) :
    .entered frame ∈ moves := by
  induction moves with
  | nil => cases there
  | cons move rest inductionHypothesis =>
      cases move with
      | entered other =>
          rcases List.mem_cons.mp there with rfl | before
          · exact List.mem_cons_self
          · exact List.mem_cons_of_mem _ (inductionHypothesis before)
      | left => exact List.mem_cons_of_mem _ (inductionHypothesis (List.mem_of_mem_tail there))
      | _ => exact List.mem_cons_of_mem _ (inductionHypothesis there)

/-- A read of sheltered moves finds a frame that was put on before it. -/
theorem Sheltered.frame {dependency : Dependency} (sheltered : Sheltered (later ++ .tracked dependency :: earlier)) :
    ∃ frame, (framesOf earlier).head? = some frame ∧ .entered frame ∈ earlier := by
  induction later with
  | nil =>
      obtain ⟨frame, rest, frames⟩ := List.exists_cons_of_ne_nil sheltered.1
      exact ⟨frame, by rw [frames]; rfl, entered_mem_of_mem_framesOf (frames ▸ List.mem_cons_self)⟩
  | cons move rest inductionHypothesis =>
      cases move with
      | tracked other => exact inductionHypothesis sheltered.2
      | _ => exact inductionHypothesis sheltered

end Moves

/-! Stacks and subscriptions along paths. -/

/-- From one graph to the other an effect depends on nothing new, and is listed nowhere new. -/
structure SubscribesNothing (id : EffectId) (before after : Graph Task) : Prop where
  depends : ∀ effect, after.effect? id = some effect → ∀ dependency ∈ effect.dependencies,
    ∃ older, before.effect? id = some older ∧ dependency ∈ older.dependencies
  listed : ∀ dependency, id ∈ after.subscribersOf dependency → id ∈ before.subscribersOf dependency

namespace SubscribesNothing

variable {id : EffectId} {first second third graph : Graph Task}

theorem refl (id : EffectId) (graph : Graph Task) : SubscribesNothing id graph graph :=
  ⟨fun effect found _ member => ⟨effect, found, member⟩, fun _ listed => listed⟩

theorem trans (early : SubscribesNothing id first second) (late : SubscribesNothing id second third) :
    SubscribesNothing id first third where
  depends effect found dependency member := by
    obtain ⟨middle, known, before⟩ := late.depends effect found dependency member
    exact early.depends middle known dependency before
  listed dependency listed := early.listed dependency (late.listed dependency listed)

theorem of_gainsNothing (gains : GainsNothing id first second)
    (listed : ∀ dependency, id ∈ second.subscribersOf dependency → id ∈ first.subscribersOf dependency) :
    SubscribesNothing id first second where
  depends effect found dependency member := by
    obtain ⟨older, known, fewer⟩ := gains effect found
    exact ⟨older, known, fewer dependency member⟩
  listed := listed

theorem create (label : String) (task : Task) (captures : List TargetId) :
    SubscribesNothing id graph (graph.create label task captures).2 where
  depends effect found dependency member := by
    rw [effect?_create] at found
    split at found
    · cases found
      cases member
    · exact ⟨effect, found, member⟩
  listed _ listed := listed

theorem countRun (other : EffectId) : SubscribesNothing id graph (graph.countRun other) := by
  refine of_gainsNothing (.of_dependencies ?_) fun _ listed => listed
  rw [effect?_countRun]
  split
  · cases graph.effect? id <;> rfl
  · rfl

theorem track (different : graph.active? ≠ some id) (dependency : Dependency) :
    SubscribesNothing id graph (graph.track dependency) := by
  refine of_gainsNothing (.track different dependency) fun other listed => ?_
  rcases track_eq graph dependency with ⟨same, -⟩ | ⟨reader, active, -, subscribed⟩
  · rwa [same] at listed
  · rw [subscribed, subscribersOf_subscribe] at listed
    split at listed
    · rename_i new
      rcases List.mem_append.mp listed with known | reads
      · exact new.1 ▸ known
      · exact absurd (List.mem_singleton.mp reads ▸ active) different
    · exact listed

theorem dispose (other : EffectId) : SubscribesNothing id graph (graph.dispose other) := by
  refine of_gainsNothing (.dispose graph other) fun dependency listed => ?_
  unfold Graph.dispose at listed
  split at listed
  · exact listed
  · split at listed
    · exact listed
    · rw [subscribersOf_unsubscribes] at listed
      split at listed
      · exact (List.mem_filter.mp listed).1
      · exact listed

theorem release (target : TargetId) : SubscribesNothing id graph (graph.release target) := by
  refine of_gainsNothing (.release graph target) fun dependency listed => ?_
  rw [subscribersOf_release] at listed
  split at listed
  · cases listed
  · exact listed

/-- Only a read of the active effect subscribes it. -/
theorem moved (graph : Graph Task) (move : Move Task)
    (different : ∀ dependency, move = .tracked dependency → graph.active? ≠ some id) :
    SubscribesNothing id graph (graph.moved move) := by
  cases move with
  | created label task captures => exact create label task captures
  | entered frame =>
      cases frame with
      | none => exact ⟨fun effect found _ member => ⟨effect, found, member⟩, fun _ listed => listed⟩
      | some other =>
          have pushed : SubscribesNothing id graph (graph.push (some other)) :=
            ⟨fun effect found _ member => ⟨effect, found, member⟩, fun _ listed => listed⟩
          exact pushed.trans (countRun other)
  | left => exact ⟨fun effect found _ member => ⟨effect, found, member⟩, fun _ listed => listed⟩
  | tracked dependency => exact track (different dependency rfl) dependency
  | disposed other => exact dispose other
  | released target => exact release target

end SubscribesNothing

namespace Path

variable {start finish : Graph Task} {moves : List (Move Task)} {id : EffectId}

/-- Bracketed moves leave the stack below their own frames. -/
theorem stack_of_bracketed (path : Path start moves finish) (bracketed : Bracketed moves) :
    finish.stack = framesOf moves ++ start.stack := by
  induction path with
  | here => rfl
  | step move _ _ inductionHypothesis =>
      rw [stack_moved]
      cases move with
      | left =>
          obtain ⟨nonempty, before⟩ := bracketed
          show List.tail _ = (framesOf _).tail ++ start.stack
          rw [inductionHypothesis before, List.tail_append_of_ne_nil nonempty]
      | entered frame => exact congrArg (frame :: ·) (inductionHypothesis bracketed)
      | _ => exact inductionHypothesis bracketed

theorem bracketed_tail {move : Move Task} (bracketed : Bracketed (move :: moves)) : Bracketed moves := by
  cases move with
  | left => exact bracketed.2
  | _ => exact bracketed

/-- An effect that was on the stack before is not entered. -/
theorem not_entered (path : Path start moves finish) (bracketed : Bracketed moves)
    (running : some id ∈ start.stack) : .entered (some id) ∉ moves := by
  induction path with
  | here => exact List.not_mem_nil
  | step move path allowed inductionHypothesis =>
      have before := bracketed_tail bracketed
      intro member
      rcases List.mem_cons.mp member with rfl | old
      · obtain ⟨_, -, -, idle⟩ := allowed
        have there : some id ∈ Graph.stack _ := path.stack_of_bracketed before ▸ List.mem_append_right _ running
        simp [isRunning, there] at idle
      · exact inductionHypothesis before old

/-- Sheltered moves subscribe nothing but the effects that they enter. -/
theorem subscribesNothing (path : Path start moves finish) (bracketed : Bracketed moves)
    (sheltered : Sheltered moves) (outside : .entered (some id) ∉ moves) : SubscribesNothing id start finish := by
  induction path with
  | here => exact .refl id start
  | @step rest graph move path _ inductionHypothesis =>
      have before := bracketed_tail bracketed
      have shelteredBefore : Sheltered rest := by
        cases move with
        | tracked dependency => exact sheltered.2
        | _ => exact sheltered
      refine (inductionHypothesis before shelteredBefore fun old =>
        outside (List.mem_cons_of_mem _ old)).trans (.moved graph move ?_)
      rintro dependency rfl active
      -- The innermost frame is one that the moves put on, and it is the one of the effect.
      have head : Sheltered ([] ++ .tracked dependency :: rest) := sheltered
      obtain ⟨frame, frames, entered⟩ := head.frame
      have stack := path.stack_of_bracketed before
      cases there : framesOf rest with
      | nil => exact sheltered.1 there
      | cons first others =>
          rw [there] at frames stack
          cases frames
          unfold active? at active
          rw [stack] at active
          exact outside (List.mem_cons_of_mem _ (active ▸ entered))

end Path

end LiveMarkup.Graph
