import LiveMarkup.World.Basic

/-
This file reads stories of hosts: whether a render is in progress, and from when on a host that nobody
asked anything has to be quiet.
-/

namespace LiveMarkup.Story

/-- No render is in progress that began in this part of a story. -/
def Complete (story : List Milestone) : Prop := story.count .began = story.count .ended

/-- Nobody asked the host to mount or to render. -/
def Unasked (story : List Milestone) : Prop := ∀ call, .asked call ∉ story

/-- The host neither rendered nor told anybody of a render. -/
def Undrawn (story : List Milestone) : Prop := .began ∉ story ∧ .emitted .update ∉ story

/-- Renders end in the reverse order in which they began. -/
structure Nested (story : List Milestone) : Prop where
  complete : Complete story
  within : ∀ late early, story = late ++ early → early.count .ended ≤ early.count .began

/-- The latest milestone of a story destroyed the host while no render was in progress, or the story has not
begun, and the host was not mounted. -/
inductive Silent (unmounted : Prop) : List Milestone → Prop where
  | start : unmounted → Silent unmounted []
  | destroyed (renders : Nat) {earlier : List Milestone} :
      Complete earlier → Silent unmounted (.destroyed renders :: earlier)

/-- From a silent moment on, the host is quiet until it is asked something. -/
def Quiet (unmounted : Prop) (story : List Milestone) : Prop :=
  ∀ newest late older, story = newest ++ late ++ older → Silent unmounted older → Unasked late →
    Undrawn late

/-- Whenever the host was destroyed, a render was in progress. -/
def Busy (story : List Milestone) : Prop :=
  ∀ late renders early, story = late ++ .destroyed renders :: early → ¬ Complete early

variable {unmounted : Prop} {story earlier later inner : List Milestone}

theorem Unasked.left (unasked : Unasked (later ++ earlier)) : Unasked later :=
  fun call member => unasked call (List.mem_append_left _ member)

theorem Unasked.right (unasked : Unasked (later ++ earlier)) : Unasked earlier :=
  fun call member => unasked call (List.mem_append_right _ member)

theorem Undrawn.nil : Undrawn [] := ⟨List.not_mem_nil, List.not_mem_nil⟩

theorem Undrawn.append (late : Undrawn later) (early : Undrawn earlier) : Undrawn (later ++ earlier) :=
  ⟨fun member => (List.mem_append.mp member).elim late.1 early.1,
    fun member => (List.mem_append.mp member).elim late.2 early.2⟩

theorem Complete.append (late : Complete later) (early : Complete earlier) :
    Complete (later ++ earlier) := by
  unfold Complete at *
  rw [List.count_append, List.count_append, late, early]

/-- What came before a complete part does not matter. -/
theorem Complete.of_append (whole : Complete (later ++ earlier)) (early : Complete earlier) :
    Complete later := by
  unfold Complete at *
  rw [List.count_append, List.count_append, early] at whole
  exact Nat.add_right_cancel whole

namespace Nested

theorem nil : Nested [] where
  complete := rfl
  within late early parts := by
    obtain ⟨-, rfl⟩ := List.append_eq_nil_iff.mp parts.symm
    exact Nat.le_refl _

theorem append (late : Nested later) (early : Nested earlier) : Nested (later ++ earlier) where
  complete := late.complete.append early.complete
  within newest older parts := by
    rcases List.append_eq_append_iff.mp parts with ⟨middle, -, rest⟩ | ⟨middle, rest, rfl⟩
    · exact early.within middle older rest
    · have first := late.within newest middle rest
      have second : earlier.count .began = earlier.count .ended := early.complete
      rw [List.count_append, List.count_append, second]
      exact Nat.add_le_add_right first _

/-- A milestone at which no render begins or ends. -/
theorem single {milestone : Milestone} (begins : milestone ≠ .began) (ends : milestone ≠ .ended) :
    Nested [milestone] where
  complete := by
    unfold Complete
    rw [List.count_singleton, List.count_singleton, if_neg (by simpa using begins),
      if_neg (by simpa using ends)]
  within late early parts := by
    have none : early.count .ended = 0 := by
      refine List.count_eq_zero.mpr fun member => ends ?_
      have known := List.mem_append_right late member
      rw [← parts] at known
      exact (List.mem_singleton.mp known).symm
    exact none ▸ Nat.zero_le _

/-- No render begins or ends in such a part of a story. -/
theorem of_plain (plain : ∀ milestone ∈ story, milestone ≠ .began ∧ milestone ≠ .ended) : Nested story := by
  induction story with
  | nil => exact nil
  | cons milestone rest inductionHypothesis =>
      obtain ⟨begins, ends⟩ := plain milestone List.mem_cons_self
      have others := inductionHypothesis fun other member => plain other (List.mem_cons_of_mem _ member)
      exact (single begins ends).append others

/-- What happens in a render lies between its beginning and its end. -/
theorem draw (nested : Nested inner) : Nested (.ended :: inner ++ [.began]) where
  complete := by
    have same : inner.count .began = inner.count .ended := nested.complete
    unfold Complete
    simp [same]
  within late early parts := by
    cases late with
    | nil =>
        have same : inner.count .began = inner.count .ended := nested.complete
        cases parts
        simp [same]
    | cons first rest =>
        obtain ⟨-, parts⟩ := List.cons.inj parts
        rcases List.append_eq_append_iff.mp parts with ⟨middle, -, rest⟩ | ⟨middle, within, rfl⟩
        · cases middle with
          | nil =>
              cases rest
              decide
          | cons _ _ =>
              obtain ⟨-, empty⟩ := List.cons.inj rest
              obtain ⟨-, rfl⟩ := List.append_eq_nil_iff.mp empty.symm
              exact Nat.le_refl _
        · have bound := nested.within _ middle within
          rw [List.count_append, List.count_append]
          exact Nat.add_le_add bound (by decide)

end Nested

/-- A story is quiet if the host does not render in it. -/
theorem Quiet.of_undrawn (undrawn : Undrawn story) : Quiet unmounted story := by
  intro newest late older parts _ _
  have subset : ∀ milestone ∈ late, milestone ∈ story := fun milestone member =>
    parts ▸ List.mem_append_left _ (List.mem_append_right _ member)
  exact ⟨fun member => undrawn.1 (subset _ member), fun member => undrawn.2 (subset _ member)⟩

/-- Quiet stories follow each other if a host that should be quiet is handed over unmounted. -/
theorem Quiet.append {handed : Prop} (late : Quiet handed later) (early : Quiet unmounted earlier)
    (complete : Complete earlier)
    (hands : ∀ late older, earlier = late ++ older → Silent unmounted older → Unasked late → handed) :
    Quiet unmounted (later ++ earlier) := by
  intro newest middle older parts silent unasked
  have inside : ∀ early, earlier = early ++ older → newest ++ middle = later ++ early →
      Undrawn middle := by
    intro before whole split
    rcases List.append_eq_append_iff.mp split with ⟨rest, rfl, rfl⟩ | ⟨rest, -, rfl⟩
    · refine Undrawn.append ?_ (early [] before older whole silent unasked.right)
      exact late newest rest [] (List.append_nil _).symm
        (.start (hands before older whole silent unasked.right)) unasked.left
    · exact early rest middle older whole silent unasked
  rcases List.append_eq_append_iff.mp parts with ⟨before, same, whole⟩ | ⟨before, same, rest⟩
  · exact inside before whole same
  · cases before with
    | nil =>
        refine inside [] rest.symm ?_
        rw [List.append_nil] at same ⊢
        exact same.symm
    | cons milestone before =>
        cases silent with
        | start _ => cases rest
        | destroyed renders finished =>
            cases rest
            exact late newest middle (.destroyed renders :: before) same
              (.destroyed renders (finished.of_append complete)) unasked

/-- A host that is destroyed in a render is destroyed while the render is in progress. -/
theorem busy_draw {before after : List Milestone} (nested : Nested inner)
    (late : ∀ renders, .destroyed renders ∉ after)
    (early : ∀ milestone ∈ before, ∃ call, milestone = .asked call) :
    Busy (after ++ .ended :: inner ++ .began :: before) := by
  have none : ∀ milestone, (∀ call, milestone ≠ .asked call) → before.count milestone = 0 :=
    fun milestone other => List.count_eq_zero.mpr fun member => by
      obtain ⟨call, same⟩ := early milestone member
      exact other call same
  have outside : ∀ renders, .destroyed renders ∉ after ++ [.ended] := fun renders member => by
    rcases List.mem_append.mp member with inside | last
    · exact late renders inside
    · cases List.mem_singleton.mp last
  have within : ∀ newest renders older, inner ++ .began :: before = newest ++ .destroyed renders :: older →
      ¬ Complete older := by
    intro newest renders older parts complete
    rcases List.append_eq_append_iff.mp parts with ⟨middle, -, rest⟩ | ⟨middle, same, rest⟩
    · cases middle with
      | nil => cases rest
      | cons first middle =>
          obtain ⟨-, rest⟩ := List.cons.inj rest
          obtain ⟨call, impossible⟩ := early (.destroyed renders)
            (rest ▸ List.mem_append_right _ List.mem_cons_self)
          cases impossible
    · cases middle with
      | nil => cases rest
      | cons first middle =>
          obtain ⟨rfl, rfl⟩ := List.cons.inj (show _ = first :: (middle ++ .began :: before) from rest)
          have bound := nested.within (newest ++ [.destroyed renders]) middle
            (by rw [same, List.append_assoc]; rfl)
          unfold Complete at complete
          rw [List.count_append, List.count_append, List.count_cons_self,
            List.count_cons_of_ne (by decide), none _ (fun _ impossible => by cases impossible),
            none _ (fun _ impossible => by cases impossible)] at complete
          omega
  intro newest renders older parts
  have split : (after ++ [.ended]) ++ (inner ++ .began :: before) =
      newest ++ .destroyed renders :: older := by
    rw [← parts]
    simp
  rcases List.append_eq_append_iff.mp split with ⟨middle, -, rest⟩ | ⟨middle, same, rest⟩
  · exact within middle renders older rest
  · cases middle with
    | nil => exact within [] renders older rest.symm
    | cons first middle =>
        cases rest
        exact absurd (same ▸ List.mem_append_right _ List.mem_cons_self) (outside renders)

end LiveMarkup.Story
