import LiveMarkup.Proofs.Accounts
import LiveMarkup.Proofs.Stories
import LiveMarkup.Proofs.Unfailing

/-
This file shows that all code of a world leaves a host at rest that was destroyed, until the host is asked
something, and that calm code counts the renders of a host right.
-/

namespace LiveMarkup

/-- These milestones tell of a render that came to its end. -/
def Milestone.tellsRender : Milestone → Bool
  | .answered _ => true
  | .emitted .update => true
  | _ => false

/-- So many renders were told of. -/
def Story.told (story : List Milestone) : Nat := story.countP Milestone.tellsRender

namespace World

variable {id : HostId} {world before after first second third : World} {newer older : List Milestone}
  {recent early late : List Deed} {renders : Nat}

/-- The container of a host is a node. -/
def Founded (id : HostId) (world : World) : Prop :=
  ∀ record, world.host? id = some record → record.container < world.forest.size

/-- A container that was a node stays one, and no host comes in unseen. -/
theorem Moored.founded (moored : before.Moored id after)
    (absent : before.host? id = none → after.host? id = none) (founded : before.Founded id) :
    after.Founded id := by
  intro record found
  cases known : before.host? id with
  | none => cases (absent known).symm.trans found
  | some old =>
      obtain ⟨newer, reached, container⟩ := moored.host old known
      cases found.symm.trans reached
      exact container ▸ Nat.lt_of_lt_of_le (founded old known) moored.nodes

/-- A host that was not mounted has not rendered, and its container was left as it was. -/
structure Still (id : HostId) (before : World) (recent : List Deed) (after : World) : Prop where
  mounted : (after.account id).mounted = false
  renders : (after.account id).renders = (before.account id).renders
  bindings : (after.account id).bindings = (before.account id).bindings ∨ (after.account id).bindings = {}
  unrendered : ∀ effects holders, .rendered id effects holders ∉ recent
  kept : before.ContainerKept id recent after

/-- A host was destroyed after so many renders. It has neither content nor bindings, it has not rendered
since, and its container is empty unless somebody else showed something there. -/
structure Gone (id : HostId) (founded : Prop) (renders : Nat) (recent : List Deed) (after : World) :
    Prop where
  host : (after.host? id).isSome = true
  mounted : (after.account id).mounted = false
  renders : (after.account id).renders = renders
  bindings : (after.account id).bindings = {}
  deeds : ∃ last holders first, recent = last ++ .destroyed id holders :: first ∧
    (∀ effects holders, .rendered id effects holders ∉ last) ∧
    (founded → ∀ record, after.host? id = some record →
      (∀ deed ∈ last, record.container ∉ deed.holders) → after.forest.children record.container = [])

/-- A host went through a part of its story while some deeds were done. -/
structure Course (id : HostId) (before : World) (newer : List Milestone) (recent : List Deed)
    (after : World) : Prop where
  nested : Story.Nested newer
  quiet : Story.Quiet ((before.account id).mounted = false) newer
  still : (before.account id).mounted = false → Story.Unasked newer → Still id before recent after
  gone : ∀ late renders earlier, newer = late ++ .destroyed renders :: earlier →
    Story.Complete earlier → Story.Unasked late → Gone id (before.Founded id) renders recent after

theorem Still.trans (moored : first.Moored id second) (before : Still id first early second)
    (after : Still id second late third) : Still id first (late ++ early) third where
  mounted := after.mounted
  renders := after.renders.trans before.renders
  bindings := by
    rcases after.bindings with same | none
    · rw [same]
      exact before.bindings
    · exact Or.inr none
  unrendered effects holders member := (List.mem_append.mp member).elim
    (after.unrendered effects holders) (before.unrendered effects holders)
  kept record found known away := by
    obtain ⟨newer, reached, container⟩ := moored.host record found
    rw [← before.kept record found known fun deed member => away deed (List.mem_append_right _ member)]
    refine container ▸ after.kept newer reached (container ▸ Nat.lt_of_lt_of_le known moored.nodes) ?_
    exact container ▸ fun deed member => away deed (List.mem_append_left _ member)

/-- What is gone stays so as long as the host is still. -/
theorem Gone.trans {founded : Prop} (gone : Gone id founded renders early second)
    (settled : founded → second.Founded id) (moored : second.Moored id third)
    (still : Still id second late third) : Gone id founded renders (late ++ early) third where
  host := by
    obtain ⟨record, found⟩ := Option.isSome_iff_exists.mp gone.host
    obtain ⟨newer, reached, -⟩ := moored.host record found
    rw [reached]
    rfl
  mounted := still.mounted
  renders := still.renders.trans gone.renders
  bindings := by
    rcases still.bindings with same | none
    · exact same.trans gone.bindings
    · exact none
  deeds := by
    obtain ⟨last, holders, first, rfl, unrendered, empty⟩ := gone.deeds
    refine ⟨late ++ last, holders, first, (List.append_assoc ..).symm, fun effects holders member =>
      (List.mem_append.mp member).elim (still.unrendered effects holders) (unrendered effects holders), ?_⟩
    intro known record reached away
    obtain ⟨old, found⟩ := Option.isSome_iff_exists.mp gone.host
    obtain ⟨newer, again, container⟩ := moored.host old found
    cases reached.symm.trans again
    rw [container] at away ⊢
    rw [still.kept old found (settled known old found)
      fun deed member => away deed (List.mem_append_left _ member)]
    exact empty known old found fun deed member => away deed (List.mem_append_right _ member)

/-- A host that was destroyed late was not concerned by what happened early. -/
theorem Gone.earlier {founded settled : Prop} (gone : Gone id settled renders late third)
    (settles : founded → settled) (early : List Deed) : Gone id founded renders (late ++ early) third where
  host := gone.host
  mounted := gone.mounted
  renders := gone.renders
  bindings := gone.bindings
  deeds := by
    obtain ⟨last, holders, first, rfl, unrendered, empty⟩ := gone.deeds
    exact ⟨last, holders, first ++ early, by simp, unrendered, fun known => empty (settles known)⟩

namespace Course

/-- A host whose account is carried over went through no part of its story. -/
theorem of_carried (account : (before.account id).Carried (after.account id))
    (unrendered : ∀ effects holders, .rendered id effects holders ∉ recent)
    (kept : before.ContainerKept id recent after) : Course id before [] recent after where
  nested := .nil
  quiet := .of_undrawn .nil
  still unmounted _ :=
    ⟨account.mounted.trans unmounted, account.renders, account.bindings, unrendered, kept⟩
  gone _ _ _ parts := absurd parts (by simp)

/-- A host that is busy, and was mounted or asked something, makes no promise. -/
theorem of_busy (nested : Story.Nested newer) (busy : Story.Busy newer)
    (guard : (before.account id).mounted = true ∨ ∃ rest call, newer = rest ++ [.asked call]) :
    Course id before newer recent after where
  nested := nested
  quiet newest late older parts silent unasked := by
    cases silent with
    | destroyed renders complete => exact absurd complete (busy _ renders _ parts)
    | start unmounted =>
        rw [List.append_nil] at parts
        rcases guard with mounted | ⟨rest, call, asked⟩
        · cases mounted.symm.trans unmounted
        · rcases List.eq_nil_or_concat late with rfl | ⟨front, last, same⟩
          · exact .nil
          · rw [List.concat_eq_append] at same
            rw [asked, same, ← List.append_assoc] at parts
            cases (List.append_inj' parts rfl).2
            exact absurd (same ▸ List.mem_append_right _ List.mem_cons_self) (unasked call)
  still unmounted unasked := by
    rcases guard with mounted | ⟨rest, call, asked⟩
    · cases mounted.symm.trans unmounted
    · exact absurd (asked ▸ List.mem_append_right _ List.mem_cons_self) (unasked call)
  gone late renders earlier parts complete := absurd complete (busy late renders earlier parts)

/-- A host that tells of something else than renders stays what it was. -/
theorem of_told {milestone : Milestone} (quiet : Story.Undrawn [milestone])
    (ends : milestone ≠ .ended) (stands : ∀ renders, milestone ≠ .destroyed renders)
    (account : (before.account id).Carried { after.account id with story := (before.account id).story })
    (unrendered : ∀ effects holders, .rendered id effects holders ∉ recent)
    (kept : before.ContainerKept id recent after) : Course id before [milestone] recent after where
  nested := .single (fun same => quiet.1 (same ▸ List.mem_cons_self)) ends
  quiet := .of_undrawn quiet
  still unmounted _ :=
    ⟨account.mounted.trans unmounted, account.renders, account.bindings, unrendered, kept⟩
  gone late renders earlier parts := by
    have member : .destroyed renders ∈ [milestone] := parts ▸ List.mem_append_right _ List.mem_cons_self
    exact absurd (List.mem_singleton.mp member).symm (stands renders)

theorem trans {newest : List Milestone} (moored : first.Moored id second) (last : second.Moored id third)
    (settled : first.Founded id → second.Founded id) (before : Course id first newer early second)
    (after : Course id second newest late third) :
    Course id first (newest ++ newer) (late ++ early) third where
  nested := after.nested.append before.nested
  quiet := by
    refine after.quiet.append before.quiet before.nested.complete fun since older parts silent unasked => ?_
    cases silent with
    | start unmounted =>
        rw [List.append_nil] at parts
        exact (before.still unmounted (parts ▸ unasked)).mounted
    | destroyed renders complete => exact (before.gone since renders _ parts complete unasked).mounted
  still unmounted unasked := by
    have middle := before.still unmounted unasked.right
    exact middle.trans moored (after.still middle.mounted unasked.left)
  gone since renders earlier parts complete unasked := by
    rcases List.append_eq_append_iff.mp parts with ⟨between, rfl, whole⟩ | ⟨between, same, rest⟩
    · have middle := before.gone between renders earlier whole complete unasked.right
      exact middle.trans settled last (after.still middle.mounted unasked.left)
    · cases between with
      | nil =>
          rw [List.append_nil] at same
          have middle := before.gone [] renders earlier rest.symm complete
            fun _ impossible => by cases impossible
          exact middle.trans settled last (after.still middle.mounted (same ▸ unasked))
      | cons milestone between =>
          obtain ⟨rfl, rfl⟩ := List.cons.inj (show _ = milestone :: (between ++ newer) from rest)
          exact (after.gone since renders between same (complete.of_append before.nested.complete)
            unasked).earlier settled early

end Course

/-- A world recounts what a host did since an earlier one. -/
structure Recounts (id : HostId) (before after : World) : Prop where
  moored : before.Moored id after
  founded : before.Founded id → after.Founded id
  course : ∃ newer recent, (after.account id).story = newer ++ (before.account id).story ∧
    after.deeds = recent ++ before.deeds ∧ Course id before newer recent after

/-- No panic was caught, and each render that came to its end was told of, except for some. -/
def Reckons (id : HostId) (untold : Nat) (before after : World) : Prop :=
  ∀ recent, after.deeds = recent ++ before.deeds → (∀ payload, .recovered payload ∉ recent) →
    (after.account id).renders + Story.told (before.account id).story =
      (before.account id).renders + Story.told (after.account id).story + untold

namespace Recounts

theorem deeds (recounts : before.Recounts id after) : ∃ recent, after.deeds = recent ++ before.deeds := by
  obtain ⟨_, recent, -, since, -⟩ := recounts.course
  exact ⟨recent, since⟩

theorem of_aloof (aloof : before.Aloof id after) : before.Recounts id after where
  moored := aloof.moored
  founded := aloof.moored.founded aloof.absent
  course := by
    obtain ⟨recent, since, unrendered, kept⟩ := aloof.deeds
    exact ⟨[], recent, aloof.account.story, since, .of_carried aloof.account unrendered kept⟩

theorem refl (id : HostId) (world : World) : world.Recounts id world := of_aloof (.refl id world)

theorem trans (before : first.Recounts id second) (after : second.Recounts id third) :
    first.Recounts id third where
  moored := before.moored.trans after.moored
  founded founded := after.founded (before.founded founded)
  course := by
    obtain ⟨newer, early, told, since, course⟩ := before.course
    obtain ⟨newest, late, toldLast, sinceLast, last⟩ := after.course
    exact ⟨newest ++ newer, late ++ early, by rw [toldLast, told, List.append_assoc],
      by rw [sinceLast, since, List.append_assoc],
      course.trans before.moored after.moored before.founded last⟩

end Recounts

namespace Reckons

variable {untold more : Nat}

theorem of_account (renders : (after.account id).renders = (before.account id).renders)
    (story : (after.account id).story = (before.account id).story) : before.Reckons id 0 after := by
  intro _ _ _
  rw [renders, story]
  rfl

theorem refl (id : HostId) (world : World) : world.Reckons id 0 world := of_account rfl rfl

theorem trans (early : ∃ recent, second.deeds = recent ++ first.deeds)
    (late : ∃ recent, third.deeds = recent ++ second.deeds) (before : first.Reckons id untold second)
    (after : second.Reckons id more third) : first.Reckons id (untold + more) third := by
  intro recent since uncaught
  obtain ⟨older, same⟩ := early
  obtain ⟨newer, appended⟩ := late
  have parts : recent = newer ++ older :=
    (List.append_left_inj _).mp (by rw [← since, appended, same, List.append_assoc])
  subst parts
  have one := before older same fun payload member => uncaught payload (List.mem_append_right _ member)
  have two := after newer appended fun payload member => uncaught payload (List.mem_append_left _ member)
  omega

end Reckons

end World

end LiveMarkup
