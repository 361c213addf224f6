import LiveMarkup.Proofs.Telling

/-
This file shows that destruction is final. A host that is destroyed while it does not render is left
without content, and does nothing until it is asked to mount or to render.
-/

namespace LiveMarkup

namespace World

variable {id : HostId} {before after world : World} {renders : Nat} {recent : List Deed}

/-- A host stands without content and bindings after so many renders. It is not mounted and did not render
in these deeds, and its container is empty unless one of them showed something there. -/
structure Deserted (id : HostId) (renders : Nat) (since : List Deed) (world : World) : Prop where
  host : ∃ record, world.host? id = some record ∧ record.mounted = false ∧ record.bindings = {} ∧
    record.renders = renders ∧ ((∀ deed ∈ since, record.container ∉ deed.holders) →
      world.forest.children record.container = [])
  unrendered : ∀ effects holders, .rendered id effects holders ∉ since

/-- A host stays deserted as long as it is still. -/
theorem Still.deserted (still : Still id before recent after) (moored : before.Moored id after)
    (founded : before.Founded id) (deserted : before.Deserted id renders []) :
    after.Deserted id renders recent := by
  obtain ⟨record, found, mounted, bindings, rendered, empty⟩ := deserted.host
  obtain ⟨newer, reached, container⟩ := moored.host record found
  obtain ⟨unmounted, same, unbound, unrendered, kept⟩ := still
  rw [account_of_host reached] at unmounted same unbound
  rw [account_of_host found] at same unbound
  refine ⟨⟨newer, reached, unmounted, ?_, same.trans rendered, fun away => ?_⟩, unrendered⟩
  · exact unbound.elim (fun kept => kept.trans bindings) fun none => none
  · rw [container] at away ⊢
    rw [kept record found (founded record found) away]
    exact empty fun _ impossible => by cases impossible

/-- What is gone is deserted. -/
theorem Gone.deserted (gone : Gone id True renders recent after) :
    ∃ since holders earlier, recent = since ++ .destroyed id holders :: earlier ∧
      after.Deserted id renders since := by
  obtain ⟨since, holders, earlier, parts, unrendered, empty⟩ := gone.deeds
  obtain ⟨record, found⟩ := Option.isSome_iff_exists.mp gone.host
  have mounted := gone.mounted
  have rendered := gone.renders
  have unbound := gone.bindings
  rw [account_of_host found] at mounted rendered unbound
  exact ⟨since, holders, earlier, parts,
    ⟨record, found, mounted, unbound, rendered, empty trivial record found⟩, unrendered⟩

/-- A host that was just removed without bindings is deserted. -/
theorem deserted_removed {record : Host} (found : world.host? id = some record)
    (unbound : record.bindings = {}) : (world.removed id record).Deserted id record.renders [] where
  host := by
    refine ⟨{ record with mounted := false, story := .destroyed record.renders :: record.story }, ?_, rfl,
      unbound, rfl, fun _ => Forest.children_clear _ _⟩
    unfold removed
    rw [host?_modifyHost, if_pos rfl]
    exact congrArg (Option.map _) found
  unrendered _ _ := List.not_mem_nil

end World

namespace Recounting

open Live

variable {id : HostId} {depth : Nat} {world destroyed : World}

/-- All code recounts what a host did, however it ends. -/
theorem recounts {A : Type} {action : Live A} (follows : Follows (Conduct.recounting id) action world) :
    world.Recounts id (worldAfter action world) := by
  have always : Follows (.always (World.Recounts id) (World.Recounts.refl id) World.Recounts.trans)
      action world := follows.mono (fun _ calm => calm.1) fun _ broken => broken
  exact Follows.always_iff.mp always

theorem recounts_step (world : World) (command : Command) :
    world.Recounts id (world.step command).2 :=
  (World.step_follows (lawful_recounting id) (fun _ => calm_of_same rfl rfl rfl) world command).1

/-- A play recounts what a host did in all its steps. -/
theorem recounts_play (world : World) (commands : List Command) :
    world.Recounts id (world.play commands).2 := by
  induction commands generalizing world with
  | nil => exact .refl id world
  | cons command rest inductionHypothesis =>
      rw [World.play_cons]
      exact (recounts_step world command).trans (inductionHypothesis _)

/-- The containers of hosts are nodes whenever a play has come to its end. -/
theorem founded_play (id : HostId) (commands : List Command) :
    (World.empty.play commands).2.Founded id :=
  (recounts_play World.empty commands).founded fun _ impossible => by cases impossible

/-- A host that was destroyed is deserted, and its story tells so. -/
theorem deserted_of_destroyHost (known : (world.host? id).isSome = true)
    (returned : Live.destroyHost (runTo depth) id world = .ok () destroyed) :
    ∃ renders between, (destroyed.account id).story =
        .destroyed renders :: between ++ (world.account id).story ∧
      Story.Nested between ∧ destroyed.Deserted id renders [] := by
  have basic := (lawful_recounting id depth).toBasic
  obtain ⟨_, emitted, emits, returned⟩ := bind_eq_ok.mp returned
  have first := (basic.emitsHost id (fun impossible => by cases impossible)).calm emits
  obtain ⟨old, there⟩ := Option.isSome_iff_exists.mp known
  obtain ⟨record, found, -⟩ := first.1.moored.host old there
  have drops : Follows (Conduct.recounting id) (Live.dropBindings id) emitted := dropBindings id emitted
  have second := drops.calm (World.dropBindings_eq found)
  obtain ⟨newer, reached, -⟩ := second.1.moored.host record found
  have unbound : newer.bindings = {} := by
    rw [← account_emptied emitted id found, World.account_of_host reached]
    rfl
  rw [bind_of_ok (World.dropBindings_eq found), get_bind, reached] at returned
  cases returned
  have deserted := World.deserted_removed reached unbound
  obtain ⟨told, _, toldFirst, -, course⟩ := first.1.course
  obtain ⟨further, _, toldSecond, -, course'⟩ := second.1.course
  refine ⟨newer.renders, further ++ told, ?_, course'.nested.append course.nested,
    deserted.host, deserted.unrendered⟩
  have same : ((emitted.emptied id record).account id).story = newer.story := by
    rw [World.account_of_host reached]
    rfl
  have changed : ((emitted.emptied id record).removed id newer).host? id =
      some { newer with mounted := false, story := .destroyed newer.renders :: newer.story } := by
    unfold World.removed
    rw [World.host?_modifyHost, if_pos rfl]
    exact congrArg (Option.map _) reached
  show (((emitted.emptied id record).removed id newer).account id).story = _
  rw [World.account_of_host changed]
  show Milestone.destroyed newer.renders :: newer.story = _
  rw [← same, toldSecond, toldFirst, List.cons_append, List.append_assoc]

end Recounting

open Live in
/-- Once a host is destroyed, it is not mounted, has no bindings, and its container is empty. No script
that follows makes it render or announce an update, as long as it is not asked to mount or to render. The
same holds until the end of a play since a moment when the host was destroyed while it did not render, for
all code that was in progress at that moment. What others show in the container is no matter of the host. -/
theorem destroyed_hosts_stay_deserted (id : HostId) :
    (∀ (depth : Nat) (world destroyed : World), world.Founded id → (world.host? id).isSome = true →
      destroyHost (runTo depth) id world = .ok () destroyed →
      ∃ renders between, (destroyed.account id).story =
          .destroyed renders :: between ++ (world.account id).story ∧
        Story.Nested between ∧ destroyed.Deserted id renders [] ∧
        ∀ (deeper : Nat) arguments value script,
          let final := worldAfter (performAll (runTo deeper) arguments value script) destroyed
          ∃ newer since, (final.account id).story = newer ++ (destroyed.account id).story ∧
            final.deeds = since ++ destroyed.deeds ∧
            (Story.Unasked newer → Story.Undrawn newer ∧ final.Deserted id renders since)) ∧
    ∀ (commands : List Command) newest late renders early,
      let final := (World.empty.play commands).2
      (final.account id).story = newest ++ late ++ .destroyed renders :: early →
        Story.Complete early → Story.Unasked late → Story.Undrawn late ∧
          (newest = [] → ∃ since holders earlier,
            final.deeds = since ++ .destroyed id holders :: earlier ∧ final.Deserted id renders since) := by
  refine ⟨fun depth world destroyed founded known returned => ?_, fun commands newest late renders early => ?_⟩
  · obtain ⟨renders, between, story, nested, deserted⟩ :=
      Recounting.deserted_of_destroyHost known returned
    refine ⟨renders, between, story, nested, deserted, fun deeper arguments value script => ?_⟩
    have destroys : world.Recounts id destroyed := by
      have follows := Recounting.destroyHost (lawful_recounting id depth).toBasic world
      exact (follows.calm returned).1
    have later := Recounting.recounts
      ((lawful_recounting id deeper).performAll arguments value destroyed script)
    obtain ⟨newer, since, told, deeds, course⟩ := later.course
    refine ⟨newer, since, told, deeds, fun unasked => ?_⟩
    obtain ⟨record, found, mounted, -⟩ := deserted.host
    have unmounted : (destroyed.account id).mounted = false := by
      rw [World.account_of_host found]
      exact mounted
    have undrawn := course.quiet [] newer [] (List.append_nil newer).symm (.start unmounted) unasked
    exact ⟨undrawn, (course.still unmounted unasked).deserted later.moored (destroys.founded founded) deserted⟩
  · intro final story complete unasked
    obtain ⟨newer, since, told, deeds, course⟩ :=
      (Recounting.recounts_play World.empty commands : World.empty.Recounts id final).course
    have whole : newer = newest ++ late ++ .destroyed renders :: early := by
      rw [← story, told]
      exact (List.append_nil newer).symm
    refine ⟨course.quiet newest late _ whole (.destroyed renders complete) unasked, ?_⟩
    rintro rfl
    have gone := course.gone late renders early whole complete unasked
    have founded : World.empty.Founded id := fun _ impossible => by cases impossible
    obtain ⟨last, holders, earlier, parts, deserted⟩ := (gone.earlier (fun _ : True => founded) []).deserted
    rw [List.append_nil] at parts
    refine ⟨last, holders, earlier, ?_, deserted⟩
    rw [deeds, ← parts]
    exact List.append_nil since

/-- A host is mounted, and writes its state when it is destroyed. -/
def leavingSteps : List Command :=
  [.node (.parse "doc" "<div id=\"app\"></div>"),
    .createHost "doc"
      { name := "h", selector := "#app", initial := .object [("n", .integer 0)]
        template := "<p>{{ n }}</p>", methods := []
        hooks := [(.destroy, [.state (.set "h" "n" (.integer 1))])], rendered := none },
    .host (.mount "h")]

/-- The write of the hook renders once more, and the write after it does not. -/
theorem leavingHost_deserted :
    (∃ destroyed renders, Live.destroyHost (Live.runTo 9) 0 (World.empty.play leavingSteps).2 =
      .ok () destroyed ∧ destroyed.Deserted 0 renders []) ∧
    let final := (World.empty.play
      (leavingSteps ++ [.host (.destroy "h"), .state (.set "h" "n" (.integer 2))])).2
    ∃ since holders earlier, final.deeds = since ++ .destroyed 0 holders :: earlier ∧
      final.Deserted 0 2 since := by
  obtain ⟨leaves, stays⟩ := destroyed_hosts_stay_deserted 0
  constructor
  · have known : ((World.empty.play leavingSteps).2.host? 0).isSome = true := by decide +kernel
    have returns : (match Live.destroyHost (Live.runTo 9) 0 (World.empty.play leavingSteps).2 with
        | .ok _ _ => true
        | .error _ _ => false) = true := by decide +kernel
    split at returns
    · rename_i destroyed returned
      obtain ⟨renders, _, -, -, deserted, -⟩ :=
        leaves 9 _ destroyed (Recounting.founded_play 0 leavingSteps) known returned
      exact ⟨destroyed, renders, returned, deserted⟩
    · cases returns
  · have story : ((World.empty.play (leavingSteps ++
        [.host (.destroy "h"), .state (.set "h" "n" (.integer 2))])).2.account 0).story =
        [.destroyed 2, .emitted .update, .ended, .began, .emitted .destroy, .emitted .mount,
          .answered .mount, .ended, .began, .asked .mount, .emitted .init] := by decide +kernel
    exact (stays _ [] [] 2 _ story rfl fun _ impossible => by cases impossible).2 rfl

/-- Two hosts share a container. One of them is destroyed. -/
def sharedContainer : World :=
  (World.empty.play [.node (.parse "doc" "<div id=\"app\"></div>"),
    .createHost "doc" { name := "a", selector := "#app", initial := .object [("n", .integer 0)]
                        template := "<p>{{ n }}</p>", methods := [], hooks := [], rendered := none },
    .createHost "doc" { name := "b", selector := "#app", initial := .object [("n", .integer 0)]
                        template := "<b>{{ n }}</b>", methods := [], hooks := [], rendered := none },
    .host (.mount "a"), .host (.mount "b"), .host (.destroy "a")]).2

/-- A write makes the other host render, so that the container of the host that was destroyed has a child
again, although nobody asked that host anything. -/
theorem sharedContainer_refills :
    (sharedContainer.host? 0).map (fun host => (host.container, host.mounted)) = some (1, false) ∧
    sharedContainer.forest.children 1 = [] ∧
    let after := (sharedContainer.play [.state (.set "b" "n" (.integer 1))]).2
    (after.account 0).story = (sharedContainer.account 0).story ∧ after.forest.children 1 ≠ [] := by
  decide +kernel

end LiveMarkup
