import LiveMarkup.Proofs.Accounting

/-
This file shows that a host tells of each render that comes to its end, and that its renders lie within
the parts of its story that it was asked for or was mounted in.
-/

namespace LiveMarkup

/-- A render that came to its end is untold until its caller tells of it. -/
def Story.untold : Except TemplateError Unit → Nat
  | .ok _ => 1
  | .error _ => 0

namespace World

variable {id : HostId} {world : World} {record : Host}

theorem Goes.refl (id : HostId) (world : World) : world.Goes id [] world :=
  ⟨.refl id world, fun founded => founded, rfl, [], rfl⟩

/-- A host that goes on with its story is there. -/
theorem Goes.there {newer : List Milestone} {after : World} (goes : world.Goes id newer after)
    (found : world.host? id = some record) : ∃ newer, after.host? id = some newer := by
  obtain ⟨last, reached, -⟩ := goes.moored.host record found
  exact ⟨last, reached⟩

/-- New content makes one more render. -/
theorem reckons_installed (found : world.host? id = some record) (host : Host) (bindings : Bindings)
    (fragment : NodeId) : world.Reckons id 1 (world.installed id host bindings fragment) := by
  have installed : (world.installed id host bindings fragment).host? id =
      some { record with bindings, renders := record.renders + 1 } := by
    unfold installed
    rw [host?_modifyHost, if_pos rfl]
    exact congrArg (Option.map _) found
  intro recent _ _
  rw [account_of_host installed, account_of_host found]
  exact Nat.add_right_comm record.renders 1 (Story.told record.story)

end World

namespace Recounting

open Live

variable {id : HostId} {run : Runner} {depth : Nat} {world start final : World} {record : Host}
  {told asked : List Milestone}

/-- A render that ended is counted once, if its template parsed. -/
theorem reckons_renderHost (elementary : Elementary (Conduct.recounting id) run)
    (found : world.host? id = some record) {outcome : Except TemplateError Unit} {rendered : World}
    (returned : Live.renderHost run id world = .ok outcome rendered) :
    world.Reckons id (Story.untold outcome) rendered := by
  unfold Live.renderHost at returned
  rw [get_bind, found] at returned
  obtain ⟨parse, planted, parses, returned⟩ := bind_eq_ok.mp returned
  have first := (elementary.parseTemplate _ world).calm parses
  cases parse with
  | error error =>
      cases returned
      exact first.2
  | ok fragment =>
      obtain ⟨_, after, renders, ends⟩ := bind_eq_ok.mp returned
      cases ends
      obtain ⟨_, attested, attests, renders⟩ := bind_eq_ok.mp renders
      obtain ⟨_, dropped, drops, renders⟩ := bind_eq_ok.mp renders
      obtain ⟨bindings, bound, binds, renders⟩ := bind_eq_ok.mp renders
      obtain ⟨_, installed, installs, renders⟩ := bind_eq_ok.mp renders
      obtain ⟨_, noted, notes, discards⟩ := bind_eq_ok.mp (get_bind _ _ ▸ renders)
      have second : (Conduct.recounting id).calm planted attested := by
        cases attests
        exact calm_attest (fun _ _ impossible => by cases impossible) planted
      have third : (Conduct.recounting id).calm attested dropped := (dropBindings id attested).calm drops
      have fourth := (elementary.bind _ _ dropped).1.calm binds
      have early : (Conduct.recounting id).calm world bound :=
        (Conduct.recounting id).trans ((Conduct.recounting id).trans first second)
          ((Conduct.recounting id).trans third fourth)
      have late : (Conduct.recounting id).calm installed rendered :=
        (Conduct.recounting id).trans ((elementary.note _).calm notes)
          ((elementary.called (.rendered id) rfl noted).discard.calm discards)
      obtain ⟨known, reached, -⟩ := early.1.moored.host record found
      cases installs
      have counted := World.reckons_installed reached record bindings fragment
      have since : ∃ recent, (bound.installed id record bindings fragment).deeds = recent ++ bound.deeds :=
        ⟨[_], rfl⟩
      obtain ⟨older, before⟩ := early.1.deeds
      have whole := (early.2.trans early.1.deeds since counted).trans
        ⟨_ :: older, congrArg (_ :: ·) before⟩ late.1.deeds late.2
      rwa [Nat.zero_add, Nat.add_zero] at whole

/-- Whatever happens in a render, it ends after it began. -/
theorem goes_drawHost (elementary : Elementary (Conduct.recounting id) run)
    (found : world.host? id = some record) : ∃ inner, Story.Nested inner ∧
      world.Goes id (.ended :: inner ++ [.began]) (worldAfter (Live.drawHost run id) world) := by
  have begins := World.Goes.tell .began found
  obtain ⟨inner, nested, goes⟩ := Follows.always_iff.mp (goes_renderHost elementary (world.tell id .began))
  obtain ⟨begun, there⟩ := begins.there found
  obtain ⟨last, reached⟩ := goes.there there
  have ends : worldAfter (Live.drawHost run id) world =
      (worldAfter (Live.renderHost run id) (world.tell id .began)).tell id .ended := by
    show worldAfter (Live.ending (Live.renderHost run id) _) (world.tell id .began) = _
    unfold worldAfter Live.ending
    cases Live.renderHost run id (world.tell id .began) <;> rfl
  refine ⟨inner, nested, ?_⟩
  rw [ends]
  exact (begins.trans goes).trans (.tell .ended reached)

theorem reckons_drawHost (elementary : Elementary (Conduct.recounting id) run)
    (found : world.host? id = some record) {outcome : Except TemplateError Unit} {drawn : World}
    (returned : Live.drawHost run id world = .ok outcome drawn) :
    world.Reckons id (Story.untold outcome) drawn := by
  obtain ⟨rendered, renders, rfl⟩ := Basic.drawHost_eq_ok.mp returned
  have begins := World.Goes.tell .began found
  obtain ⟨begun, there⟩ := begins.there found
  obtain ⟨inner, -, goes⟩ := (goes_renderHost elementary _).calm renders
  have began : world.Reckons id 0 (world.tell id .began) := World.reckons_tell rfl world
  have ended : rendered.Reckons id 0 (rendered.tell id .ended) := World.reckons_tell rfl rendered
  have early := began.trans begins.deeds goes.deeds (reckons_renderHost elementary there renders)
  have since : ∃ recent, (rendered.tell id .ended).deeds = recent ++ rendered.deeds := ⟨[], rfl⟩
  have whole := early.trans (begins.trans goes).deeds since ended
  rwa [Nat.zero_add, Nat.add_zero] at whole

/-- A host that was mounted, or was asked to render, may tell something plain after it rendered. -/
theorem recounts_drawn (elementary : Elementary (Conduct.recounting id) run)
    (found : world.host? id = some record) (early : start.Goes id asked world)
    (late : (worldAfter (Live.drawHost run id) world).Goes id told final)
    (asks : ∀ milestone ∈ asked, ∃ call, milestone = .asked call)
    (plain : ∀ milestone ∈ told, milestone ≠ .began ∧ milestone ≠ .ended ∧
      ∀ renders, milestone ≠ .destroyed renders)
    (guard : (start.account id).mounted = true ∨ ∃ rest call, asked = rest ++ [.asked call]) :
    start.Recounts id final := by
  obtain ⟨inner, nested, goes⟩ := goes_drawHost elementary found
  have whole : start.Goes id (told ++ .ended :: inner ++ .began :: asked) final := by
    simpa using early.trans (goes.trans late)
  exact .of_goes whole nested plain asks guard

/-- A host that does not exist does not render. -/
theorem drawHost_of_absent (absent : world.host? id = none) :
    Live.drawHost run id world = .ok (.ok ()) world := by
  refine Basic.drawHost_eq_ok.mpr ⟨world, ?_, (World.tell_of_absent absent).symm⟩
  rw [World.tell_of_absent absent]
  unfold Live.renderHost
  rw [get_bind, absent]
  rfl

variable (elementary : Elementary (Conduct.recounting id) (runTo depth))
include elementary

/-- Renders do not fail, so that they are calm if they do not break off. -/
theorem ends_drawn {A : Type} {next : Except TemplateError Unit → Live A} (found : world.host? id = some record)
    (early : start.Goes id asked world) (asks : ∀ milestone ∈ asked, ∃ call, milestone = .asked call)
    (guard : (start.account id).mounted = true ∨ ∃ rest call, asked = rest ++ [.asked call])
    (continues : ∀ outcome drawn, Live.drawHost (runTo depth) id world = .ok outcome drawn →
      (Conduct.recounting id).Ends start (next outcome drawn)) :
    (Conduct.recounting id).Ends start ((Live.drawHost (runTo depth) id >>= next) world) := by
  have drawn := recounts_drawn elementary found early (.refl id _) asks (by simp) guard
  have tasks := unfailing_runTo depth
  have unfailing := Unfailing.drawHost tasks.1 tasks.2 id world
  unfold worldAfter at drawn
  rw [bind_apply]
  cases outcome : Live.drawHost (runTo depth) id world with
  | ok value after => exact continues value after outcome
  | error stop after =>
      rw [outcome] at drawn
      cases stop with
      | failed error => exact absurd outcome (unfailing error after)
      | panicked payload => exact drawn
      | exhausted => exact drawn

/-- A host that tells of its render as it ended has counted right. -/
theorem calm_drawn {outcome : Except TemplateError Unit} {drawn : World} {milestone : Milestone}
    (found : world.host? id = some record)
    (early : start.Goes id asked world) (reckons : start.Reckons id 0 world)
    (asks : ∀ milestone ∈ asked, ∃ call, milestone = .asked call)
    (guard : (start.account id).mounted = true ∨ ∃ rest call, asked = rest ++ [.asked call])
    (returned : Live.drawHost (runTo depth) id world = .ok outcome drawn)
    (tells : Story.untold outcome = if milestone.tellsRender then 1 else 0)
    (plain : milestone ≠ .began ∧ milestone ≠ .ended ∧ ∀ renders, milestone ≠ .destroyed renders)
    (late : (drawn.tell id milestone).Goes id [] final)
    (renders : (final.account id).renders = ((drawn.tell id milestone).account id).renders) :
    (Conduct.recounting id).calm start final := by
  have drawing : worldAfter (Live.drawHost (runTo depth) id) world = drawn := by
    unfold worldAfter
    rw [returned]
  obtain ⟨inner, -, goes⟩ := goes_drawHost elementary found
  rw [drawing] at goes
  obtain ⟨last, there⟩ := goes.there found
  have telling := World.Goes.tell milestone there
  refine ⟨recounts_drawn elementary found early (drawing ▸ telling.trans late) asks ?_ guard, ?_⟩
  · intro other member
    rw [List.nil_append, List.mem_singleton] at member
    exact member ▸ plain
  · have counted := reckons.trans early.deeds goes.deeds (reckons_drawHost elementary found returned)
    rw [Nat.zero_add, tells] at counted
    have told : start.Reckons id 0 (drawn.tell id milestone) := by
      cases tellsRender : milestone.tellsRender with
      | true =>
          rw [tellsRender] at counted
          exact counted.tell tellsRender there
      | false =>
          rw [tellsRender] at counted
          have silent : drawn.Reckons id 0 (drawn.tell id milestone) := World.reckons_tell tellsRender drawn
          exact counted.trans (early.trans goes).deeds telling.deeds silent
    exact told.trans ((early.trans goes).trans telling).deeds late.deeds (.of_account renders late.story)

end Recounting

end LiveMarkup
