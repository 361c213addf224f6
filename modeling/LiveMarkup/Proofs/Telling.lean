import LiveMarkup.Proofs.Drawing

/-
This file shows that a host tells of everything that it does itself: it answers or refuses what it is
asked, tells of its own renders, and is destroyed without bindings.
-/

namespace LiveMarkup

namespace Recounting

open Live

variable {id : HostId} {run : Runner} {depth : Nat} {origin world : World} {record : Host}

/-- A host that does not exist tells nothing. -/
theorem calm_tell_of_absent (absent : world.host? id = none) (milestone : Milestone) :
    (Conduct.recounting id).calm world (world.tell id milestone) := by
  rw [World.tell_of_absent absent]
  exact (Conduct.recounting id).refl world

/-- An emission may be told together with what came before it. -/
theorem ends_emitHost (basic : Basic (Conduct.recounting id) run) {kind : HookKind}
    (found : world.host? id = some record)
    (calm : (Conduct.recounting id).calm origin (world.tell id (.emitted kind))) :
    (Conduct.recounting id).Ends origin (Live.emitHost run id kind world) := by
  have rest : Follows (Conduct.recounting id) (do
      let failures ← Live.emitHooks run record.hooks kind
      if 0 < failures then Live.note (.hooksFailed failures kind record.component.selector))
      (world.tell id (.emitted kind)) := by
    refine (basic.emitHooks _ kind).bind fun failures after _ => ?_
    split
    · exact basic.note _
    · exact Follows.pure _
  have same : Live.emitHost run id kind world = (do
      let failures ← Live.emitHooks run record.hooks kind
      if 0 < failures then Live.note (.hooksFailed failures kind record.component.selector))
      (world.tell id (.emitted kind)) := by
    unfold Live.emitHost
    rw [get_bind, found]
    rfl
  exact same ▸ Conduct.Ends.after calm rest

section

variable (elementary : Elementary (Conduct.recounting id) (runTo depth))
include elementary

/-- A host that is there is still there after it rendered. -/
theorem host?_of_drawHost (found : world.host? id = some record) {outcome : Except TemplateError Unit}
    {drawn : World} (returned : Live.drawHost (runTo depth) id world = .ok outcome drawn) :
    ∃ last, drawn.host? id = some last := by
  obtain ⟨inner, -, goes⟩ := goes_drawHost elementary found
  unfold worldAfter at goes
  rw [returned] at goes
  exact goes.there found

/-- A host that is asked something renders. -/
theorem ends_asked {A : Type} {call : Call} {next : Except TemplateError Unit → Live A}
    (found : world.host? id = some record)
    (continues : ∀ outcome drawn,
      Live.drawHost (runTo depth) id (world.tell id (.asked call)) = .ok outcome drawn →
        (Conduct.recounting id).Ends world (next outcome drawn)) :
    (Conduct.recounting id).Ends world
      ((Live.drawHost (runTo depth) id >>= next) (world.tell id (.asked call))) := by
  have goes := World.Goes.tell (.asked call) found
  obtain ⟨asked, there⟩ := goes.there found
  have asks : ∀ milestone ∈ [Milestone.asked call], ∃ call, milestone = .asked call :=
    fun _ member => ⟨call, List.mem_singleton.mp member⟩
  exact ends_drawn elementary there goes asks (Or.inr ⟨[], call, rfl⟩) continues

/-- A host that tells how the render went that it was asked for has counted right. -/
theorem calm_asked {call : Call} {milestone : Milestone} {outcome : Except TemplateError Unit}
    {drawn final : World} (found : world.host? id = some record)
    (returned : Live.drawHost (runTo depth) id (world.tell id (.asked call)) = .ok outcome drawn)
    (tells : Story.untold outcome = if milestone.tellsRender then 1 else 0)
    (plain : milestone ≠ .began ∧ milestone ≠ .ended ∧ ∀ renders, milestone ≠ .destroyed renders)
    (late : (drawn.tell id milestone).Goes id [] final)
    (renders : (final.account id).renders = ((drawn.tell id milestone).account id).renders) :
    (Conduct.recounting id).calm world final := by
  have goes := World.Goes.tell (.asked call) found
  obtain ⟨asked, there⟩ := goes.there found
  have asks : ∀ milestone ∈ [Milestone.asked call], ∃ call, milestone = .asked call :=
    fun _ member => ⟨call, List.mem_singleton.mp member⟩
  exact calm_drawn elementary there goes (World.reckons_tell rfl world) asks (Or.inr ⟨[], call, rfl⟩)
    returned tells plain late renders

/-- A host that is asked to render answers or refuses. -/
theorem renderAsked (world : World) :
    Follows (Conduct.recounting id) (Live.renderAsked (runTo depth) id) world := by
  show (Conduct.recounting id).Ends world
    ((Live.drawHost (runTo depth) id >>= _) (world.tell id (.asked .render)))
  cases found : world.host? id with
  | none =>
      rw [World.tell_of_absent found, bind_of_ok (drawHost_of_absent found)]
      exact (Follows.modifies (calm_tell_of_absent found _)).bind fun _ _ _ => Follows.pure _
  | some record =>
      refine ends_asked elementary found fun outcome drawn returned => ?_
      cases outcome with
      | error error =>
          have calm : (Conduct.recounting id).calm world (drawn.tell id .refused) :=
            calm_asked elementary found returned rfl (by simp) (.refl id _) rfl
          exact calm
      | ok _ =>
          have calm : (Conduct.recounting id).calm world (drawn.tell id (.answered .render)) :=
            calm_asked elementary found returned rfl (by simp) (.refl id _) rfl
          exact calm

/-- A host that is mounted tells of its first render before it counts as mounted. -/
theorem mountHost (world : World) :
    Follows (Conduct.recounting id) (Live.mountHost (runTo depth) id) world := by
  have announces : ∀ after : World, Follows (Conduct.recounting id) (do
      let selector := ((← get).host? id).elim "" fun host => host.component.selector
      Live.note (.hostMounted selector)
      Live.emitHost (runTo depth) id .mount
      pure (Except.ok () : Except TemplateError Unit)) after := fun after =>
    Follows.asks ((elementary.note _).bind fun _ noted _ =>
      (elementary.emitsHost id (fun impossible => by cases impossible)).bind fun _ _ _ => Follows.pure _)
  show (Conduct.recounting id).Ends world
    ((Live.drawHost (runTo depth) id >>= _) (world.tell id (.asked .mount)))
  cases found : world.host? id with
  | none =>
      rw [World.tell_of_absent found, bind_of_ok (drawHost_of_absent found)]
      refine (Follows.modifies (calm_tell_of_absent found (.answered .mount))).bind fun _ after told => ?_
      have same : after = world := by
        cases told
        exact World.tell_of_absent found
      have mounts : Follows (Conduct.recounting id)
          (Live.modifyHost id fun host => { host with mounted := true }) world := by
        refine Follows.modifies ?_
        rw [World.modifyHost_of_absent found]
        exact (Conduct.recounting id).refl world
      exact same ▸ mounts.bind fun _ after _ => announces after
  | some record =>
      refine ends_asked elementary found fun outcome drawn returned => ?_
      cases outcome with
      | error error =>
          have calm : (Conduct.recounting id).calm world (drawn.tell id .refused) :=
            calm_asked elementary found returned rfl (by simp) (.refl id _) rfl
          exact calm
      | ok _ =>
          let answered := drawn.tell id (.answered .mount)
          let mounted := answered.modifyHost id fun host => { host with mounted := true }
          obtain ⟨_, there⟩ := (World.Goes.tell (.asked .mount) found).there found
          obtain ⟨last, reached⟩ := host?_of_drawHost elementary there returned
          obtain ⟨told, known⟩ := (World.Goes.tell (.answered .mount) reached).there reached
          have mounting : answered.Goes id [] mounted := by
            refine .modifyHost answered ?_ ?_ known
            · exact fun _ => rfl
            · exact fun _ => rfl
          have changed : mounted.host? id = some { told with mounted := true } := by
            show (answered.modifyHost id _).host? id = _
            rw [World.host?_modifyHost, if_pos rfl, known]
            rfl
          have renders : (mounted.account id).renders = (answered.account id).renders := by
            rw [World.account_of_host changed, World.account_of_host known]
            rfl
          have calm : (Conduct.recounting id).calm world mounted :=
            calm_asked elementary found returned rfl (by simp) mounting renders
          exact Conduct.Ends.after calm (announces mounted)

/-- A mounted host tells of a render that its state causes by calling its hooks. -/
theorem rerender (world : World) :
    Follows (Conduct.recounting id) (Live.rerender (runTo depth) id) world := by
  refine elementary.operation (Follows.asks ?_)
  split
  · exact Follows.pure _
  · rename_i host found
    split
    · rename_i alive
      refine (elementary.holds _ world).bind fun _ held holds => ?_
      have known : held.host? id = some host := by
        cases holds
        dsimp only
        split <;> exact found
      refine (elementary.tracksHost id host _ held known alive).bind fun _ tracked tracks => ?_
      split
      · rename_i mounted
        have there : tracked.host? id = some host := by
          cases tracks
          exact known
        have guard : (tracked.account id).mounted = true ∨
            ∃ rest call, ([] : List Milestone) = rest ++ [.asked call] := by
          refine Or.inl ?_
          rw [World.account_of_host there]
          exact mounted
        have asks : ∀ milestone ∈ ([] : List Milestone), ∃ call, milestone = .asked call :=
          fun _ member => by cases member
        refine ends_drawn elementary there (.refl id _) asks guard fun outcome drawn returned => ?_
        cases outcome with
        | error error =>
            have calm : (Conduct.recounting id).calm tracked (drawn.tell id .refused) :=
              calm_drawn elementary there (.refl id _) (.refl id _) asks guard returned rfl
                (by simp) (.refl id _) rfl
            exact (Conduct.recounting id).trans calm (note _ _)
        | ok _ =>
            obtain ⟨last, reached⟩ := host?_of_drawHost elementary there returned
            have calm : (Conduct.recounting id).calm tracked (drawn.tell id (.emitted .update)) :=
              calm_drawn elementary there (.refl id _) (.refl id _) asks guard returned rfl
                (by simp) (.refl id _) rfl
            exact ends_emitHost elementary.toBasic reached calm
      · exact Follows.pure _
    · exact Follows.pure _

end

/-- The bindings of a host are forgotten before its container is emptied. -/
theorem account_emptied (world : World) (id : HostId) (found : world.host? id = some record) :
    ((world.emptied id record).account id).bindings = {} := by
  let forgotten := world.modifyHost id fun host => { host with bindings := {} }
  have none : (forgotten.account id).bindings = {} := by
    have changed : forgotten.host? id = some { record with bindings := {} } := by
      show (world.modifyHost id _).host? id = _
      rw [World.host?_modifyHost, if_pos rfl, found]
      rfl
    rw [World.account_of_host changed]
    rfl
  have disposed : forgotten.Aloof id (forgotten.disposeBindings record.bindings) :=
    .disposeBindings forgotten record.bindings
  have carried := disposed.account.trans (World.carried_collect (forgotten.disposeBindings record.bindings) id)
  exact carried.bindings.elim (fun same => same.trans none) fun empty => empty

/-- A host without bindings is destroyed as told. -/
theorem calm_removed (found : world.host? id = some record) (unbound : record.bindings = {}) :
    (Conduct.recounting id).calm world (world.removed id record) := by
  let cleared : World := { world.attest (.destroyed id (world.forest.holders record.container)) with
    forest := world.forest.clear record.container }
  have changed : (world.removed id record).host? id =
      some { record with mounted := false, story := .destroyed record.renders :: record.story } := by
    show (cleared.modifyHost id _).host? id = _
    rw [World.host?_modifyHost, if_pos rfl]
    exact congrArg (Option.map _) found
  have grows : world.forest.size ≤ cleared.forest.size := Nat.le_of_eq (Forest.size_clear _ _).symm
  have moored : world.Moored id (world.removed id record) := by
    have attested : world.Moored id cleared := .of_hosts rfl grows
    refine attested.trans (.modifyHost cleared id id ?_)
    exact fun _ => rfl
  have absent : world.host? id = none → (world.removed id record).host? id = none :=
    fun none => by cases none.symm.trans found
  have same : (world.removed id record).account id =
      { record.account with mounted := false, story := .destroyed record.renders :: record.story } := by
    rw [World.account_of_host changed]
    rfl
  refine ⟨⟨moored, moored.founded absent, [.destroyed record.renders],
    [.destroyed id (world.forest.holders record.container)], ?_, rfl, ?_⟩, ?_⟩
  · rw [same, World.account_of_host found]
    rfl
  · refine ⟨.single (by simp) (by simp), .of_undrawn ⟨by simp, by simp⟩, fun _ _ => ?_, ?_⟩
    · refine ⟨by rw [same], by rw [same, World.account_of_host found],
        Or.inr (by rw [same]; exact unbound), fun _ _ member => ?_, fun other reached _ away => ?_⟩
      · cases List.mem_singleton.mp member
      · cases reached.symm.trans found
        exact absurd List.mem_cons_self (away _ List.mem_cons_self)
    · intro late renders earlier parts _ _
      obtain ⟨rfl, last⟩ : late = [] ∧ earlier = [] := by
        cases late with
        | nil => exact ⟨rfl, (List.cons.inj parts).2.symm⟩
        | cons first rest =>
            obtain ⟨-, impossible⟩ := List.cons.inj parts
            exact absurd impossible.symm (by simp)
      cases (List.cons.inj parts).1
      refine ⟨by rw [changed]; rfl, by rw [same], by rw [same]; rfl, by rw [same]; exact unbound,
        [], world.forest.holders record.container, [], rfl, fun _ _ => List.not_mem_nil, ?_⟩
      intro _ other reached _
      cases reached.symm.trans changed
      exact Forest.children_clear _ _
  · intro recent _ _
    rw [same, World.account_of_host found]
    rfl

/-- The hooks run while the host still has its content. -/
theorem destroyHost (basic : Basic (Conduct.recounting id) run) (world : World) :
    Follows (Conduct.recounting id) (Live.destroyHost run id) world := by
  refine (basic.emitsHost id (fun impossible => by cases impossible)).bind fun _ emitted _ => ?_
  have drops : Follows (Conduct.recounting id) (Live.dropBindings id) emitted := dropBindings id emitted
  cases found : emitted.host? id with
  | none =>
      refine drops.bind fun _ dropped drops => ?_
      have same : dropped = emitted := by
        unfold Live.dropBindings at drops
        rw [get_bind, found] at drops
        cases drops
        rfl
      rw [same]
      refine Follows.asks ?_
      rw [found]
      exact Follows.pure _
  | some record =>
      have early := drops.calm (World.dropBindings_eq found)
      obtain ⟨newer, reached, -⟩ := early.1.moored.host record found
      have unbound : newer.bindings = {} := by
        rw [← account_emptied emitted id found, World.account_of_host reached]
        rfl
      unfold Follows
      rw [bind_of_ok (World.dropBindings_eq found), get_bind, reached]
      have removes : (Conduct.recounting id).calm emitted
          ((emitted.emptied id record).removed id newer) :=
        (Conduct.recounting id).trans early (calm_removed reached unbound)
      exact (Conduct.recounting id).trans removes (note _ _)

/-! All operations. -/

/-- Another host may install what it likes. -/
theorem installContent {other : HostId} (foreign : other ≠ id) (host : Host) (bindings : Bindings)
    (fragment : NodeId) (world : World) :
    Follows (Conduct.recounting id) (Live.installContent other host bindings fragment) world := by
  let deed : Deed := .rendered other bindings.effects
    (world.forest.holders host.container ++ world.forest.appendHolders host.container fragment)
  let shown : World := { world.attest deed with
    forest := (world.forest.clear host.container).append host.container fragment }
  have showing : (Conduct.recounting id).calm world shown := by
    refine calm_of_deed (Nat.le_of_eq (by rw [Forest.size_append, Forest.size_clear]))
      (fun _ _ same => foreign (Deed.rendered.inj same).1) fun root _ absent => ?_
    exact .replace (fun member => absent (List.mem_append_left _ member))
      fun member => absent (List.mem_append_right _ member)
  have counts : (Conduct.recounting id).calm shown (shown.modifyHost other fun host =>
      { host with bindings, renders := host.renders + 1 }) := by
    refine calm_modifyHost ?_ ?_ shown
    · exact fun _ => rfl
    · exact fun own => absurd own foreign
  exact (Conduct.recounting id).trans showing counts

/-- Another host may be destroyed. -/
theorem removeContent {other : HostId} (foreign : other ≠ id) (host : Host) (world : World) :
    Follows (Conduct.recounting id) (Live.removeContent other host) world := by
  let cleared : World := { world.attest (.destroyed other (world.forest.holders host.container)) with
    forest := world.forest.clear host.container }
  have clears : (Conduct.recounting id).calm world cleared :=
    calm_of_deed (Nat.le_of_eq (Forest.size_clear _ _).symm) (fun _ _ impossible => by cases impossible)
      fun _ _ absent => .clear absent
  have marks : (Conduct.recounting id).calm cleared (cleared.modifyHost other fun host =>
      { host with mounted := false, story := .destroyed host.renders :: host.story }) := by
    refine calm_modifyHost ?_ ?_ cleared
    · exact fun _ => rfl
    · exact fun own => absurd own foreign
  exact (Conduct.recounting id).trans clears marks

/-- A host that is new has done nothing, and its container is a node. -/
theorem calm_withHost (component : Component Script) (state : TargetId) {container : NodeId}
    (known : container < world.forest.size) :
    (Conduct.recounting id).calm world (world.withHost component state container) := by
  have same := World.account_withHost world component state container id
  have moored : world.Moored id (world.withHost component state container) := by
    refine ⟨Nat.le_refl _, fun record found => ?_⟩
    exact ⟨record, World.host?_withHost_of_some component state container found, rfl⟩
  refine ⟨⟨moored, fun founded record reached => ?_, [], [], ?_, rfl, ?_⟩, .of_account ?_ ?_⟩
  · rcases World.host?_of_withHost reached with old | ⟨-, rfl⟩
    · exact founded record old
    · exact known
  · rw [same]
    rfl
  · exact .of_carried (.of_eq same) (fun _ _ => List.not_mem_nil) fun _ _ _ _ => rfl
  · rw [same]
  · rw [same]

theorem primitive (keeps : (runTo depth).Keeps (Conduct.recounting id)) :
    Primitive (Conduct.recounting id) (runTo depth) fun other => other = id where
  toElementary := elementary keeps
  tells other milestone world foreign := by
    refine calm_modifyHost ?_ ?_ world
    · exact fun _ => rfl
    · exact fun own => absurd own foreign
  mounts other world foreign := by
    refine calm_modifyHost ?_ ?_ world
    · exact fun _ => rfl
    · exact fun own => absurd own foreign
  templates _ _ world _ := calm_attest (fun _ _ impossible => by cases impossible) world
  dropsContent other world _ := dropBindings other world
  installs other host bindings fragment _ world foreign calm _ :=
    Conduct.Ends.after calm (installContent foreign host bindings fragment world)
  removes _ host world foreign := removeContent foreign host world
  rendersOwn _ world own _ := own ▸ renderAsked (elementary keeps) world
  mountsOwn _ world own _ := own ▸ mountHost (elementary keeps) world
  rerendersOwn _ world own _ := own ▸ rerender (elementary keeps) world
  destroysOwn _ world own := own ▸ destroyHost (basic keeps) world
  addsHost component state _ _ _ calm known _ := (Conduct.recounting id).trans calm
    (calm_withHost component state (Nat.lt_of_lt_of_le known calm.1.moored.nodes))
  startsRenderer _ _ _ := calm_of_same rfl rfl rfl
  runsRenderer := runEffect keeps
  rendersBy other effect _ world calm _ := by
    refine (Conduct.recounting id).trans calm (calm_modifyHost ?_ ?_ world)
    · exact fun _ => rfl
    · exact fun _ _ => .refl _
  namesHost _ _ _ := calm_of_same rfl rfl rfl

end Recounting

/-- Whatever code runs, the story of a host goes on as told. -/
theorem lawful_recounting (id : HostId) (depth : Nat) :
    Lawful (Conduct.recounting id) (Live.runTo depth) :=
  (Recounting.primitive (Runner.keeps_runTo (World.Recounts.refl id)
    (fun _ keeps => (Recounting.primitive keeps).lawful) depth)).lawful

end LiveMarkup
