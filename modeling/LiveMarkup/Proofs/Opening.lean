import LiveMarkup.Proofs.Counting

/-
This file opens the demonstration: the document is made, and a counter that is not mounted yet enters it.
-/

namespace LiveMarkup.Demo

open Live

def documentTrees : List Markup := [.element "body" [] [.element "div" [("id", "app")] []]]

theorem parse_documentTemplate : Markup.parse documentTemplate = .ok documentTrees := by
  have scanned : Token.scan documentTemplate.toList = [.opening "body".toList [] false,
      .opening "div".toList [("id".toList, some "app".toList)] false, .closing "div".toList,
      .closing "body".toList] := by
    decide +kernel
  rw [Markup.parse, Markup.read, scanned]
  rfl

/-- The document has a body, and a place for the counter in it. -/
def documentForest : Forest Handler := (Forest.plantFragment {} documentTrees).2

/-- The new counter is in the document, but not mounted yet. -/
def entering (hooks : Hooks) (renderer : Option EffectId) (story : List Milestone) : Host where
  component := counter
  state := 0
  container := 2
  hooks
  renderEffect := renderer
  story

/-- The world holds the new counter and its state, and nothing else lives. -/
def opening (graph : Graph Task) (record : Host) (holds : List Hold) (happenings : List Happening)
    (notices : List Notice) : World where
  graph
  targets := #[some (storeOf 10)]
  forest := documentForest
  hosts := #[record]
  names := { states := [(counterName, 0)] }
  holds := holds ++ [.host 0, .state 0]
  happenings
  notices

variable {graph : Graph Task} {hooks : Hooks} {renderer : Option EffectId} {story : List Milestone} {holds : List Hold}
  {happenings : List Happening} {notices : List Notice}

/-- Nothing ends while the counter is held. -/
theorem collect_opening : (opening graph (entering hooks renderer story) holds happenings notices).collect =
    opening graph (entering hooks renderer story) holds happenings notices := by
  refine World.collect_eq_of_held (fun id lives => ?_) fun id lives => ⟨0, entering hooks renderer story, rfl, rfl, ?_⟩
  · cases id with
    | zero => exact List.mem_append_right _ List.mem_cons_self
    | succ other => cases lives
  · cases id with
    | zero => rfl
    | succ other => cases lives

/-- The counter tells of its state when it enters. -/
theorem emitHost_init (depth : Nat) : ∃ happenings' notices',
    emitHost (runTo (depth + 1)) 0 .init (opening graph (entering counter.hooks renderer story) [] happenings notices) =
      .ok () (opening graph (entering counter.hooks renderer (.emitted .init :: story)) [] happenings' notices') := by
  have tells : perform (runTo depth) [] (.tellValue .info "counter initialised with " counterName countKey)
      (opening graph (entering counter.hooks renderer (.emitted .init :: story)) [] (.hookCalled .init :: happenings)
        (.hooksEmitted .init 1 :: notices)) =
      .ok .null (opening graph (entering counter.hooks renderer (.emitted .init :: story)) []
        (.hookCalled .init :: happenings) (.told .info ("counter initialised with " ++
          Value.inspectOption (some (.integer 10))) :: .hooksEmitted .init 1 :: notices)) := rfl
  exact ⟨_, _, emitHost_of_hook rfl rfl (performAll_of_collected tells collect_opening rfl)⟩

/-- One effect exists, which draws the counter, and it depends on all keys of the state. -/
def drawingGraph : Graph Task where
  effects := #[{ label := "render #app", task := .render 0, runs := 1, dependencies := [⟨0, .any⟩] }]
  table := [(0, { any := [0] })]

/-- The effect that draws the counter runs once at its creation, and draws nothing yet. -/
theorem registerEffect_render (depth : Nat) (hooks : Hooks) (story : List Milestone) (happenings : List Happening)
    (notices : List Notice) : ∃ notices',
    registerEffect (runTo (depth + 1)) "render #app" (.render 0) []
      (opening {} (entering hooks none story) [] happenings notices) =
      .ok 0 (opening drawingGraph (entering hooks none story) [.effect 0] happenings notices') := by
  let record := entering hooks none story
  let created : Graph Task := (({} : Graph Task).create "render #app" (.render 0) []).2
  let made := opening created record [.effect 0] happenings
    (.effectRegistered (World.number 0) "render #app" :: notices)
  let begun : World := { made with graph := (created.push (some 0)).countRun 0 }
  let tracked : World := { made with graph := drawingGraph.push (some 0) }
  have rerenders : rerender (runTo depth) 0 begun = .ok () tracked := by
    unfold rerender
    exact operation_of_collected (show _ = EStateM.Result.ok () tracked from rfl) collect_opening
  have runs : discard (runTo (depth + 1) (.task (.render 0))) begun = .ok () tracked := by
    rw [discard_apply, show runTo (depth + 1) (.task (.render 0)) begun = .ok .null tracked from bind_of_ok rerenders]
  have body : runBody (runTo (depth + 1)) 0 { label := "render #app", task := .render 0 } made =
      .ok () { tracked with graph := tracked.graph.pop } :=
    inFrame_of_collected runs collect_opening
  have idle : made.graph.isRunning 0 = false := rfl
  have effect : runEffect (runTo (depth + 1)) 0 made = .ok () { tracked with graph := tracked.graph.pop } := by
    rw [runEffect_apply _ (show made.graph.effect? 0 = some { label := "render #app", task := .render 0 } from rfl),
      if_neg Bool.false_ne_true, idle]
    exact body
  refine ⟨.effectRegistered (World.number 0) "render #app" :: notices, ?_⟩
  unfold registerEffect
  rw [bind_of_ok (show createEffect "render #app" (.render 0) [] (opening {} record [] happenings notices) =
      .ok 0 (opening created record [] happenings notices) from rfl),
    bind_of_ok (show hold (.effect 0) (opening created record [] happenings notices) =
      .ok () (opening created record [.effect 0] happenings notices) from rfl),
    bind_of_ok (show note (.effectRegistered (World.number 0) "render #app")
      (opening created record [.effect 0] happenings notices) = .ok () made from rfl), bind_of_ok effect]
  rfl

/-- A new counter enters the document. -/
theorem createHost_eq (depth : Nat) (notices : List Notice) : ∃ happenings' notices',
    createHost (runTo (depth + 1)) counter 0 { forest := documentForest, notices } =
      .ok (.ok 0) (opening drawingGraph (entering counter.hooks (some 0) [.emitted .init]) [.effect 0]
        happenings' notices') := by
  let stated : World :=
    { forest := documentForest, targets := #[some (storeOf 10)], names := { states := [(counterName, 0)] }
      holds := [.state 0], notices }
  obtain ⟨happenings', told, inits⟩ := emitHost_init depth
  obtain ⟨notices', registers⟩ := registerEffect_render depth counter.hooks [.emitted .init] happenings' told
  have placed : documentForest.query? 0 counter.selector = some 2 := by decide +kernel
  have states : createComponentState counter { forest := documentForest, notices } = .ok 0 stated := rfl
  have adds : addHost { component := counter, state := 0, container := 2, hooks := counter.hooks } stated =
      .ok 0 { stated with hosts := #[entering counter.hooks none []] } := rfl
  have holds : hold (.host 0) { stated with hosts := #[entering counter.hooks none []] } =
      .ok () (opening {} (entering counter.hooks none []) [] [] notices) := rfl
  have enters : enterHost (runTo (depth + 1)) counter 0 2 stated =
      .ok 0 (opening drawingGraph (entering counter.hooks (some 0) [.emitted .init]) [.effect 0] happenings'
        (.hostCreated "#app" :: notices')) := by
    unfold enterHost
    rw [bind_of_ok adds, bind_of_ok holds, bind_of_ok inits]
    exact bind_of_ok registers
  refine ⟨happenings', .hostCreated "#app" :: notices', ?_⟩
  unfold createHost
  rw [get_bind, placed]
  exact (bind_of_ok states).trans (bind_of_ok enters)

/-- The hooks of the counter and one more, which tells of each update. -/
def updatingHooks : Hooks := counter.hooks ++ [(.update, [.tell .debug "counter re-rendered"])]

/-- The counter has its name and all of its hooks, and waits for its mounting. -/
def registered (happenings : List Happening) (notices : List Notice) : World :=
  { opening drawingGraph (entering updatingHooks (some 0) [.emitted .init]) [.effect 0] happenings notices with
    names := { states := [(counterName, 0)], hosts := [(counterName, 0)] } }

theorem reachable_registered : (registered happenings notices).Reachable := by
  have created : Graph.Path ({} : Graph Task) _ _ := .step (.created "render #app" (.render 0) []) .here trivial
  have begun := created.step (.entered (some 0)) ⟨_, rfl, rfl, rfl⟩
  exact ⟨_, (begun.step (.tracked ⟨0, .any⟩) trivial).step .left trivial⟩

/-- Only the counter refers to an effect, and the effect exists. -/
theorem sound_registered : (registered happenings notices).Sound := by
  intro effect place refers
  cases place with
  | names =>
      obtain ⟨entry, listed, -⟩ := refers
      cases listed
  | bindings =>
      obtain ⟨entry, listed, -⟩ := refers
      cases listed
  | content host =>
      obtain ⟨found, known, listed⟩ := refers
      cases host with
      | zero =>
          cases known
          cases listed
      | succ other => cases known
  | renderer host =>
      obtain ⟨found, known, draws⟩ := refers
      cases host with
      | zero =>
          cases known
          cases draws
          exact Nat.zero_lt_one
      | succ other => cases known

theorem homed_registered : (registered happenings notices).Homed where
  hosts id lives := by
    cases id with
    | zero => exact ⟨(counterName, 0), List.mem_cons_self, rfl⟩
    | succ other => cases lives
  states id lives := by
    cases id with
    | zero => exact ⟨0, _, rfl, rfl, rfl⟩
    | succ other => cases lives

theorem driven_registered :
    Driven 0 0 (entering updatingHooks (some 0) [.emitted .init]) 10 (registered happenings notices) where
  reachable := reachable_registered
  sound := sound_registered
  homed := homed_registered
  host := rfl
  component := rfl
  alive := rfl
  updates := rfl
  destroys := rfl
  named := rfl
  store := rfl
  task := ⟨_, rfl, rfl⟩
  lasting := rfl
  idle := List.not_mem_nil
  depends := ⟨_, rfl, fun _ => List.mem_cons_self⟩
  others _ below _ := Or.inl (Nat.lt_one_iff.mp below)
  younger := nofun

/-- Nothing in the document listens, and its place for the counter is empty. -/
theorem documentForest_bare :
    documentForest.children 2 = [] ∧ 2 < documentForest.size ∧ documentForest.handlersAt 2 = [] ∧
      ∀ kind, documentForest.Quiet kind 2 := by
  have first : documentForest.parent? 2 = some 1 := by decide +kernel
  have second : documentForest.parent? 1 = some 0 := by decide +kernel
  have third : documentForest.parent? 0 = none := by decide +kernel
  have known : 2 < documentForest.size := by decide +kernel
  have children : documentForest.children 2 = [] := by decide +kernel
  have silent : ∀ id < 3, (documentForest.handlersAt id).isEmpty = true := by decide +kernel
  have hears : ∀ id < 3, documentForest.handlersAt id = [] := fun id below => List.isEmpty_iff.mp (silent id below)
  refine ⟨children, known, hears 2 (by decide), fun kind => ?_⟩
  have listeners : ∀ id < 3, documentForest.listenersFor id kind = [] := fun id below => by
    rw [Forest.listenersFor_eq, hears id below]
    rfl
  have below : documentForest.Quiet kind 1 := .under second (by decide) (listeners 0 (by decide)) (.top third)
  exact .under first (by decide) (listeners 1 (by decide)) below

theorem registerHook_eq (happenings : List Happening) (notices : List Notice) :
    registerHook counterName .update [.tell .debug "counter re-rendered"]
      { opening drawingGraph (entering counter.hooks (some 0) [.emitted .init]) [.effect 0] happenings notices with
        names := { states := [(counterName, 0)], hosts := [(counterName, 0)] } } =
      .ok .null (registered happenings notices) := rfl

end LiveMarkup.Demo
