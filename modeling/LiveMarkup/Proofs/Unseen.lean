import LiveMarkup.Proofs.Oblivious

/-
This file shows that no script, and no other code of a world, can tell what has been parsed and noted before.
-/

namespace LiveMarkup

namespace Runner.IsBlind

open Live

variable {run : Runner}

/-! States, names and components. -/

theorem createState (values : Dictionary Value) : Blind (Live.createState values) := by
  have adds : ∀ store, Blind (modifyGet fun world : World => world.addTarget store) :=
    fun _ => .modifiesGet (fun _ parses notices => ⟨parses, notices, rfl⟩) fun _ _ _ => rfl
  have makes : Blind (do
      let id ← modifyGet fun world : World => world.addTarget (some { values := values.erase reservedKey })
      Live.hold (.state id)
      pure id) := (adds _).bind fun _ => (Blind.hold _).bind fun _ => .pure _
  unfold Live.createState
  split
  · exact (Blind.note _).bind fun _ => makes
  · exact makes

theorem createStateFrom (initial : Value) : Blind (Live.createStateFrom initial) := by
  cases initial with
  | object fields => exact createState fields
  | _ => exact .fails _

theorem addMethod (state : TargetId) (name : String) (method : Method) :
    Blind (Live.addMethod state name method) :=
  .modifies fun _ parses notices => ⟨parses, notices, rfl⟩

theorem presetValue (state : TargetId) (key : String) (value : Value) :
    Blind (Live.presetValue state key value) := by
  unfold Live.presetValue
  split
  · exact .note _
  · exact (Blind.attest _).bind fun _ => putValue state key value

theorem trackByHand (target : TargetId) (key : Key) : Blind (Live.trackByHand target key) := by
  refine .asks (fun _ _ _ => rfl) fun world => ?_
  split
  · exact (Blind.attest _).bind fun _ => .modifyGraph _
  · exact .modifyGraph _

theorem stateNamed (name : String) : Blind (Live.stateNamed name) := by
  refine .asks (fun _ _ _ => rfl) fun world => ?_
  split
  · exact (Blind.hold _).bind fun _ => .pure _
  · exact .fails _

theorem named {A : Type} (name : String) (found : Option A) : Blind (Live.named name found) := by
  cases found with
  | some object => exact .pure object
  | none => exact .fails _

theorem targetNamed (name : String) : Blind (Live.targetNamed name) :=
  .asks (fun _ _ _ => rfl) fun _ => named name _

theorem effectNamed (name : String) : Blind (Live.effectNamed name) :=
  .asks (fun _ _ _ => rfl) fun _ => (named name _).bind fun _ => (Blind.hold _).bind fun _ => .pure _

theorem nodeNamed (name : String) : Blind (Live.nodeNamed name) :=
  .asks (fun _ _ _ => rfl) fun _ => named name _

theorem bindingsNamed (name : String) : Blind (Live.bindingsNamed name) :=
  .asks (fun _ _ _ => rfl) fun _ => named name _

theorem emitterNamed (name : String) : Blind (Live.emitterNamed name) :=
  .asks (fun _ _ _ => rfl) fun _ => named name _

theorem hostNamed (name : String) : Blind (Live.hostNamed name) :=
  .asks (fun _ _ _ => rfl) fun _ => (named name _).bind fun _ => (Blind.hold _).bind fun _ => .pure _

theorem createComponentState (component : Component Script) :
    Blind (Live.createComponentState component) := by
  have adds : ∀ state (methods : List (String × Script)),
      Blind (methods.forM fun method => Live.addMethod state method.1 (.script method.2)) := by
    intro state methods
    induction methods with
    | nil => exact .pure _
    | cons method rest inductionHypothesis =>
        exact (addMethod state _ _).bind fun _ => inductionHypothesis
  exact ((createStateFrom _).catches fun _ => createState []).bind fun state =>
    (adds state _).bind fun _ => (Blind.modifyNames _).bind fun _ => .pure _

theorem createHost (blind : run.IsBlind) (component : Component Script) (document : NodeId) :
    Blind (Live.createHost run component document) := by
  have adds : ∀ host, Blind (addHost host) :=
    fun host => .modifiesGet (fun _ parses notices => ⟨parses, notices, rfl⟩) fun _ _ _ => rfl
  have enters : ∀ state container, Blind (enterHost run component state container) :=
    fun state container => (adds _).bind fun id => (Blind.hold _).bind fun _ =>
      (blind.emitHost id .init).bind fun _ => (blind.registerEffect _ _ _).bind fun _ =>
        (Blind.modifyHost _ _).bind fun _ => (Blind.note _).bind fun _ => .pure _
  refine .asks (fun _ _ _ => rfl) fun world => ?_
  split
  · exact .pure _
  · exact (createComponentState component).bind fun state => (enters state _).bind fun _ => .pure _

/-! Commands. -/

theorem performState (blind : run.IsBlind) (command : StateCommand) :
    Blind (Live.performState run command) := by
  have makes : ∀ name {action : Live TargetId}, Blind action →
      Blind (do nameState name (← action); pure Value.null) :=
    fun name _ made => made.bind fun _ => (Blind.modifyNames _).bind fun _ => .pure _
  cases command with
  | create name initial => exact makes name (createStateFrom initial)
  | createEmpty name => exact makes name (createState [])
  | createFrom name data => exact makes name (createStateFrom data)
  | createForm name title count => exact makes name (createState _)
  | readForm state => exact (stateNamed state).bind fun id => (Blind.valuesOf id).bind fun _ => .pure _
  | «share» name state => exact makes name (stateNamed state)
  | drop name =>
      exact .asks (fun _ _ _ => rfl) fun _ => (Blind.modifyNames _).bind fun _ => .pure _
  | isAlive name => exact .asks (fun _ _ _ => rfl) fun _ => .pure _
  | isSame first second =>
      exact (stateNamed first).bind fun _ => (stateNamed second).bind fun _ => .pure _
  | identity state => exact (stateNamed state).bind fun _ => .pure _
  | get state key => exact (stateNamed state).bind fun id => (Blind.readValue id key).bind fun _ => .pure _
  | peek state key => exact (stateNamed state).bind fun id => (Blind.peekValue id key).bind fun _ => .pure _
  | contains state key => exact (stateNamed state).bind fun id => (Blind.valuesOf id).bind fun _ => .pure _
  | snapshot state => exact (stateNamed state).bind fun id => (Blind.valuesOf id).bind fun _ => .pure _
  | set state key value =>
      exact (stateNamed state).bind fun id => (blind.writeValue id key value).bind fun _ => .pure _
  | preset state key value =>
      exact (stateNamed state).bind fun id => (presetValue id key value).bind fun _ => .pure _
  | increase state key step =>
      exact (stateNamed state).bind fun id => Blind.bind
        ((Blind.peekValue id key).bind fun _ => blind.writeValue id key _) fun _ => .pure _
  | setEvaluated state key source =>
      exact (stateNamed state).bind fun id => (blind.evaluateStrictly id source).bind fun _ =>
        (blind.writeValue id key _).bind fun _ => .pure _
  | trackAll state => exact (stateNamed state).bind fun _ => (Blind.modifyGraph _).bind fun _ => .pure _
  | constantMethod state name value =>
      exact (stateNamed state).bind fun id => (addMethod id name _).bind fun _ => .pure _
  | hasMethod state name =>
      exact (stateNamed state).bind fun id => (Blind.methodsOf id).bind fun _ => .pure _
  | evaluate state source => exact (stateNamed state).bind fun id => blind.evaluate id source
  | evaluateText state source =>
      exact (stateNamed state).bind fun id => (blind.evaluateText id source).bind fun _ => .pure _
  | evaluateStrictly state source => exact (stateNamed state).bind fun id => blind.evaluateStrictly id source
  | interpolate state text =>
      exact (stateNamed state).bind fun id => (blind.interpolate id text).bind fun _ => .pure _
  | hasInterpolation text => exact .pure _

theorem performEffect (blind : run.IsBlind) (command : EffectCommand) :
    Blind (Live.performEffect run command) := by
  cases command with
  | run effect => exact (effectNamed effect).bind fun id => (blind.runEffect id).bind fun _ => .pure _
  | dispose effect => exact (effectNamed effect).bind fun id => (disposeEffect id).bind fun _ => .pure _
  | info effect => exact (effectNamed effect).bind fun _ => .asks (fun _ _ _ => rfl) fun _ => .pure _
  | drop effect =>
      exact .asks (fun _ _ _ => rfl) fun _ => (Blind.modifyNames _).bind fun _ => .pure _
  | isSame first second =>
      exact (effectNamed first).bind fun _ => (effectNamed second).bind fun _ => .pure _
  | dependencies effect => exact (effectNamed effect).bind fun _ => .asks (fun _ _ _ => rfl) fun _ => .pure _
  | active => exact .asks (fun _ _ _ => rfl) fun _ => .pure _
  | disposeActive =>
      refine .asks (fun _ _ _ => rfl) fun world => ?_
      split
      · exact (disposeEffect _).bind fun _ => .pure _
      · exact .pure _
  | createTarget name =>
      have adds : Blind (modifyGet fun world : World => world.addTarget none) :=
        .modifiesGet (fun _ parses notices => ⟨parses, notices, rfl⟩) fun _ _ _ => rfl
      exact adds.bind fun _ => (Blind.modifyNames _).bind fun _ => .pure _
  | track target key => exact (targetNamed target).bind fun id => (trackByHand id key).bind fun _ => .pure _
  | trigger target key => exact (targetNamed target).bind fun id => (blind.trigger id key).bind fun _ => .pure _
  | release target =>
      exact (targetNamed target).bind fun _ => Blind.bind
        ((Blind.attest _).bind fun _ => .modifyGraph _) fun _ => .pure _
  | subscriberCount target key =>
      exact (targetNamed target).bind fun _ => .asks (fun _ _ _ => rfl) fun _ => .pure _
  | hasTarget target => exact (targetNamed target).bind fun _ => .asks (fun _ _ _ => rfl) fun _ => .pure _

theorem nameFound (name : String) (found : Option NodeId) : Blind (Live.nameFound name found) := by
  cases found with
  | none => exact .pure _
  | some node => exact (Blind.modifyNames _).bind fun _ => .asks (fun _ _ _ => rfl) fun _ => .pure _

theorem askForest {A : Type} (node : String) (question : Forest Handler → NodeId → A) :
    Blind (Live.askForest node question) :=
  (nodeNamed node).bind fun _ => .asks (fun _ _ _ => rfl) fun _ => .pure _

theorem changeForest (node : String) (change : Forest Handler → NodeId → Forest Handler) :
    Blind (Live.changeForest node change) :=
  (nodeNamed node).bind fun _ => (Blind.modifyForest _).bind fun _ => .pure _

theorem editForest (node : String) (holders : Forest Handler → NodeId → List NodeId)
    (change : Forest Handler → NodeId → Forest Handler) : Blind (Live.editForest node holders change) :=
  (nodeNamed node).bind fun _ => .asks (fun _ _ _ => rfl) fun _ => (Blind.attest _).bind fun _ =>
    (Blind.modifyForest _).bind fun _ => .pure _

theorem performNode (blind : run.IsBlind) (command : NodeCommand) : Blind (Live.performNode run command) := by
  have finds : ∀ name node (question : Forest Handler → NodeId → Option NodeId),
      Blind (do Live.nameFound name (← Live.askForest node question)) :=
    fun name node question => (askForest node question).bind fun _ => nameFound name _
  have tells : ∀ {A : Type} node (question : Forest Handler → NodeId → A) (answer : A → Value),
      Blind (do pure (answer (← Live.askForest node question))) :=
    fun node question _ => (askForest node question).bind fun _ => .pure _
  cases command with
  | create name kind text =>
      have creates : Blind (modifyGet fun world : World => ((world.forest.create (contentOf kind text)).1,
          { world with forest := (world.forest.create (contentOf kind text)).2 })) :=
        .modifiesGet (fun _ parses notices => ⟨parses, notices, rfl⟩) fun _ _ _ => rfl
      exact creates.bind fun _ => nameFound name _
  | parse name source =>
      refine (parseTemplate source).bind fun parsed => ?_
      split
      · exact nameFound name _
      · exact .pure _
  | query name root selector => exact finds name root _
  | child name parent position => exact finds name parent _
  | firstChild name parent => exact finds name parent _
  | nextSibling name node => exact finds name node _
  | parent name node => exact finds name node _
  | next name node root => exact (nodeNamed root).bind fun _ => finds name node _
  | skip name node root => exact (nodeNamed root).bind fun _ => finds name node _
  | queryAll root selector => exact tells root _ _
  | descendants root =>
      exact (nodeNamed root).bind fun _ => .asks (fun _ _ _ => rfl) fun _ => .pure _
  | children parent =>
      exact (nodeNamed parent).bind fun _ => .asks (fun _ _ _ => rfl) fun _ => .pure _
  | append parent child => exact (nodeNamed child).bind fun _ => editForest parent _ _
  | detach node => exact editForest node _ _
  | clear node => exact editForest node _ _
  | isSame first second => exact (nodeNamed first).bind fun _ => (nodeNamed second).bind fun _ => .pure _
  | type node => exact (nodeNamed node).bind fun _ => .asks (fun _ _ _ => rfl) fun _ => .pure _
  | attributeValue node name => exact tells node _ _
  | hasAttribute node name => exact tells node _ _
  | attributes node => exact tells node _ _
  | setAttribute node name value => exact editForest node _ _
  | removeAttribute node name => exact editForest node _ _
  | text node => exact tells node _ _
  | setText node text => exact editForest node _ _
  | value node => exact tells node _ _
  | setValue node value => exact changeForest node _
  | innerHtml node => exact tells node _ _
  | outerHtml node => exact tells node _ _
  | tree node => exact (nodeNamed node).bind fun _ => .asks (fun _ _ _ => rfl) fun _ => .pure _
  | listenerCount node kind => exact tells node _ _
  | dispatch node kind => exact (nodeNamed node).bind fun id => (blind.dispatch kind id).bind fun _ => .pure _
  | input node value =>
      exact (nodeNamed node).bind fun id => Blind.bind
        ((Blind.modifyForest _).bind fun _ => (blind.dispatch "input" id).discard) fun _ => .pure _
  | click node =>
      exact (nodeNamed node).bind fun id => (blind.dispatch "click" id).discard.bind fun _ => .pure _

theorem performHost (blind : run.IsBlind) (command : HostCommand) : Blind (Live.performHost run command) := by
  cases command with
  | bind name node state =>
      exact (nodeNamed node).bind fun root => (stateNamed state).bind fun id => (blind.bind root id).bind
        fun _ => (Blind.modifyNames _).bind fun _ => .asks (fun _ _ _ => rfl) fun _ => .pure _
  | bindings name => exact (bindingsNamed name).bind fun _ => .asks (fun _ _ _ => rfl) fun _ => .pure _
  | disposeBindings name =>
      exact (bindingsNamed name).bind fun bindings => (Blind.modifyNames _).bind fun _ =>
        (disposeBindings bindings).bind fun _ => .pure _
  | dropBindings name =>
      exact .asks (fun _ _ _ => rfl) fun _ => (Blind.modifyNames _).bind fun _ => .pure _
  | createEmitter name => exact (Blind.modifyNames _).bind fun _ => .pure _
  | copyEmitter name emitter =>
      exact (emitterNamed emitter).bind fun _ => (Blind.modifyNames _).bind fun _ => .pure _
  | hookCount emitter kind => exact (emitterNamed emitter).bind fun _ => .pure _
  | emit emitter kind =>
      exact (emitterNamed emitter).bind fun hooks => (blind.emitHooks hooks kind).bind fun _ => .pure _
  | mount host => exact (hostNamed host).bind fun id => (blind.mountHost id).bind fun _ => .pure _
  | render host => exact (hostNamed host).bind fun id => (blind.renderAsked id).bind fun _ => .pure _
  | destroy host => exact (hostNamed host).bind fun id => (blind.destroyHost id).bind fun _ => .pure _
  | info host => exact (hostNamed host).bind fun _ => .asks (fun _ _ _ => rfl) fun _ => .pure _
  | setTemplate host template =>
      exact (hostNamed host).bind fun _ => (Blind.modifyHost _ _).bind fun _ => .pure _
  | drop host =>
      exact .asks (fun _ _ _ => rfl) fun _ => (Blind.modifyNames _).bind fun _ => .pure _

theorem registerHook (owner : String) (kind : HookKind) (body : Script) :
    Blind (Live.registerHook owner kind body) := by
  refine .asks (fun _ _ _ => rfl) fun world => ?_
  split
  · exact (Blind.modifyHost _ _).bind fun _ => .pure _
  · exact (emitterNamed owner).bind fun _ => (Blind.modifyNames _).bind fun _ => .pure _

theorem performCreateEffect (blind : run.IsBlind) (name : String) (body : Script) (options : EffectOptions) :
    Blind (Live.performCreateEffect run name body options) := by
  have captures : ∀ names : List String, Blind (names.mapM Live.stateNamed) := by
    intro names
    induction names with
    | nil => exact .pure _
    | cons name rest inductionHypothesis =>
        rw [List.mapM_cons]
        exact (stateNamed name).bind fun _ => inductionHypothesis.bind fun _ => .pure _
  have makes : ∀ task captured, Blind (makeEffect run options.label options.isLazy task captured) := by
    intro task captured
    unfold makeEffect
    split
    · exact (createEffect _ _ _).bind fun _ => (Blind.hold _).bind fun _ => .pure _
    · exact blind.registerEffect _ _ _
  exact (captures _).bind fun _ => (makes _ _).bind fun _ => (Blind.modifyNames _).bind fun _ =>
    .asks (fun _ _ _ => rfl) fun _ => .pure _

theorem performCreateHost (blind : run.IsBlind) (document : String) (component : Component Script) :
    Blind (Live.performCreateHost run document component) := by
  refine (nodeNamed document).bind fun node => (blind.createHost component node).bind fun created => ?_
  split
  · exact .pure _
  · refine (Blind.modifyNames _).bind fun _ => .asks (fun _ _ _ => rfl) fun world => ?_
    refine Blind.bind ?_ fun _ => .pure _
    cases world.host? _ with
    | none => exact .pure _
    | some host =>
        show Blind (nameNode (rootName component.name) host.container)
        exact .modifyNames _

theorem performInspect (kind : Inspected) (name : String) : Blind (Live.performInspect kind name) := by
  cases kind with
  | state => exact (stateNamed name).bind fun _ => .asks (fun _ _ _ => rfl) fun _ => .pure _
  | effect => exact (effectNamed name).bind fun _ => .asks (fun _ _ _ => rfl) fun _ => .pure _
  | node => exact (nodeNamed name).bind fun _ => .asks (fun _ _ _ => rfl) fun _ => .pure _
  | emitter => exact (emitterNamed name).bind fun _ => .pure _
  | host => exact (hostNamed name).bind fun _ => .asks (fun _ _ _ => rfl) fun _ => .pure _

/-! Scripts. -/

theorem recorded (name : String) (isBlock : Bool) {action : Live Value} (blind : Blind action) :
    Blind (Live.recorded name isBlock action) := by
  intro world other alike
  have ends := blind.operation world other alike
  unfold Live.recorded
  cases outcome : Live.operation action world with
  | ok value reached =>
      rw [outcome] at ends
      generalize Live.operation action other = result at ends
      cases ends with
      | ok _ later =>
          obtain ⟨parses, notices, rfl⟩ := later
          cases isBlock <;> exact .ok value ⟨parses, notices, rfl⟩
  | error stop reached =>
      rw [outcome] at ends
      generalize Live.operation action other = result at ends
      cases ends with
      | error _ later =>
          obtain ⟨parses, notices, rfl⟩ := later
          cases stop <;> exact .error _ ⟨parses, notices, rfl⟩

theorem isTruthyAt (state key : String) : Blind (Live.isTruthyAt state key) :=
  .operation ((stateNamed state).bind fun id => (Blind.readValue id key).bind fun _ => .pure _)

mutual

/-- The cases are the commands. Those that contain scripts are blind by induction. -/
theorem perform (blind : run.IsBlind) (arguments : List Value) :
    ∀ command : Command, Blind (Live.perform run arguments command)
  | .log _ => .pure _
  | .value _ => .pure _
  | .argumentAt _ => .pure _
  | .arguments => .pure _
  | .sum => .raises _
  | .fail _ => .fails _
  | .panic _ => .stops _
  | .branch state key yes no => (isTruthyAt state key).bind fun _ => by
      split
      · exact performAll blind arguments .null yes
      · exact performAll blind arguments .null no
  | .cycle bodies => .asks (fun _ _ _ => rfl) fun _ => performOne blind arguments _ bodies
  | .once _ body => .asks (fun _ _ _ => rfl) fun _ => by
      split
      · exact .pure _
      · exact Blind.bind (.modifies fun _ parses notices => ⟨parses, notices, rfl⟩) fun _ =>
          performAll blind arguments .null body
  | .untracked body => .inFrame (performAll blind arguments .null body)
  | .tell _ _ => (Blind.note _).bind fun _ => .pure _
  | .tellValue _ _ state key => (stateNamed state).bind fun id => (Blind.peekValue id key).bind fun _ =>
      (Blind.note _).bind fun _ => .pure _
  | .state command => blind.performState command
  | .method state name _ => (stateNamed state).bind fun id => (addMethod id name _).bind fun _ => .pure _
  | .effect command => blind.performEffect command
  | .createEffect name body options => blind.performCreateEffect name body options
  | .node command => blind.performNode command
  | .listen node _ _ => changeForest node _
  | .host command => blind.performHost command
  | .onHook owner kind body => registerHook owner kind body
  | .createHost document component => blind.performCreateHost document component
  | .inspect kind name => performInspect kind name

theorem performAll (blind : run.IsBlind) (arguments : List Value) (last : Value) :
    ∀ script : Script, Blind (Live.performAll run arguments last script)
  | [] => .pure _
  | command :: rest => (recorded _ _ (perform blind arguments command)).bind fun value =>
      performAll blind arguments value rest

theorem performOne (blind : run.IsBlind) (arguments : List Value) (place : Nat) :
    ∀ scripts : List Script, Blind (Live.performOne run arguments place scripts)
  | [] => by
      cases place <;> exact .pure _
  | body :: rest => by
      cases place with
      | zero => exact performAll blind arguments .null body
      | succ place => exact performOne blind arguments place rest

end

theorem swallowing (blind : run.IsBlind) (body : Script) :
    Blind (Live.swallowing (Live.performAll run [] .null body)) :=
  (blind.performAll [] .null body).catches fun _ => .pure _

theorem performTask (blind : run.IsBlind) (task : Task) : Blind (Live.performTask run task) := by
  cases task with
  | script name body => exact (Blind.record _).bind fun _ => blind.swallowing body
  | interpolation state node source =>
      exact (whileAlive state ((blind.interpolate state source).bind fun _ => showAt node _)).bind
        fun _ => .pure _
  | textBinding state node source =>
      exact (whileAlive state ((blind.evaluateText state source).bind fun _ => showAt node _)).bind
        fun _ => .pure _
  | valueBinding state node source => exact (blind.showValue state node source).bind fun _ => .pure _
  | render host => exact (blind.rerender host).bind fun _ => .pure _

theorem performHandler (blind : run.IsBlind) (event : Event) (handler : Handler) :
    Blind (Live.performHandler run event handler) := by
  cases handler with
  | script body =>
      exact .asks (fun _ _ _ => rfl) fun _ => (Blind.record _).bind fun _ => blind.swallowing body
  | storeInput state key numeric => exact (blind.storeInput state key numeric _).bind fun _ => .pure _
  | evaluate state source =>
      exact (whileAlive state (.inFrame (blind.evaluate state source).discard)).bind fun _ => .pure _

theorem performRendered (blind : run.IsBlind) (id : HostId) : Blind (Live.performRendered run id) := by
  refine .asks (fun _ _ _ => rfl) fun world => ?_
  split
  · exact .pure _
  · refine (Blind.modifyNames _).bind fun _ => ?_
    split
    · exact .pure _
    · exact (Blind.record _).bind fun _ => blind.swallowing _

end Runner.IsBlind

open Live in
/-- No code of a world can tell what has been parsed and noted before, to whatever depth it runs others. -/
theorem isBlind_runTo (depth : Nat) : Runner.IsBlind (runTo depth) := by
  induction depth with
  | zero => exact fun _ => .stops _
  | succ depth inductionHypothesis =>
      intro activity
      cases activity with
      | task task => exact inductionHypothesis.performTask task
      | method name body arguments =>
          exact (Blind.record _).bind fun _ => inductionHypothesis.performAll arguments .null body
      | handler handler event => exact inductionHypothesis.performHandler event handler
      | hook kind body =>
          exact (Blind.record _).bind fun _ => inductionHypothesis.performAll [] .null body
      | rendered host => exact inductionHypothesis.performRendered host

end LiveMarkup
