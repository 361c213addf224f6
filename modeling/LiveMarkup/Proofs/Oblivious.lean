import LiveMarkup.Proofs.Blindness
import LiveMarkup.Proofs.Caching

/-
This file shows that expressions, effects, events, bindings and hosts cannot tell what has been parsed and
noted before, if the code cannot that they run.
-/

namespace LiveMarkup

/-- A way to run code is blind if all code is that is run so. -/
def Runner.IsBlind (run : Runner) : Prop := ∀ activity, Live.Blind (run activity)

namespace Runner.IsBlind

open Live

variable {run : Runner}

theorem callMethod (blind : run.IsBlind) (state : TargetId) (name : String) (arguments : List Value) :
    Blind (Live.callMethod run state name arguments) := by
  refine (Blind.methodsOf state).bind fun methods => ?_
  split
  · exact .fails _
  · exact .pure _
  · exact (blind _).catches fun _ => .fails _

theorem evalScope (blind : run.IsBlind) (state : TargetId) (expr : Expr) :
    Blind (Expr.eval (scopeOf run state) expr) := by
  refine Blind.eval ?_ (blind.callMethod state) expr
  intro name
  refine (Blind.methodsOf state).bind fun methods => ?_
  split
  · exact .fails _
  · refine (Blind.readValue state name).bind fun found => ?_
    split
    · exact .pure _
    · exact .fails _

/-- Sources with the same parse are evaluated alike. -/
theorem evaluateStrictly_agree (blind : run.IsBlind) (state : TargetId) {source other : String}
    (same : Expr.parse source = Expr.parse other) :
    Agree (Live.evaluateStrictly run state source) (Live.evaluateStrictly run state other) := by
  rintro world _ ⟨parses, notices, rfl⟩
  rw [evaluateStrictly_eq_fresh, evaluateStrictly_eq_fresh, same]
  exact (Blind.raises _).bind (blind.evalScope state) _ _ ⟨_, _, rfl⟩

theorem evaluateText_agree (blind : run.IsBlind) (state : TargetId) {source other : String}
    (same : Expr.parse source = Expr.parse other) :
    Agree (Live.evaluateText run state source) (Live.evaluateText run state other) := by
  refine Agree.bind ?_ fun _ => Blind.pure _
  refine (blind.evaluateStrictly_agree state same).catches fun error => ?_
  exact (Agree.note _ _).bind fun _ => Blind.pure _

theorem evaluateStrictly (blind : run.IsBlind) (state : TargetId) (source : String) :
    Blind (Live.evaluateStrictly run state source) := blind.evaluateStrictly_agree state rfl

theorem evaluate (blind : run.IsBlind) (state : TargetId) (source : String) :
    Blind (Live.evaluate run state source) :=
  (blind.evaluateStrictly state source).catches fun _ => (Blind.note _).bind fun _ => .pure _

theorem evaluateText (blind : run.IsBlind) (state : TargetId) (source : String) :
    Blind (Live.evaluateText run state source) := blind.evaluateText_agree state rfl

theorem interpolate (blind : run.IsBlind) (state : TargetId) (text : String) :
    Blind (Live.interpolate run state text) := by
  have all : ∀ segments, Blind (interpolateSegments run state segments) := by
    intro segments
    induction segments with
    | nil => exact .pure _
    | cons segment rest inductionHypothesis =>
        cases segment with
        | literal c => exact inductionHypothesis.bind fun _ => .pure _
        | expression source =>
            exact (blind.evaluateText state _).bind fun _ => inductionHypothesis.bind fun _ => .pure _
  exact (all _).bind fun _ => .pure _

/-! Effects and events. -/

theorem runEffect (blind : run.IsBlind) (id : EffectId) : Blind (Live.runEffect run id) := by
  refine .asks (fun _ _ _ => rfl) fun world => ?_
  split
  · exact .pure _
  · split
    · exact .pure _
    · split
      · exact .note _
      · exact .inFrame ((Blind.modifyGraph _).bind fun _ => (blind _).discard)

theorem letGo (id : EffectId) : Blind (Live.letGo id) :=
  .collects fun _ parses notices => ⟨parses, notices, rfl⟩

theorem trigger (blind : run.IsBlind) (target : TargetId) (name : String) :
    Blind (Live.trigger run target name) := by
  have turns : ∀ ids, Blind (runInTurn run ids) := by
    intro ids
    induction ids with
    | nil => exact .pure _
    | cons id rest inductionHypothesis =>
        exact (blind.runEffect id).bind fun _ => (letGo id).bind fun _ => inductionHypothesis
  have runs : ∀ ids, Blind (do
      modify fun world => { world with holds := ids.map Hold.effect ++ world.holds }
      runInTurn run ids) :=
    fun ids => Blind.bind (.modifies fun _ parses notices => ⟨parses, notices, rfl⟩) fun _ => turns ids
  refine .operation (.asks (fun _ _ _ => rfl) fun world => ?_)
  dsimp only
  split
  · exact runs _
  · exact (Blind.note _).bind fun _ => runs _

theorem putValue (state : TargetId) (key : String) (value : Value) : Blind (Live.putValue state key value) :=
  .modifies fun _ parses notices => ⟨parses, notices, rfl⟩

theorem writeValue (blind : run.IsBlind) (state : TargetId) (key : String) (value : Value) :
    Blind (Live.writeValue run state key value) := by
  unfold Live.writeValue
  split
  · exact .note _
  · exact (putValue state key value).bind fun _ => blind.trigger state key

theorem createEffect (label : String) (task : Task) (captures : List TargetId) :
    Blind (Live.createEffect label task captures) :=
  .modifiesGet (fun _ parses notices => ⟨parses, notices, rfl⟩) fun _ _ _ => rfl

theorem registerEffect (blind : run.IsBlind) (label : String) (task : Task) (captures : List TargetId) :
    Blind (Live.registerEffect run label task captures) :=
  (createEffect label task captures).bind fun id => (Blind.hold _).bind fun _ => (Blind.note _).bind fun _ =>
    (blind.runEffect id).bind fun _ => .pure _

theorem disposeEffect (id : EffectId) : Blind (Live.disposeEffect id) :=
  .collects fun _ parses notices => World.Resembles.disposeEffect ⟨parses, notices, rfl⟩ id

theorem dispatch (blind : run.IsBlind) (kind : String) (target : NodeId) :
    Blind (Live.dispatch run kind target) := by
  have calls : ∀ event handlers, Blind (callHandlers run event handlers) := by
    intro event handlers
    induction handlers with
    | nil => exact .pure _
    | cons handler rest inductionHypothesis =>
        exact (blind _).discard.bind fun _ => inductionHypothesis
  have bubbles : ∀ limit node called, Blind (bubble run kind target limit node called) := by
    intro limit
    induction limit with
    | zero =>
        intro node called
        cases node with
        | none => exact .pure _
        | some node => exact .stops _
    | succ limit inductionHypothesis =>
        intro node called
        cases node with
        | none => exact .pure _
        | some node =>
            exact .asks (fun _ _ _ => rfl) fun _ => (calls _ _).bind fun _ =>
              .asks (fun _ _ _ => rfl) fun _ => inductionHypothesis _ _
  exact .asks (fun _ _ _ => rfl) fun world => bubbles _ _ _

theorem emitHooks (blind : run.IsBlind) (hooks : Hooks) (kind : HookKind) :
    Blind (Live.emitHooks run hooks kind) := by
  have calls : ∀ body, Blind (callHook run kind body) := by
    intro body world other resembles
    have ends := blind (.hook kind body) world other resembles
    unfold callHook
    cases outcome : run (.hook kind body) world with
    | ok value reached =>
        rw [outcome] at ends
        generalize run (.hook kind body) other = result at ends
        cases ends with
        | ok _ later => exact .ok false later
    | error stop reached =>
        rw [outcome] at ends
        generalize run (.hook kind body) other = result at ends
        cases ends with
        | error _ later =>
            obtain ⟨parses, notices, rfl⟩ := later
            cases stop with
            | failed error => exact .ok true ⟨parses, _, rfl⟩
            | panicked payload => exact .ok true ⟨parses, _, rfl⟩
            | exhausted => exact .error _ ⟨parses, notices, rfl⟩
  have all : ∀ bodies, Blind (callHooks run kind bodies) := by
    intro bodies
    induction bodies with
    | nil => exact .pure _
    | cons body rest inductionHypothesis =>
        exact (calls body).bind fun _ => inductionHypothesis.bind fun _ => .pure _
  unfold Live.emitHooks
  dsimp only
  split
  · exact .pure _
  · exact (Blind.note _).bind fun _ => all _

/-! Bindings. -/

theorem whileAlive (state : TargetId) {action : Live Unit} (blind : Blind action) :
    Blind (Live.whileAlive state action) := by
  refine .asks (fun _ _ _ => rfl) fun world => ?_
  split
  · exact .operation ((Blind.hold _).bind fun _ => blind)
  · exact .pure _

theorem showAt (node : NodeId) (text : String) : Blind (Live.showAt node text) :=
  .asks (fun _ _ _ => rfl) fun _ => (Blind.attest _).bind fun _ => .modifyForest _

theorem showValue (blind : run.IsBlind) (state : TargetId) (node : NodeId) (source : String) :
    Blind (Live.showValue run state node source) := by
  refine whileAlive state ((blind.evaluateText state source).bind fun text => ?_)
  refine .asks (fun _ _ _ => rfl) fun world => ?_
  split
  · exact .modifyForest _
  · exact .pure _

theorem storeInput (blind : run.IsBlind) (state : TargetId) (key : String) (numeric : Bool)
    (node : NodeId) : Blind (Live.storeInput run state key numeric node) :=
  whileAlive state (.asks (fun _ _ _ => rfl) fun _ => .inFrame (blind.writeValue state key _))

theorem dropDirective (node : NodeId) (name : String) : Blind (Live.dropDirective node name) :=
  .asks (fun _ _ _ => rfl) fun _ => (Blind.attest _).bind fun _ => .modifyForest _

theorem bindAttribute (blind : run.IsBlind) (state : TargetId) (node : NodeId) (name source : String)
    (bindings : Bindings) : Blind (Live.bindAttribute run state node name source bindings) := by
  unfold Live.bindAttribute
  split
  · exact (blind.registerEffect _ _ _).bind fun _ => (dropDirective _ _).bind fun _ => .pure _
  · refine .asks (fun _ _ _ => rfl) fun world => ?_
    dsimp only
    split
    · exact (blind.registerEffect _ _ _).bind fun _ => .asks (fun _ _ _ => rfl) fun _ =>
        (Blind.modifyForest _).bind fun _ => (dropDirective _ _).bind fun _ => .pure _
    · exact (Blind.note _).bind fun _ => .pure _
  · unfold bindEvent
    split
    · exact (Blind.note _).bind fun _ => .pure _
    · exact (Blind.modifyForest _).bind fun _ => (dropDirective _ _).bind fun _ => .pure _
  · exact .pure _

theorem bindNode (blind : run.IsBlind) (state : TargetId) (node : NodeId) (bindings : Bindings) :
    Blind (Live.bindNode run state node bindings) := by
  have attributes : ∀ entries bindings, Blind (bindAttributes run state node entries bindings) := by
    intro entries
    induction entries with
    | nil => exact fun _ => .pure _
    | cons entry rest inductionHypothesis =>
        exact fun bindings => (blind.bindAttribute state node _ _ bindings).bind
          fun bound => inductionHypothesis bound
  refine .asks (fun _ _ _ => rfl) fun world => ?_
  dsimp only
  split
  · have interpolates : Blind (bindInterpolation run state node bindings) := by
      refine .asks (fun _ _ _ => rfl) fun world => ?_
      dsimp only
      split
      · exact (blind.registerEffect _ _ _).bind fun _ => .pure _
      · exact .pure _
    exact interpolates.bind fun _ => .pure _
  · exact (attributes _ _).bind fun _ => .pure _
  · exact .pure _

theorem bind (blind : run.IsBlind) (root : NodeId) (state : TargetId) :
    Blind (Live.bind run root state) := by
  have walks : ∀ limit place bindings, Blind (bindFrom run state root limit place bindings) := by
    intro limit
    induction limit with
    | zero =>
        intro place bindings
        cases place with
        | none => exact .pure _
        | some node => exact .stops _
    | succ limit inductionHypothesis =>
        intro place bindings
        cases place with
        | none => exact .pure _
        | some node =>
            exact (blind.bindNode state node bindings).bind fun _ =>
              .asks (fun _ _ _ => rfl) fun _ => inductionHypothesis _ _
  exact .asks (fun _ _ _ => rfl) fun _ => (walks _ _ _).bind fun _ => (Blind.note _).bind fun _ => .pure _

theorem disposeBindings (bindings : Bindings) : Blind (Live.disposeBindings bindings) :=
  .collects fun _ parses notices => World.Resembles.disposeBindings ⟨parses, notices, rfl⟩ bindings

/-! Hosts. -/

theorem emitHost (blind : run.IsBlind) (id : HostId) (kind : HookKind) :
    Blind (Live.emitHost run id kind) := by
  refine .asks (fun _ _ _ => rfl) fun world => ?_
  split
  · exact .pure _
  · refine (Blind.tell _ _).bind fun _ => (blind.emitHooks _ kind).bind fun failures => ?_
    split
    · exact .note _
    · exact .pure _

theorem parseTemplate (source : String) : Blind (Live.parseTemplate source) := by
  have plants : Blind (modifyGet fun world : World =>
      ((world.forest.plantFragment (Markup.read source).trees).1,
        { world with forest := (world.forest.plantFragment (Markup.read source).trees).2 })) :=
    .modifiesGet (fun _ parses notices => ⟨parses, notices, rfl⟩) fun _ _ _ => rfl
  refine plants.bind fun root => ?_
  split
  · exact .pure _
  · split
    · exact (Blind.note _).bind fun _ => .pure _
    · exact .pure _

theorem dropBindings (id : HostId) : Blind (Live.dropBindings id) := by
  refine .asks (fun _ _ _ => rfl) fun world => ?_
  split
  · exact .pure _
  · exact (Blind.modifyHost _ _).bind fun _ => disposeBindings _

theorem installContent (id : HostId) (host : Host) (bindings : Bindings) (fragment : NodeId) :
    Blind (Live.installContent id host bindings fragment) :=
  .asks (fun _ _ _ => rfl) fun _ => (Blind.attest _).bind fun _ => (Blind.modifyForest _).bind fun _ =>
    .modifyHost _ _

theorem renderContent (blind : run.IsBlind) (id : HostId) (host : Host) (fragment : NodeId) :
    Blind (Live.renderContent run id host fragment) :=
  (Blind.attest _).bind fun _ => (dropBindings id).bind fun _ => (blind.bind fragment _).bind fun _ =>
    (installContent id host _ fragment).bind fun _ =>
      .asks (fun _ _ _ => rfl) fun _ => (Blind.note _).bind fun _ => (blind _).discard

theorem drawHost (blind : run.IsBlind) (id : HostId) : Blind (Live.drawHost run id) := by
  have renders : Blind (renderHost run id) := by
    refine .asks (fun _ _ _ => rfl) fun world => ?_
    split
    · exact .pure _
    · refine (parseTemplate _).bind fun parsed => ?_
      split
      · exact .pure _
      · exact (blind.renderContent id _ _).bind fun _ => .pure _
  refine (Blind.tell _ _).bind fun _ => .ending renders ?_
  rintro after _ ⟨parses, notices, rfl⟩
  exact ⟨parses, notices, rfl⟩

theorem renderAsked (blind : run.IsBlind) (id : HostId) : Blind (Live.renderAsked run id) := by
  refine (Blind.tell _ _).bind fun _ => (blind.drawHost id).bind fun outcome => ?_
  split <;> exact (Blind.tell _ _).bind fun _ => .pure _

theorem mountHost (blind : run.IsBlind) (id : HostId) : Blind (Live.mountHost run id) := by
  refine (Blind.tell _ _).bind fun _ => (blind.drawHost id).bind fun outcome => ?_
  split
  · exact (Blind.tell _ _).bind fun _ => .pure _
  · exact (Blind.tell _ _).bind fun _ => (Blind.modifyHost _ _).bind fun _ => .asks (fun _ _ _ => rfl) fun _ =>
      (Blind.note _).bind fun _ => (blind.emitHost id .mount).bind fun _ => .pure _

theorem rerender (blind : run.IsBlind) (id : HostId) : Blind (Live.rerender run id) := by
  refine .operation (.asks (fun _ _ _ => rfl) fun world => ?_)
  split
  · exact .pure _
  · split
    · refine (Blind.hold _).bind fun _ => (Blind.modifyGraph _).bind fun _ => ?_
      split
      · refine (blind.drawHost id).bind fun outcome => ?_
        split
        · exact blind.emitHost id .update
        · exact (Blind.tell _ _).bind fun _ => .note _
      · exact .pure _
    · exact .pure _

theorem destroyHost (blind : run.IsBlind) (id : HostId) : Blind (Live.destroyHost run id) := by
  refine (blind.emitHost id .destroy).bind fun _ => (dropBindings id).bind fun _ => ?_
  refine .asks (fun _ _ _ => rfl) fun world => ?_
  split
  · exact .pure _
  · exact (Blind.asks (fun _ _ _ => rfl) fun _ => (Blind.attest _).bind fun _ =>
      (Blind.modifyForest _).bind fun _ => .modifyHost _ _).bind
      fun _ => .note _

end Runner.IsBlind

end LiveMarkup
