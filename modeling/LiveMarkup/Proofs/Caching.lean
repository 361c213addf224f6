import LiveMarkup.Proofs.Attribution
import LiveMarkup.Proofs.Sweeping

/-
This file shows that nobody can tell the cache of parses from parsing anew, except by the identity of what
it gives: equal texts have the same parse.
-/

namespace LiveMarkup

namespace ParseCache

variable {cache early late first second third final : ParseCache} {source : String} {place : Nat}

/-- A cache is only ever added to. -/
def Extends (early late : ParseCache) : Prop := ∃ newer, late.entries = early.entries ++ newer

theorem Extends.refl (cache : ParseCache) : cache.Extends cache := ⟨#[], (Array.append_empty).symm⟩

theorem Extends.trans (before : first.Extends second) (after : second.Extends third) :
    first.Extends third := by
  obtain ⟨newer, same⟩ := before
  obtain ⟨newest, last⟩ := after
  exact ⟨newer ++ newest, by rw [last, same, Array.append_assoc]⟩

theorem extends_add (cache : ParseCache) (source : String) : cache.Extends (cache.add source) :=
  ⟨#[(source, Expr.parse source)], Array.push_eq_append⟩

/-- A source that has a place keeps it. -/
theorem Extends.place? (longer : early.Extends late) (found : early.place? source = some place) :
    late.place? source = some place := by
  obtain ⟨newer, same⟩ := longer
  unfold ParseCache.place? at found ⊢
  rw [same, Array.findIdx?_append, found]
  rfl

/-- At the place of a source stands what parsing it anew would give. -/
theorem entry_of_place? (found : cache.place? source = some place) :
    cache.entries[place]? = some (source, Expr.parse source) := by
  obtain ⟨below, fits, -⟩ := Array.findIdx?_eq_some_iff_getElem.mp found
  have named : cache.entries[place].1 = source := by simpa using fits
  have faithful := cache.faithful _ (Array.getElem_mem below)
  rw [named] at faithful
  rw [Array.getElem?_eq_getElem below]
  exact congrArg some (Prod.ext named faithful)

theorem place?_add (absent : cache.place? source = none) :
    (cache.add source).place? source = some cache.entries.size := by
  unfold ParseCache.place? at absent ⊢
  unfold add
  rw [Array.findIdx?_push, absent, if_pos (by simp)]
  rfl

/-- Sources that share a place are the same. -/
theorem eq_of_place? {other : String} (found : cache.place? source = some place)
    (again : cache.place? other = some place) : source = other := by
  have same := (entry_of_place? found).symm.trans (entry_of_place? again)
  exact congrArg Prod.fst (Option.some.inj same)

/-- What the cache gives is the parse of the source, with the place that the source has from then on. -/
theorem parse_eq (cache : ParseCache) (source : String) : ∃ place,
    (cache.parse source).1 = (Expr.parse source).map (place, ·) ∧
      (cache.parse source).2.place? source = some place ∧ cache.Extends (cache.parse source).2 := by
  unfold parse
  cases known : cache.place? source with
  | none => exact ⟨cache.entries.size, rfl, place?_add known, extends_add cache source⟩
  | some place =>
      dsimp only
      rw [entry_of_place? known]
      exact ⟨place, rfl, known, .refl cache⟩

/-- A call looks a source up, and adds its parse if there is none. In between, others may add theirs. What
is there by then is not replaced. -/
inductive Call (source : String) (early : ParseCache) : Except EvalError (Nat × Expr) → ParseCache → Prop where
  | hit {place : Nat} {entry : String × Except EvalError Expr} (known : early.place? source = some place)
      (held : early.entries[place]? = some entry) : Call source early (entry.2.map (place, ·)) early
  | missed {later : ParseCache} (absent : early.place? source = none) (meanwhile : early.Extends later) :
      Call source early (later.parse source).1 (later.parse source).2

/-- To parse is to call when nobody else does. -/
theorem call_parse (cache : ParseCache) (source : String) :
    Call source cache (cache.parse source).1 (cache.parse source).2 := by
  cases known : cache.place? source with
  | none => exact .missed known (.refl cache)
  | some place =>
      have parsed : cache.parse source = ((Expr.parse source).map (place, ·), cache) := by
        unfold parse
        rw [known]
        dsimp only
        rw [entry_of_place? known]
      rw [parsed]
      exact .hit known (entry_of_place? known)

namespace Call

variable {result : Except EvalError (Nat × Expr)}

/-- Each call answers with the parse of its source, at the place that the source has from then on. -/
theorem answers (call : Call source early result late) : ∃ place,
    result = (Expr.parse source).map (place, ·) ∧ late.place? source = some place ∧ early.Extends late := by
  cases call with
  | hit known held =>
      rename_i place entry
      cases (entry_of_place? known).symm.trans held
      exact ⟨place, rfl, known, .refl early⟩
  | missed absent meanwhile =>
      rename_i later
      obtain ⟨place, same, found, longer⟩ := later.parse_eq source
      exact ⟨place, same, found, meanwhile.trans longer⟩

/-- A call that succeeds has the parse of its source, and its place. -/
theorem parsed {expr : Expr} (call : Call source early (.ok (place, expr)) late) :
    Expr.parse source = .ok expr ∧ late.place? source = some place := by
  obtain ⟨there, same, found, -⟩ := call.answers
  cases parsed : Expr.parse source with
  | error error =>
      rw [parsed] at same
      cases same
  | ok parse =>
      rw [parsed] at same
      cases same
      exact ⟨rfl, found⟩

end Call

end ParseCache

namespace Live

variable {run : Runner} {state : TargetId} {source : String} {world : World}

theorem raise_map_snd {A B : Type} (result : Except EvalError (A × B)) (next : B → Live Value) (world : World) :
    ((Expr.raise result : Live (A × B)) >>= fun pair => next pair.2) world =
      ((Expr.raise (result.map Prod.snd) : Live B) >>= next) world := by
  cases result <;> rfl

/-- A source that is evaluated through the cache is evaluated as if it were parsed anew. -/
theorem evaluateStrictly_eq_fresh (run : Runner) (state : TargetId) (source : String) (world : World) :
    evaluateStrictly run state source world =
      ((Expr.raise (Expr.parse source) : Live Expr) >>= Expr.eval (scopeOf run state))
        { world with parses := (world.parses.parse source).2 } := by
  have parses : parseCached source world = .ok (world.parses.parse source).1
      { world with parses := (world.parses.parse source).2 } := rfl
  unfold evaluateStrictly
  rw [bind_of_ok parses, raise_map_snd, world.parses.map_parse]

end Live

/-- However code ends, the cache is only added to. -/
def Conduct.caching : Conduct :=
  .always (fun before after => before.parses.Extends after.parses) (fun world => .refl world.parses)
    ParseCache.Extends.trans

namespace Caching

open Live

variable {A : Type} {run : Runner} {depth : Nat} {before after world origin : World}

theorem calm_of_same (same : after.parses = before.parses) : Conduct.caching.calm before after := by
  show before.parses.Extends after.parses
  rw [same]
  exact .refl before.parses

theorem parses_foldl {B : Type} {change : World → B → World}
    (keeps : ∀ (world : World) item, (change world item).parses = world.parses) (world : World)
    (items : List B) : (items.foldl change world).parses = world.parses := by
  induction items generalizing world with
  | nil => rfl
  | cons item rest inductionHypothesis => exact (inductionHypothesis _).trans (keeps world item)

theorem parses_disposeEffect (world : World) (id : EffectId) :
    (world.disposeEffect id).parses = world.parses := by
  unfold World.disposeEffect
  split
  · rfl
  · split <;> rfl

theorem parses_disposeBindings (world : World) (bindings : Bindings) :
    (world.disposeBindings bindings).parses = world.parses := by
  have disposed := parses_foldl parses_disposeEffect world bindings.effects
  unfold World.disposeBindings
  dsimp only
  split <;> exact disposed

theorem parses_endHost (world : World) (id : HostId) : (world.endHost id).parses = world.parses := by
  rcases World.endHost_eq world id with ⟨-, same⟩ | ⟨host, -, same⟩
  · rw [same]
  · rw [same, parses_disposeBindings, parses_foldl parses_disposeEffect]
    rfl

theorem parses_collect (world : World) : world.collect.parses = world.parses :=
  have ends : ∀ (world : World) id, (world.endState id).parses = world.parses := fun _ _ => rfl
  World.collect_of_rounds (fun before after => after.parses = before.parses) (fun _ => rfl)
    (fun early late => late.trans early) (fun world => parses_foldl ends world _)
    (fun world => parses_foldl parses_endHost world _) world

theorem calm_closing (world : World) (holds : List Hold) :
    Conduct.caching.calm world { world with holds }.collect := calm_of_same (parses_collect _)

theorem inFrame {frame : Option EffectId} {action : Live A}
    (follows : Follows Conduct.caching action { world with graph := world.graph.push frame }) :
    Follows Conduct.caching (Live.inFrame frame action) world := by
  have leaves : ∀ after : World, Conduct.caching.calm after { after with graph := after.graph.pop }.collect :=
    fun after => calm_of_same (parses_collect _)
  exact follows.ending leaves

theorem plain : Plain Conduct.caching where
  finishes _ _ _ := calm_of_same rfl
  notes _ _ := calm_of_same rfl
  meets _ _ := calm_of_same rfl
  parses source world := by
    obtain ⟨_, -, -, longer⟩ := world.parses.parse_eq source
    exact longer
  holds held world := by
    refine Follows.modifies (calm_of_same ?_)
    split <;> rfl
  operates _ world follows := follows.ending fun after => calm_closing after world.holds
  letsGo _ world := Follows.modifies (calm_closing world _)
  untracks _ _ follows := inFrame follows
  tracks _ _ _ _ := Follows.modifies (calm_of_same rfl)
  tracksByHand _ _ := .trackByHand (fun _ => Follows.modifies (calm_of_same rfl))
    fun _ => Follows.modifies (calm_of_same rfl)
  nodes _ _ := calm_of_same rfl

theorem runEffect (keeps : run.Keeps Conduct.caching) (id : EffectId) (world : World) :
    Follows Conduct.caching (Live.runEffect run id) world :=
  Follows.runEffect keeps (fun _ => calm_of_same rfl) fun _ _ follows => inFrame follows

theorem trigger (keeps : run.Keeps Conduct.caching) (target : TargetId) (name : String) (world : World) :
    Follows Conduct.caching (Live.trigger run target name) world :=
  plain.trigger (fun _ _ => calm_of_same rfl) (runEffect keeps) target name world

theorem dropBindings (id : HostId) (world : World) :
    Follows Conduct.caching (Live.dropBindings id) world := by
  refine Follows.asks ?_
  split
  · exact Follows.pure _
  · rename_i host _
    have forgets : Follows Conduct.caching (Live.modifyHost id fun host => { host with bindings := {} })
        world := Follows.modifies (calm_of_same rfl)
    exact forgets.bind fun _ after _ => Follows.modifies
      (calm_of_same ((parses_collect _).trans (parses_disposeBindings after host.bindings)))

theorem primitive (keeps : run.Keeps Conduct.caching) :
    Primitive Conduct.caching run fun _ => False where
  toPlain := plain
  keeps := keeps
  breaks calm := calm
  records _ _ := calm_of_same rfl
  tracksHost _ _ _ _ _ _ := Follows.modifies (calm_of_same rfl)
  names _ _ _ := calm_of_same rfl
  recovers _ _ broken := broken
  emits _ _ _ _ := calm_of_same rfl
  collects world := calm_of_same (parses_collect world)
  addsTarget _ _ _ := calm_of_same rfl
  presets _ _ _ world := plain.presetValue (fun _ => Follows.modifies (calm_of_same rfl))
    (fun _ => Follows.modifies (calm_of_same rfl)) world
  writes _ _ _ _ := plain.writeValue (Follows.modifies (calm_of_same rfl)) (trigger keeps _ _)
  addsMethod _ _ _ _ := Follows.modifies (calm_of_same rfl)
  starts _ _ _ _ _ := calm_of_same rfl
  runsEffect id world _ := runEffect keeps id world
  triggers := trigger keeps
  releases target world := by
    have attests : Follows Conduct.caching (Live.attest (.released target)) world :=
      Follows.modifies (calm_of_same rfl)
    exact attests.bind fun _ _ _ => Follows.modifies (calm_of_same rfl)
  disposes id _ world calm _ :=
    Conduct.caching.trans calm (calm_of_same (parses_disposeEffect world id))
  namesEffect _ _ _ _ calm _ := calm
  namesBindings _ _ _ _ calm _ := calm
  createsNode _ _ := calm_of_same rfl
  plants _ _ := calm_of_same rfl
  setsValue _ _ _ := calm_of_same rfl
  listens _ _ _ _ := calm_of_same rfl
  edits _ _ _ _ _ _ := calm_of_same rfl
  shows _ _ _ := Follows.asks (calm_of_same rfl)
  changesTemplate _ _ _ := calm_of_same rfl
  hooks _ _ _ _ := calm_of_same rfl
  tells _ _ _ _ := calm_of_same rfl
  mounts _ _ _ := calm_of_same rfl
  templates _ _ _ _ := calm_of_same rfl
  dropsContent id world _ := dropBindings id world
  installs _ _ _ _ _ _ _ calm _ := calm
  removes _ _ _ _ := calm_of_same rfl
  rendersOwn _ _ impossible := impossible.elim
  mountsOwn _ _ impossible := impossible.elim
  rerendersOwn _ _ impossible := impossible.elim
  destroysOwn _ _ impossible := impossible.elim
  addsHost _ _ _ _ _ calm _ _ := calm
  startsRenderer _ _ _ := calm_of_same rfl
  runsRenderer := runEffect keeps
  rendersBy _ _ _ _ calm _ := calm
  namesHost _ _ _ := calm_of_same rfl

end Caching

theorem lawful_caching (depth : Nat) : Lawful Conduct.caching (Live.runTo depth) :=
  (Caching.primitive (Runner.keeps_runTo (fun world => ParseCache.Extends.refl world.parses)
    (fun _ keeps => (Caching.primitive keeps).lawful) depth)).lawful

open Live in
/-- Each call of the parser that is cached answers like the parser, for failures as well, whatever other calls
add while it is in progress. Calls that succeed have the same place iff their texts are the same, as soon as
one cache knows both. All code of a world only adds to its cache, and evaluates each source as if it were
parsed anew, in a state as well as on plain fields. -/
theorem parsing_cached_transparently :
    (∀ source early result late, ParseCache.Call source early result late →
      early.Extends late ∧ result.map Prod.snd = Expr.parse source) ∧
    (∀ source early place expr after other late next again final,
      ParseCache.Call source early (.ok (place, expr)) after →
      ParseCache.Call other late (.ok (next, again)) final → after.Extends final →
        (place = next ↔ source = other)) ∧
    (∀ (depth : Nat) activity (world : World),
      world.parses.Extends (worldAfter (runTo depth activity) world).parses) ∧
    (∀ commands (world : World), world.parses.Extends (world.play commands).2.parses) ∧
    (∀ run state source (world : World), ∃ result after,
      parseCached source world = .ok result after ∧
      ParseCache.Call source world.parses result after.parses ∧
      evaluateStrictly run state source world =
        ((Expr.raise (Expr.parse source) : Live Expr) >>= Expr.eval (scopeOf run state)) after) ∧
    ∀ (cache : ParseCache) source fields,
      ((cache.parse source).1 >>= fun placed => Expr.eval (Scope.ofFields fields) placed.2) =
        Expr.evalSource fields source := by
  refine ⟨?_, ?_, ?_, ?_, ?_, ?_⟩
  · intro source early result late call
    obtain ⟨place, rfl, -, longer⟩ := call.answers
    refine ⟨longer, ?_⟩
    cases Expr.parse source <;> rfl
  · intro source early place expr after other late next again final first second longer
    have here := longer.place? first.parsed.2
    have there := second.parsed.2
    constructor
    · rintro rfl
      exact ParseCache.eq_of_place? here there
    · rintro rfl
      exact Option.some.inj (here.symm.trans there)
  · intro depth activity world
    have keeps := Runner.keeps_runTo (fun world => ParseCache.Extends.refl world.parses)
      (fun _ keeps => (Caching.primitive keeps).lawful) depth
    have follows : Follows (.always (fun before after => before.parses.Extends after.parses)
        (fun world => .refl world.parses) ParseCache.Extends.trans) (runTo depth activity) world :=
      keeps activity world trivial
    exact Follows.always_iff.mp follows
  · intro commands world
    have lawful : ∀ depth, Lawful (.always (fun before after => before.parses.Extends after.parses)
        (fun world => .refl world.parses) ParseCache.Extends.trans) (runTo depth) := lawful_caching
    exact World.play_follows_always lawful (fun world => .refl world.parses) world commands
  · intro run state source world
    exact ⟨_, _, rfl, world.parses.call_parse source, evaluateStrictly_eq_fresh run state source world⟩
  · intro cache source fields
    unfold Expr.evalSource
    rw [← cache.map_parse source]
    cases (cache.parse source).1 <;> rfl

/-- The first text is parsed again after another one that differs by blanks. -/
theorem parses_of_spacedTexts : ∃ first second third : ParseCache, ∃ sum same other,
    ParseCache.Call "a + 1" .empty (.ok (0, sum)) first ∧
    ParseCache.Call "a+1" first (.ok (1, other)) second ∧
    ParseCache.Call "a + 1" second (.ok (0, same)) third ∧
    Expr.parse "a + 1" = .ok sum ∧ (0 = 0 ↔ "a + 1" = "a + 1") ∧ (1 = 0 ↔ "a+1" = "a + 1") := by
  obtain ⟨answers, identifies, -⟩ := parsing_cached_transparently
  have placed : ∀ (cache : ParseCache) source place,
      (cache.parse source).1.toOption.map Prod.fst = some place →
        ∃ expr, ParseCache.Call source cache (.ok (place, expr)) (cache.parse source).2 := by
    intro cache source place found
    have call := cache.call_parse source
    cases parsed : (cache.parse source).1 with
    | error error =>
        rw [parsed] at found
        cases found
    | ok both =>
        rw [parsed] at found call
        cases found
        exact ⟨both.2, call⟩
  let first := (ParseCache.empty.parse "a + 1").2
  let second := (first.parse "a+1").2
  obtain ⟨sum, one⟩ := placed .empty "a + 1" 0 (by decide +kernel)
  obtain ⟨other, two⟩ := placed first "a+1" 1 (by decide +kernel)
  obtain ⟨same, three⟩ := placed second "a + 1" 0 (by decide +kernel)
  have whole := (answers _ _ _ _ two).1.trans (answers _ _ _ _ three).1
  exact ⟨first, second, _, sum, same, other, one, two, three, ((answers _ _ _ _ one).2).symm,
    identifies _ _ _ _ _ _ _ _ _ _ one three whole, identifies _ _ _ _ _ _ _ _ _ _ two three (answers _ _ _ _ three).1⟩

end LiveMarkup
