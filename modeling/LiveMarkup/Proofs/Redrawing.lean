import LiveMarkup.Proofs.Asking
import LiveMarkup.Proofs.Writes

/-
This file follows a write from outside to the turn of a render effect, and shows that a mounted host renders
once for it, if nothing else makes it render.
-/

namespace LiveMarkup

/-- An effect that is not disposed in the end has not been disposed before. -/
theorem World.Later.lasting {before after : World} {effect : EffectId} (later : before.Later after)
    (lasting : after.graph.isDisposed effect = false) : before.graph.isDisposed effect = false := by
  cases gone : before.graph.isDisposed effect with
  | false => rfl
  | true => cases lasting.symm.trans (later.isDisposed gone)

namespace Pacing

open Live

variable {world after drawn : World} {id : HostId} {effect bound : EffectId} {host record : Host} {depth : Nat}

/-- Content that is new comes after the old bindings were disposed. -/
theorem disposed_of_renderHost (reachable : world.Reachable) (found : world.host? id = some host)
    (listed : bound ∈ host.bindings.effects) (known : bound < world.graph.effects.size) {rendered : World}
    (returned : Live.renderHost (runTo depth) id world = .ok (.ok ()) rendered) :
    rendered.graph.isDisposed bound = true := by
  have lasting := Lasting.primitive (lasts depth)
  unfold Live.renderHost at returned
  rw [get_bind, found] at returned
  obtain ⟨parse, planted, parses, returned⟩ := bind_eq_ok.mp returned
  have kept : planted.host? id = some host := by
    obtain ⟨notices, same⟩ := parseTemplate_eq host.component.template world
    rw [← (EStateM.Result.ok.inj (same.symm.trans parses)).2]
    exact found
  cases parse with
  | error error => cases returned
  | ok fragment =>
      obtain ⟨_, final, content, ends⟩ := bind_eq_ok.mp returned
      cases ends
      obtain ⟨_, attested, attests, content⟩ := bind_eq_ok.mp content
      obtain ⟨_, dropped, drops, content⟩ := bind_eq_ok.mp content
      obtain ⟨bindings, last, binds, content⟩ := bind_eq_ok.mp content
      obtain ⟨_, installed, installs, content⟩ := bind_eq_ok.mp content
      obtain ⟨_, noted, notes, discards⟩ := bind_eq_ok.mp (get_bind _ _ ▸ content)
      have first : world.Later planted := (lasting.parseTemplate _ world).calm parses
      have second : planted.Later attested := (Lasting.attest _).calm attests
      have there : attested.host? id = some host := by
        cases attests
        exact kept
      have third : dropped.graph.isDisposed bound = true := by
        cases (World.dropBindings_eq there).symm.trans drops
        let forgotten := attested.modifyHost id fun host => { host with bindings := {} }
        have disposed : (forgotten.disposeBindings host.bindings).graph.isDisposed bound = true :=
          have reached : forgotten.Reachable := (first.trans second).reachable reachable
          World.isDisposed_disposeBindings reached (Nat.lt_of_lt_of_le known (first.trans second).effects) listed
        exact (World.later_collect _).isDisposed disposed
      have fourth : dropped.Later last := (lasting.bind _ _ dropped).1.calm binds
      have fifth : last.graph.isDisposed bound = true := fourth.isDisposed third
      have sixth : installed.Later rendered := ((Lasting.note _).calm notes).trans
        ((lasts depth (.rendered id) noted trivial).discard.calm discards)
      cases installs
      exact sixth.isDisposed fifth

theorem disposed_of_drawHost (reachable : world.Reachable) (found : world.host? id = some host)
    (listed : bound ∈ host.bindings.effects) (known : bound < world.graph.effects.size)
    (returned : Live.drawHost (runTo depth) id world = .ok (.ok ()) drawn) :
    drawn.graph.isDisposed bound = true := by
  obtain ⟨rendered, renders, rfl⟩ := Basic.drawHost_eq_ok.mp returned
  have begun : (world.tell id .began).host? id = some { host with story := .began :: host.story } := by
    unfold World.tell
    rw [World.host?_modifyHost, if_pos rfl, found]
    rfl
  have reached : (world.tell id .began).Reachable := reachable
  show rendered.graph.isDisposed bound = true
  exact disposed_of_renderHost reached begun listed known renders

/-- A host that is rendered because of a write tells of the update or refuses. -/
theorem told_of_redraw (furnished : world.Furnished) (has : world.HasTask effect (.render id))
    (found : world.host? id = some host) (returned : redraw (runTo depth) id host world = .ok () after) :
    ∃ told, (after.account id).story = told ++ (world.account id).story ∧
      (.refused ∈ told ∨ .emitted .update ∈ told ∧
        ∀ bound ∈ host.bindings.effects, after.graph.isDisposed bound = true) := by
  have paces := paces_runTo depth
  obtain ⟨told, -, -, works, ends⟩ := works_redrawn (elementary paces.1 paces.2) furnished has host
  rw [worldAfter_of_ok returned] at works
  refine ⟨told, works.own.story, (ends after returned).imp_right ?_⟩
  rintro ⟨updated, drawn, draws, later⟩
  refine ⟨updated, fun bound listed => later.isDisposed ?_⟩
  exact disposed_of_drawHost furnished.reachable found listed (furnished.sound bound (.content id) ⟨host, found, listed⟩)
    draws

/-- The task of a render effect redraws its host if that is mounted. -/
theorem told_of_rerender (furnished : world.Furnished) (has : world.HasTask effect (.render id))
    (found : world.host? id = some host) (alive : host.alive = true) (mounted : host.mounted = true)
    (returned : Live.rerender (runTo depth) id world = .ok () after) :
    ∃ told, (after.account id).story = told ++ (world.account id).story ∧
      (.refused ∈ told ∨ .emitted .update ∈ told ∧
        ∀ bound ∈ host.bindings.effects, after.graph.isDisposed bound = true) := by
  obtain ⟨last, inside, rfl⟩ : ∃ last, (do
      Live.hold (.host id)
      Live.track host.state .any
      redraw (runTo depth) id host) world = .ok () last ∧
        after = { last with holds := world.holds }.collect := by
    unfold Live.rerender operation at returned
    dsimp only at returned
    unfold ending at returned
    rw [get_bind, found] at returned
    simp only [alive, mounted, if_true] at returned
    split at returned
    · rename_i last inside
      cases returned
      exact ⟨last, inside, rfl⟩
    · cases returned
  obtain ⟨_, held, holds, inside⟩ := bind_eq_ok.mp inside
  obtain ⟨_, tracked, tracks, redraws⟩ := bind_eq_ok.mp inside
  have first := (plain.holds _ world).calm holds furnished
  have second := (track host.state .any held).calm tracks first.furnished
  have later := first.later.trans second.later
  have same : tracked.hosts = world.hosts := by
    cases tracks
    cases holds
    dsimp only
    split <;> rfl
  obtain ⟨told, story, ends⟩ := told_of_redraw second.furnished (later.hasTask has)
    (by unfold World.host? at found ⊢; rwa [same]) redraws
  have closes := World.carried_collect { last with holds := world.holds } id
  refine ⟨told, ?_, ends.imp_right (And.imp_right fun disposed bound listed => ?_)⟩
  · rw [closes.story, ← World.account_of_hosts same]
    exact story
  · exact (World.later_closing last world.holds).isDisposed (disposed bound listed)

/-- The render effect of a mounted host renders it in its turn, and tells of an update unless the template does
not parse. The old bindings are disposed afterwards. -/
theorem turn_of_runEffect (furnished : world.Furnished) (has : world.HasTask effect (.render id))
    (found : world.host? id = some host) (alive : host.alive = true) (mounted : host.mounted = true)
    (lasting : world.graph.isDisposed effect = false) (idle : some effect ∉ world.graph.stack)
    (returned : Live.runEffect (runTo depth) effect world = .ok () after) :
    Attempt (runTo depth) effect world true after ∧
      ∃ told, (after.account id).story = told ++ (world.account id).story ∧
        (.refused ∈ told ∨ .emitted .update ∈ told ∧
          ∀ bound ∈ host.bindings.effects, after.graph.isDisposed bound = true) := by
  obtain ⟨known, looked, task⟩ := has
  have lives : ¬ known.disposed = true := by
    unfold Graph.isDisposed at lasting
    rw [looked] at lasting
    simpa using lasting
  have free : ¬ world.graph.isRunning effect = true := by
    simpa [Graph.isRunning] using idle
  have body : runBody (runTo depth) effect known world = .ok () after := by
    rwa [runEffect_apply (runTo depth) looked, if_neg lives, if_neg free] at returned
  refine ⟨.ran looked lasting idle body, ?_⟩
  cases depth with
  | zero => cases body
  | succ depth =>
      obtain ⟨last, rerenders, rfl⟩ : ∃ last, Live.rerender (runTo depth) id (world.entered (some effect)) = .ok () last ∧
          after = { last with graph := last.graph.pop }.collect := by
        have runs : runBody (runTo (depth + 1)) effect known world =
            ending (discard (do Live.rerender (runTo depth) id; pure Value.null))
              (fun last => { last with graph := last.graph.pop }.collect) (world.entered (some effect)) := by
          unfold runBody
          rw [task]
          rfl
        rw [runs] at body
        unfold ending at body
        rw [discard_apply, bind_apply] at body
        cases outcome : Live.rerender (runTo depth) id (world.entered (some effect)) with
        | ok value last =>
            rw [outcome] at body
            cases body
            exact ⟨last, rfl, rfl⟩
        | error stop last =>
            rw [outcome] at body
            cases body
      have allowed : world.graph.Allows (.entered (some effect)) :=
        ⟨known, looked, Bool.eq_false_iff.mpr lives, Bool.eq_false_iff.mpr free⟩
      obtain ⟨told, story, ends⟩ := told_of_rerender (furnished.entered allowed)
        (World.hasTask_entered.mpr ⟨known, looked, task⟩) found alive mounted rerenders
      have closes := World.carried_collect { last with graph := last.graph.pop } id
      refine ⟨told, closes.story.trans story, ends.imp_right (And.imp_right fun disposed bound listed => ?_)⟩
      exact (World.later_collect _).isDisposed (disposed bound listed)

end Pacing

namespace Live

variable {world middle after final : World} {id : EffectId} {depth : Nat} {ran : Bool}
  {early late : List (EffectId × Bool)}

theorem runInTurn_append (run : Runner) (early late : List EffectId) :
    runInTurn run (early ++ late) = (do runInTurn run early; runInTurn run late) := by
  induction early with
  | nil => rfl
  | cons first rest inductionHypothesis =>
      show (do runEffect run first; letGo first; runInTurn run (rest ++ late)) = _
      rw [inductionHypothesis]
      simp only [runInTurn, bind_assoc]

theorem Turns.append {run : Runner} (first : Turns run world early middle) (second : Turns run middle late final) :
    Turns run world (early ++ late) final := by
  induction first with
  | next attempt _ inductionHypothesis => exact .next attempt (inductionHypothesis second)
  | _ => exact second

/-- An effect that is disposed stays so when another one has its turn. -/
theorem Attempt.isDisposed {other : EffectId} (attempt : Attempt (runTo depth) other world ran after)
    (disposed : world.graph.isDisposed id = true) : after.graph.isDisposed id = true := by
  cases attempt with
  | @ran world effect known lasting idle body =>
      have lives : ¬ effect.disposed = true := by
        unfold Graph.isDisposed at lasting
        rw [known] at lasting
        simpa using lasting
      have free : ¬ world.graph.isRunning other = true := by
        simpa [Graph.isRunning] using idle
      have runs : runEffect (runTo depth) other world = .ok () after := by
        rwa [runEffect_apply (runTo depth) known, if_neg lives, if_neg free]
      have later : world.Later after := (Lasting.runEffect (Pacing.lasts depth) other world).calm runs
      exact later.isDisposed disposed
  | passed _ graph _ =>
      rw [graph]
      exact disposed

/-- A notification that concerns an effect gives it a turn between the turns of others. -/
theorem turn_of_trigger {target : TargetId} {name : String} {early late : List EffectId}
    (parts : world.graph.concerned target name = early ++ id :: late)
    (returned : trigger (runTo depth) target name world = .ok () final) :
    ∃ before after ended, runInTurn (runTo depth) early (world.notifying target name) = .ok () before ∧
      runEffect (runTo depth) id before = .ok () after ∧
      runInTurn (runTo depth) late (after.lettingGo id) = .ok () ended ∧
      final = { ended with holds := world.holds }.collect := by
  rw [trigger_apply, parts, runInTurn_append] at returned
  unfold ending at returned
  split at returned
  · rename_i ended turned
    cases returned
    obtain ⟨_, before, ranEarly, turned⟩ := bind_eq_ok.mp turned
    obtain ⟨_, after, ran, turned⟩ := bind_eq_ok.mp turned
    obtain ⟨_, released, letting, ranLate⟩ := bind_eq_ok.mp turned
    cases letting
    exact ⟨before, after, ended, ranEarly, ran, ranLate, rfl⟩
  · cases returned

/-- An effect that is disposed does not run in any turn. -/
theorem Turns.not_ran (turns : Turns (runTo depth) world late final)
    (disposed : world.graph.isDisposed id = true) : (id, true) ∉ late := by
  induction turns with
  | @next world after _ other ran _ attempt _ inductionHypothesis =>
      have gone := attempt.isDisposed disposed
      have letting : after.Later (after.lettingGo other) := World.later_closing after _
      intro member
      rcases List.mem_cons.mp member with same | last
      · cases same
        cases attempt with
        | ran _ lasting _ _ => cases lasting.symm.trans disposed
      · exact inductionHypothesis (letting.isDisposed gone) last
  | _ => exact List.not_mem_nil

end Live

namespace Pacing

open Live

variable {world final : World} {id : HostId} {effect : EffectId} {record : Host} {depth : Nat}
  {state : TargetId} {key : String} {newer : List Milestone}

/-- An effect that ran in its turn ran before those that were made after it. Of these none runs that it disposed. -/
theorem turns_around {before after ended : World} {early late : List EffectId} (reachable : world.Reachable)
    (parts : world.graph.concerned state key = early ++ effect :: late) (first : world.Later before)
    (second : before.Later after)
    (ranEarly : runInTurn (runTo depth) early (world.notifying state key) = .ok () before)
    (attempt : Attempt (runTo depth) effect before true after)
    (ranLate : runInTurn (runTo depth) late (after.lettingGo effect) = .ok () ended) :
    ∃ turns, Turns (runTo depth) (world.notifying state key) turns ended ∧
      turns.map Prod.fst = world.graph.concerned state key ∧ (effect, true) ∈ turns ∧
      ∀ bound, effect < bound → after.graph.isDisposed bound = true → (bound, true) ∉ turns := by
  have letting : after.Later (after.lettingGo effect) := World.later_closing after _
  have known : ∀ other ∈ early ++ effect :: late, other < world.graph.effects.size := by
    obtain ⟨moves, path⟩ := reachable
    exact fun other member => known_of_mem_concerned path (parts ▸ member)
  have sorted := world.graph.pairwise_concerned state key
  rw [parts] at sorted
  obtain ⟨firstTurns, chain, firstIds⟩ := turns_of_runInTurn (fun other member => by
    rw [graph_notifying]
    exact known other (List.mem_append_left _ member)) ranEarly
  obtain ⟨lastTurns, rest, lastIds⟩ := turns_of_runInTurn (fun other member => Nat.lt_of_lt_of_le
    (known other (List.mem_append_right _ (List.mem_cons_of_mem _ member)))
      ((first.trans second).trans letting).effects) ranLate
  refine ⟨firstTurns ++ (effect, true) :: lastTurns, chain.append (.next attempt rest), ?_, by simp, ?_⟩
  · rw [parts, List.map_append, List.map_cons, firstIds, lastIds]
  · intro bound less disposed member
    rcases List.mem_append.mp member with before | later
    · have among : bound ∈ early := firstIds ▸ List.mem_map_of_mem before
      have earlier := (List.pairwise_append.mp sorted).2.2 bound among effect List.mem_cons_self
      exact absurd less (Nat.lt_asymm earlier)
    · rcases List.mem_cons.mp later with same | last
      · cases same
        exact absurd less (Nat.lt_irrefl _)
      · exact rest.not_ran (letting.isDisposed disposed) last

/-- A host that is not destroyed is still mounted when its render effect has its turn. -/
theorem there_at_turn {before : World} {older : List Milestone} {owed : Debt} (first : world.Later before)
    (rest : before.Later final) (found : world.host? id = some record) (mounted : record.mounted = true)
    (spends : world.Spends id older owed before) (stays : ∀ renders, .destroyed renders ∉ older)
    (alive : ∃ last, final.host? id = some last ∧ last.alive = true) :
    ∃ host, before.host? id = some host ∧ host.alive = true ∧ host.mounted = true := by
  obtain ⟨host, there, -⟩ := first.hosts id record found
  obtain ⟨newest, reached, -, -, lives⟩ := rest.hosts id host there
  obtain ⟨last, same, alive⟩ := alive
  cases reached.symm.trans same
  refine ⟨host, there, lives alive, ?_⟩
  have was : (world.account id).mounted = true := by
    rw [World.account_of_host found]
    exact mounted
  rcases spends.mounted was with still | ⟨renders, member⟩
  · rwa [World.account_of_host there] at still
  · exact absurd member (stays renders)

/-- All hosts go on with their stories before, in and after the turn of an effect. -/
theorem paces_around {before drawn ended : World} {early late : List EffectId} (furnished : world.Furnished)
    (ranEarly : runInTurn (runTo depth) early (world.notifying state key) = .ok () before)
    (ranOwn : Live.runEffect (runTo depth) effect before = .ok () drawn)
    (ranLate : runInTurn (runTo depth) late (drawn.lettingGo effect) = .ok () ended) :
    (∃ owed, world.Paces owed before) ∧ (∃ owed, before.Paces owed drawn) ∧
      ∃ owed, drawn.Paces owed { ended with holds := world.holds }.collect := by
  obtain ⟨keeps, pays⟩ := paces_runTo depth
  have listing := World.Paces.notifying furnished state key
  have first := listing.trans (worldAfter_of_ok ranEarly ▸ owes_runInTurn keeps pays early _ listing.furnished)
  have second := worldAfter_of_ok ranOwn ▸ owes_runEffect keeps pays effect before first.furnished
  have letting : Conduct.pacing.calm drawn (drawn.lettingGo effect) := calm_closes _ drawn
  have third := (letting second.furnished).trans
    (worldAfter_of_ok ranLate ▸ owes_runInTurn keeps pays late _ (letting second.furnished).furnished)
  exact ⟨⟨_, first⟩, ⟨_, second⟩, _, third.trans (calm_closes world.holds ended third.furnished)⟩

/-- If a host keeps its bindings until they are disposed in its turn, then all are disposed after it. -/
theorem disposed_after_turn {before drawn : World} {host : Host} (found : world.host? id = some record)
    (there : before.host? id = some host) (drops : world.Drops id before) (later : before.Later drawn)
    (disposes : ∀ bound ∈ host.bindings.effects, drawn.graph.isDisposed bound = true) :
    ∀ bound ∈ record.bindings.effects, drawn.graph.isDisposed bound = true := by
  intro bound listed
  rcases drops bound ⟨record, found, listed⟩ with ⟨last, looked, held⟩ | disposed
  · cases there.symm.trans looked
    exact disposes bound held
  · exact later.isDisposed disposed

/-- A notification that concerns the render effect of a mounted host redraws the host in the turn of the effect.
The old bindings come later, and have been disposed by then. -/
theorem redraws_of_trigger (furnished : world.Furnished) (idle : world.graph.stack = [])
    (has : world.HasTask effect (.render id)) (found : world.host? id = some record) (mounted : record.mounted = true)
    (listens : effect ∈ world.graph.concerned state key)
    (returned : Live.trigger (runTo depth) state key world = .ok () final)
    (story : (final.account id).story = newer ++ (world.account id).story)
    (parses : .refused ∉ newer) (stays : ∀ renders, .destroyed renders ∉ newer) (few : newer.count .began ≤ 1)
    (alive : ∃ last, final.host? id = some last ∧ last.alive = true)
    (lasting : final.graph.isDisposed effect = false) :
    .emitted .update ∈ newer ∧ ∃ turns ended, Turns (runTo depth) (world.notifying state key) turns ended ∧
      turns.map Prod.fst = world.graph.concerned state key ∧ (effect, true) ∈ turns ∧
      (∀ bound ∈ record.bindings.effects, (bound, true) ∉ turns) ∧
      final = { ended with holds := world.holds }.collect := by
  obtain ⟨early, late, parts⟩ := List.append_of_mem listens
  obtain ⟨before, drawn, ended, ranEarly, ranOwn, ranLate, rfl⟩ := turn_of_trigger parts returned
  obtain ⟨⟨_, first⟩, ⟨_, second⟩, _, rest⟩ := paces_around furnished ranEarly ranOwn ranLate
  obtain ⟨older, -, spends, kept⟩ := first.tells id
  obtain ⟨told, regular, draws, -⟩ := second.tells id
  obtain ⟨last, -, ends, -⟩ := rest.tells id
  have whole : newer = last ++ (told ++ older) := by
    have same := story.symm.trans ends.story
    rw [draws.story, spends.story, ← List.append_assoc, ← List.append_assoc] at same
    rw [← List.append_assoc]
    exact (List.append_left_inj _).mp same
  subst whole
  -- The turn comes while the host is mounted, so that the host is redrawn.
  have onward := second.later.trans rest.later
  obtain ⟨host, there, lives, mounts⟩ := there_at_turn first.later onward found mounted spends
    (fun renders member => stays renders (by simp [member])) alive
  have free : some effect ∉ before.graph.stack := by
    rw [first.later.stack, idle]
    exact List.not_mem_nil
  obtain ⟨attempt, heard, same, outcome⟩ := turn_of_runEffect first.furnished (first.later.hasTask has) there lives
    mounts (onward.lasting lasting) free ranOwn
  have equal : heard = told := (List.append_left_inj _).mp (same.symm.trans draws.story)
  rw [equal] at outcome
  obtain ⟨updated, disposes⟩ := outcome.resolve_left fun refused => parses (by simp [refused])
  -- Since no other render began, the host had kept its bindings until this turn.
  have began : 0 < told.count .began :=
    Nat.lt_of_lt_of_le (List.count_pos_iff.mpr updated) regular.count_emitted_le
  have quiet : .began ∉ older := by
    intro member
    have more := List.count_pos_iff.mpr member
    rw [List.count_append, List.count_append] at few
    omega
  have gone := disposed_after_turn found there (kept.resolve_left quiet) second.later disposes
  obtain ⟨turns, chain, listed, ran, spared⟩ := turns_around furnished.reachable parts first.later second.later
    ranEarly attempt ranLate
  refine ⟨by simp [updated], turns, ended, chain, listed, ran, fun bound held => ?_, rfl⟩
  obtain ⟨older, renders, less⟩ := furnished.bound id bound ⟨record, found, held⟩
  cases furnished.unique older effect id renders has
  exact spared bound less (gone bound held)

end Pacing

namespace World

variable {world : World} {id : HostId} {effect : EffectId} {record : Host} {write : Write} {state : TargetId}

/-- A step stores a value before it notifies anybody of it. -/
def storing (world : World) (holds : List Hold) (state : TargetId) (key : String) (value : Value) : World :=
  { world.forget with holds }.modifyStore state fun store =>
    { store with values := Dictionary.putSorted store.values key value }

theorem later_storing (world : World) (holds : List Hold) (state : TargetId) (key : String) (value : Value) :
    world.Later (world.storing holds state key value) :=
  ((later_forget world).trans (later_holds world.forget holds)).trans
    (later_modifyStore _ state _ (fun _ lives => lives) fun _ _ known => known)

theorem step_snd (world : World) (command : Command) :
    (world.step command).2 = Live.worldAfter (Live.start command) world.forget := by
  rw [step_eq]
  unfold Live.worldAfter
  cases Live.start command world.forget <;> rfl

/-- Whatever commands are played, hosts are furnished. -/
theorem Furnished.play (furnished : world.Furnished) (commands : List Command) : (world.play commands).2.Furnished := by
  induction commands generalizing world with
  | nil => exact furnished
  | cons command rest inductionHypothesis =>
      rw [play_cons]
      refine inductionHypothesis ?_
      have forgotten : world.forget.Furnished :=
        furnished.later (later_forget world) rfl fun entry member => ⟨entry, member, rfl⟩
      rw [step_snd]
      exact (Pacing.follows_iff.mp (start_follows lawful_pacing command world.forget) forgotten).furnished

theorem furnished_play (commands : List Command) : (empty.play commands).2.Furnished := by
  have idle : ∀ effect task, ¬ empty.HasTask effect task := by
    rintro effect task ⟨found, looked, -⟩
    simp [empty, Graph.effect?] at looked
  have unbound : ∀ id record, empty.host? id ≠ some record := by simp [empty, host?]
  refine Furnished.play ⟨⟨[], .here⟩, ?_, ?_, ?_, ?_, ?_, ?_⟩ commands
  · rintro effect place refers
    cases place with
    | names => simp [RefersAt, empty] at refers
    | bindings => simp [RefersAt, empty] at refers
    | content id => exact absurd refers.choose_spec.1 (unbound id _)
    | renderer id => exact absurd refers.choose_spec.1 (unbound id _)
  · exact fun effect id has => absurd has (idle effect _)
  · exact fun first second id one _ => absurd one (idle first _)
  · exact fun effect _ id => idle effect _
  · exact fun entry member => absurd member List.not_mem_nil
  · exact fun id effect refers => absurd refers.choose_spec.1 (unbound id _)

/-- A write is a notification in the world in which the value has been stored. -/
theorem perform_write (run : Runner) (found : world.stateFor? write.state = some state)
    (free : write.key ≠ Live.reservedKey) : ∃ holds value,
      Live.perform run [] write.command world.forget =
        (do Live.trigger run state write.key; pure Value.null) (world.storing holds state write.key value) := by
  obtain ⟨holds, held⟩ := Live.stateNamed_of_found (show world.forget.stateFor? write.state = some state from found)
  have writes : ∀ value, (do Live.writeValue run state write.key value; pure Value.null)
      ({ world.forget with holds } : World) =
        (do Live.trigger run state write.key; pure Value.null) (world.storing holds state write.key value) := by
    intro value
    unfold Live.writeValue
    rw [if_neg free]
    rfl
  cases write with
  | set name key value => exact ⟨holds, value, (Live.bind_of_ok held).trans (writes value)⟩
  | increase name key step =>
      obtain ⟨old, peeked⟩ := Live.peekValue_eq state key { world.forget with holds }
      refine ⟨holds, Live.increased step old, (Live.bind_of_ok held).trans ?_⟩
      have updates : Live.updateValue run state key (Live.increased step) { world.forget with holds } =
          Live.writeValue run state key (Live.increased step old) { world.forget with holds } := Live.bind_of_ok peeked
      show (Live.updateValue run state key (Live.increased step) >>= _) _ = _
      rw [← writes, Live.bind_apply, Live.bind_apply, updates]
      rfl

/-- A write that ends calmly has completed its notification. -/
theorem step_eq_of_write (found : world.stateFor? write.state = some state) (free : write.key ≠ Live.reservedKey)
    (calm : (world.step write.command).1.isCalm = true) : ∃ holds value final,
      Live.trigger (Live.runTo (Live.depthOf world)) state write.key (world.storing holds state write.key value) =
        .ok () final ∧ (world.step write.command).2 = { final with holds := world.holds }.collect := by
  obtain ⟨holds, value, performs⟩ := perform_write (Live.runTo (Live.depthOf world)) found free
  have starts : Live.start write.command world.forget =
      Live.ending (Live.perform (Live.runTo (Live.depthOf world)) [] write.command)
        (fun after => { after with holds := world.holds }.collect) world.forget := rfl
  rw [step_eq, starts] at calm ⊢
  unfold Live.ending at calm ⊢
  rw [performs, Live.bind_apply] at calm ⊢
  have unfailing := Live.unfailing_trigger (Live.depthOf world) state write.key
    (world.storing holds state write.key value)
  cases outcome : Live.trigger (Live.runTo (Live.depthOf world)) state write.key
      (world.storing holds state write.key value) with
  | ok _ final => exact ⟨holds, value, final, outcome, rfl⟩
  | error stop after =>
      rw [outcome] at calm
      cases stop with
      | failed error => exact absurd outcome (unfailing error after)
      | panicked payload => cases calm
      | exhausted => cases calm

end World

end LiveMarkup
