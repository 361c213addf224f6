import LiveMarkup.Proofs.Accounting
import LiveMarkup.Proofs.Finality
import LiveMarkup.Proofs.Wiring

/-
This file sets up an account of renders: who may begin one, and what a host tells when it ends. A host
renders when it is asked to, or when a notification concerns its render effect.
-/

namespace LiveMarkup

namespace Milestone

def asks : Milestone → Bool
  | .asked _ => true
  | _ => false

/-- Such a milestone does not belong to a render. -/
def isPlain : Milestone → Bool
  | .began => false
  | .ended => false
  | .answered _ => false
  | .emitted kind => kind ≠ .update
  | _ => true

end Milestone

namespace Story

/-- Renders have ends, and updates and answers come right behind renders. -/
inductive Regular : List Milestone → Prop
  | nil : Regular []
  | single {milestone : Milestone} (plain : milestone.isPlain = true) : Regular [milestone]
  | append {late early : List Milestone} (later : Regular late) (earlier : Regular early) :
      Regular (late ++ early)
  | drawn {inner : List Milestone} (inside : Regular inner) : Regular (.ended :: inner ++ [.began])
  | answered (call : Call) {inner : List Milestone} (inside : Regular inner) :
      Regular (.answered call :: .ended :: inner ++ [.began, .asked call])
  | updated {inner : List Milestone} (inside : Regular inner) :
      Regular (.emitted .update :: .ended :: inner ++ [.began])

namespace Regular

variable {story : List Milestone}

/-- A host does not tell of more updates than it began renders. -/
theorem count_emitted_le (regular : Regular story) : story.count (.emitted .update) ≤ story.count .began := by
  induction regular with
  | nil => exact Nat.le_refl _
  | @single milestone plain =>
      cases milestone <;> simp_all [Milestone.isPlain]
  | append _ _ later earlier =>
      rw [List.count_append, List.count_append]
      exact Nat.add_le_add later earlier
  | drawn _ inside =>
      simp only [List.cons_append, List.count_cons, List.count_append]
      simpa using Nat.le_succ_of_le inside
  | answered call _ inside =>
      simp only [List.cons_append, List.count_cons, List.count_append]
      simpa using Nat.le_succ_of_le inside
  | updated _ inside =>
      simp only [List.cons_append, List.count_cons, List.count_append]
      simpa using inside

/-- Who answers was asked. -/
theorem asked_of_answered (regular : Regular story) {call : Call} (answered : .answered call ∈ story) :
    .asked call ∈ story := by
  induction regular with
  | nil => cases answered
  | @single milestone plain =>
      cases List.mem_singleton.mp answered
      cases plain
  | append _ _ later earlier =>
      exact List.mem_append.mpr ((List.mem_append.mp answered).imp later earlier)
  | drawn _ inside => simp at answered ⊢; exact inside answered
  | answered other _ inside =>
      simp at answered ⊢
      exact answered.elim Or.inr fun within => Or.inl (inside within)
  | updated _ inside => simp at answered ⊢; exact inside answered

theorem undrawn (regular : Regular story) (none : story.count .began = 0) : Undrawn story := by
  have few := regular.count_emitted_le
  rw [none] at few
  exact ⟨List.count_eq_zero.mp none, List.count_eq_zero.mp (Nat.le_zero.mp few)⟩

/-- One render that is told of once is followed by its update. -/
theorem one_update (regular : Regular story) (begins : story.count .began = 1)
    (updates : story.count (.emitted .update) = 1) :
    ∃ late inner early, story = late ++ .emitted .update :: .ended :: inner ++ .began :: early ∧
      Undrawn late ∧ Undrawn inner ∧ Undrawn early := by
  induction regular with
  | nil => cases begins
  | @single milestone plain =>
      cases milestone <;> simp_all [Milestone.isPlain]
  | @append late early later earlier inLate inEarly =>
      rw [List.count_append] at begins updates
      have fewLate := later.count_emitted_le
      have fewEarly := earlier.count_emitted_le
      by_cases none : early.count .began = 0
      · have quiet := earlier.undrawn none
        have without := List.count_eq_zero.mpr quiet.2
        obtain ⟨last, inner, first, parts, restful⟩ := inLate (by omega) (by omega)
        refine ⟨last, inner, first ++ early, by rw [parts]; simp, restful.1, restful.2.1, ?_⟩
        exact restful.2.2.append quiet
      · have quiet := later.undrawn (by omega)
        have without := List.count_eq_zero.mpr quiet.2
        obtain ⟨last, inner, first, parts, restful⟩ := inEarly (by omega) (by omega)
        refine ⟨late ++ last, inner, first, by rw [parts]; simp, ?_, restful.2⟩
        exact quiet.append restful.1
  | @drawn inner inside _ =>
      have few := inside.count_emitted_le
      simp at begins updates
      rw [begins, updates] at few
      cases few
  | @answered call inner inside _ =>
      have few := inside.count_emitted_le
      simp at begins updates
      rw [begins, updates] at few
      cases few
  | @updated inner inside _ =>
      refine ⟨[], inner, [], rfl, .nil, inside.undrawn ?_, .nil⟩
      simpa [List.count_cons] using begins

end Regular

end Story

/-- A change concerns these effects. -/
def Notice.effects : Notice → List EffectId
  | .changed _ _ effects => effects
  | _ => []

/-- For each effect this is how many renders it may begin that no notification accounts for. -/
abbrev Debt := EffectId → Int

def Debt.none : Debt := fun _ => 0

namespace World

variable {world before after first second third : World} {id other : HostId} {effect : EffectId}
  {newer newest : List Milestone} {owed more : Debt}

/-- Each host has at most one render effect, and has it before it can be bound or found by a name. No name
stands for a render effect. -/
structure Furnished (world : World) : Prop where
  reachable : world.Reachable
  sound : world.Sound
  hosts : ∀ effect id, world.HasTask effect (.render id) → id < world.hosts.size
  unique : ∀ first second id, world.HasTask first (.render id) → world.HasTask second (.render id) →
    first = second
  unnamed : ∀ effect, world.RefersAt effect .names → ∀ id, ¬ world.HasTask effect (.render id)
  named : ∀ entry ∈ world.names.hosts, ∃ effect, world.HasTask effect (.render entry.2)
  bound : ∀ id effect, world.RefersAt effect (.content id) →
    ∃ older, world.HasTask older (.render id) ∧ older < effect

/-- Hosts last. -/
theorem Later.hosts_le (later : before.Later after) : before.hosts.size ≤ after.hosts.size := by
  refine Nat.le_of_not_lt fun known => ?_
  obtain ⟨newer, found, -⟩ := later.hosts after.hosts.size _ (Array.getElem?_eq_getElem known)
  exact absurd (Array.getElem?_eq_some_iff.mp found).1 (Nat.lt_irrefl _)

/-- What is no new effect has had its task before. -/
theorem Later.hasTask_of_size (later : before.Later after)
    (size : after.graph.effects.size = before.graph.effects.size) (effect : EffectId) (task : Task) :
    after.HasTask effect task ↔ before.HasTask effect task := by
  refine ⟨fun has => ?_, later.hasTask⟩
  have known := has.lt_size
  rw [size] at known
  exact (later.hasTask_iff known task).mp has

/-- Without new effects and new names of hosts, hosts stay furnished. -/
theorem Furnished.later (furnished : before.Furnished) (later : before.Later after)
    (size : after.graph.effects.size = before.graph.effects.size)
    (names : ∀ entry ∈ after.names.hosts, ∃ old ∈ before.names.hosts, old.2 = entry.2) :
    after.Furnished where
  reachable := later.reachable furnished.reachable
  sound := later.sound furnished.sound
  hosts effect id has := Nat.lt_of_lt_of_le
    (furnished.hosts effect id ((later.hasTask_of_size size effect _).mp has)) later.hosts_le
  unique first second id one two := furnished.unique first second id
    ((later.hasTask_of_size size first _).mp one) ((later.hasTask_of_size size second _).mp two)
  unnamed effect refers id has := by
    have before := (later.hasTask_of_size size effect _).mp has
    exact furnished.unnamed effect (later.inherits effect .names before.lt_size refers) id before
  named entry member := by
    obtain ⟨old, listed, same⟩ := names entry member
    obtain ⟨effect, has⟩ := furnished.named old listed
    exact ⟨effect, same ▸ later.hasTask has⟩
  bound id effect refers := by
    have known := later.sound furnished.sound effect _ refers
    rw [size] at known
    obtain ⟨older, has, less⟩ := furnished.bound id effect (later.inherits effect _ known refers)
    exact ⟨older, later.hasTask has, less⟩

/-- So often did the notifications that are on record concern an effect. -/
def listed (world : World) (effect : EffectId) : Nat := (world.notices.flatMap Notice.effects).count effect

/-- The effects of a host's bindings are bound to it as long as they live. -/
def Drops (id : HostId) (before after : World) : Prop :=
  ∀ effect, before.RefersAt effect (.content id) →
    after.RefersAt effect (.content id) ∨ after.graph.isDisposed effect = true

theorem Drops.trans (early : first.Drops id second) (late : second.Drops id third)
    (later : second.Later third) : first.Drops id third := by
  intro effect refers
  rcases early effect refers with still | gone
  · exact late effect still
  · exact Or.inr (later.isDisposed gone)

/-- A host goes on with its story. Each render that begins was asked for, or a notification concerned the
render effect, or it is owed to the effect. A host that was not destroyed stays mounted. -/
structure Spends (id : HostId) (newer : List Milestone) (owed : Debt) (before after : World) :
    Prop where
  story : (after.account id).story = newer ++ (before.account id).story
  listed : ∀ effect, before.HasTask effect (.render id) →
    (newer.count .began + before.listed effect : Int) ≤
      newer.countP Milestone.asks + after.listed effect + owed effect
  mounted : (before.account id).mounted = true →
    (after.account id).mounted = true ∨ ∃ renders, .destroyed renders ∈ newer

theorem Spends.trans (early : first.Spends id newer owed second) (late : second.Spends id newest more third)
    (later : first.Later second) :
    first.Spends id (newest ++ newer) (fun effect => owed effect + more effect) third where
  story := by rw [late.story, early.story, List.append_assoc]
  listed effect has := by
    have before := early.listed effect has
    have after := late.listed effect (later.hasTask has)
    rw [List.count_append, List.countP_append]
    push_cast
    omega
  mounted was := by
    rcases early.mounted was with still | ⟨renders, member⟩
    · exact (late.mounted still).imp_right fun ⟨renders, member⟩ =>
        ⟨renders, List.mem_append_left _ member⟩
    · exact Or.inr ⟨renders, List.mem_append_right _ member⟩

/-- A debt that is at most another one may be taken for it. -/
theorem Spends.mono (spends : before.Spends id newer owed after)
    (least : ∀ effect, before.HasTask effect (.render id) → owed effect ≤ more effect) :
    before.Spends id newer more after where
  story := spends.story
  listed effect has := by
    have counted := spends.listed effect has
    have small := least effect has
    omega
  mounted := spends.mounted

/-- A host tells what becomes of it, in some regular way. Unless it renders, it keeps its bindings. -/
def Tells (id : HostId) (owed : Debt) (before after : World) : Prop :=
  ∃ newer, Story.Regular newer ∧ before.Spends id newer owed after ∧
    (.began ∈ newer ∨ before.Drops id after)

theorem Tells.trans (early : first.Tells id owed second) (late : second.Tells id more third)
    (former : first.Later second) (latter : second.Later third) :
    first.Tells id (fun effect => owed effect + more effect) third := by
  obtain ⟨newer, regular, spends, drops⟩ := early
  obtain ⟨newest, regularToo, spendsToo, dropsToo⟩ := late
  refine ⟨newest ++ newer, .append regularToo regular, spends.trans spendsToo former, ?_⟩
  rcases drops with began | dropped
  · exact Or.inl (List.mem_append_right _ began)
  · exact dropsToo.imp (List.mem_append_left _) fun dropsLate => dropped.trans dropsLate latter

/-- Debts matter only for effects that were there before. -/
theorem Tells.mono (tells : before.Tells id owed after)
    (least : ∀ effect < before.graph.effects.size, owed effect ≤ more effect) :
    before.Tells id more after := by
  obtain ⟨newer, regular, spends, drops⟩ := tells
  exact ⟨newer, regular, spends.mono fun effect has => least effect has.lt_size, drops⟩

/-- Hosts stay furnished, and nobody but new hosts gets a render effect. -/
structure Furnishes (before after : World) : Prop where
  furnished : after.Furnished
  later : before.Later after
  old : ∀ effect id, id < before.hosts.size → after.HasTask effect (.render id) →
    before.HasTask effect (.render id)

theorem Furnishes.trans (early : first.Furnishes second) (late : second.Furnishes third) :
    first.Furnishes third where
  furnished := late.furnished
  later := early.later.trans late.later
  old effect id known has :=
    early.old effect id known (late.old effect id (Nat.lt_of_lt_of_le known early.later.hosts_le) has)

theorem Furnished.furnishes (furnished : before.Furnished) (later : before.Later after)
    (size : after.graph.effects.size = before.graph.effects.size)
    (names : ∀ entry ∈ after.names.hosts, ∃ old ∈ before.names.hosts, old.2 = entry.2) :
    before.Furnishes after where
  furnished := furnished.later later size names
  later := later
  old effect _ _ := (later.hasTask_of_size size effect _).mp

/-- All hosts may go on with their stories. -/
structure Paces (owed : Debt) (before after : World) : Prop extends Furnishes before after where
  tells : ∀ id, before.Tells id owed after

/-- One host goes on with its story in a given way, and the other hosts may go on too. -/
structure Works (id : HostId) (newer : List Milestone) (owed : Debt) (before after : World) : Prop
    extends Furnishes before after where
  own : before.Spends id newer owed after
  others : ∀ other, other ≠ id → before.Tells other .none after

namespace Paces

theorem trans (early : first.Paces owed second) (late : second.Paces more third) :
    first.Paces (fun effect => owed effect + more effect) third where
  toFurnishes := early.toFurnishes.trans late.toFurnishes
  tells id := (early.tells id).trans (late.tells id) early.later late.later

theorem mono (paces : before.Paces owed after)
    (least : ∀ effect < before.graph.effects.size, owed effect ≤ more effect) :
    before.Paces more after where
  toFurnishes := paces.toFurnishes
  tells id := (paces.tells id).mono least

theorem steadily (early : first.Paces .none second) (late : second.Paces .none third) :
    first.Paces .none third := (early.trans late).mono fun _ _ => Int.le_refl 0

theorem works (paces : before.Paces .none after) (id : HostId) :
    ∃ newer, Story.Regular newer ∧ before.Works id newer .none after := by
  obtain ⟨newer, regular, spends, -⟩ := paces.tells id
  exact ⟨newer, regular, paces.toFurnishes, spends, fun other _ => paces.tells other⟩

end Paces

namespace Works

theorem trans (early : first.Works id newer owed second) (late : second.Works id newest more third) :
    first.Works id (newest ++ newer) (fun effect => owed effect + more effect) third where
  toFurnishes := early.toFurnishes.trans late.toFurnishes
  own := early.own.trans late.own early.later
  others other apart :=
    ((early.others other apart).trans (late.others other apart) early.later late.later).mono
      fun _ _ => Int.le_refl 0

theorem mono (works : before.Works id newer owed after)
    (least : ∀ effect, before.HasTask effect (.render id) → owed effect ≤ more effect) :
    before.Works id newer more after where
  toFurnishes := works.toFurnishes
  own := works.own.mono least
  others := works.others

/-- A host that works in a regular way does what all hosts may do. -/
theorem paces (works : before.Works id newer owed after) (regular : Story.Regular newer)
    (drops : .began ∈ newer ∨ before.Drops id after)
    (least : ∀ effect, before.HasTask effect (.render id) → owed effect ≤ more effect)
    (some : ∀ effect, 0 ≤ more effect) : before.Paces more after where
  toFurnishes := works.toFurnishes
  tells other := by
    by_cases same : other = id
    · subst same
      exact ⟨newer, regular, works.own.mono least, drops⟩
    · exact (works.others other same).mono fun effect _ => some effect

end Works

/-! These changes begin no renders. -/

/-- Notices are added to those on record. -/
theorem listed_le (notices : before.notices <:+ after.notices) (effect : EffectId) :
    before.listed effect ≤ after.listed effect := by
  obtain ⟨newer, same⟩ := notices
  unfold World.listed
  rw [← same, List.flatMap_append, List.count_append]
  exact Nat.le_add_left _ _

theorem Spends.of_carried (carried : (before.account id).Carried (after.account id))
    (notices : before.notices <:+ after.notices) : before.Spends id [] .none after where
  story := carried.story
  listed effect _ := by
    have counted := listed_le notices effect
    simp only [List.count_nil, List.countP_nil, Debt.none]
    omega
  mounted was := Or.inl (carried.mounted.trans was)

theorem Drops.of_hosts (hosts : after.hosts = before.hosts) : before.Drops id after := by
  intro effect refers
  obtain ⟨host, found, listed⟩ := refers
  exact Or.inl ⟨host, by unfold host? at found ⊢; rwa [hosts], listed⟩

/-- No host has changed, and no effect is new. -/
theorem Paces.of_same (furnished : before.Furnished) (later : before.Later after)
    (size : after.graph.effects.size = before.graph.effects.size) (hosts : after.hosts = before.hosts)
    (names : ∀ entry ∈ after.names.hosts, ∃ old ∈ before.names.hosts, old.2 = entry.2)
    (notices : before.notices <:+ after.notices) : before.Paces .none after where
  toFurnishes := furnished.furnishes later size names
  tells id := ⟨[], .nil, .of_carried (.of_eq (account_of_hosts hosts id)) notices, Or.inr (.of_hosts hosts)⟩

theorem Paces.refl (furnished : world.Furnished) : world.Paces .none world :=
  .of_same furnished (.refl world) rfl rfl (fun entry member => ⟨entry, member, rfl⟩) (List.suffix_refl _)

theorem Paces.foldl {A : Type} {change : World → A → World}
    (each : ∀ (world : World) item, world.Furnished → world.Paces .none (change world item))
    (furnished : world.Furnished) (items : List A) : world.Paces .none (items.foldl change world) := by
  induction items generalizing world with
  | nil => exact .refl furnished
  | cons item rest inductionHypothesis =>
      have first := each world item furnished
      exact first.steadily (inductionHypothesis first.furnished)

theorem notices_disposeEffect (world : World) (effect : EffectId) :
    world.notices <:+ (world.disposeEffect effect).notices := by
  unfold World.disposeEffect
  split
  · exact List.suffix_refl _
  · split
    · exact List.suffix_refl _
    · exact List.suffix_cons _ _

theorem notices_foldl_disposeEffect (ids : List EffectId) (world : World) :
    world.notices <:+ (ids.foldl World.disposeEffect world).notices := by
  induction ids generalizing world with
  | nil => exact List.suffix_refl _
  | cons id rest inductionHypothesis =>
      exact (notices_disposeEffect world id).trans (inductionHypothesis (world.disposeEffect id))

theorem notices_disposeBindings (world : World) (bindings : Bindings) :
    world.notices <:+ (world.disposeBindings bindings).notices := by
  have disposed := notices_foldl_disposeEffect bindings.effects world
  unfold disposeBindings
  dsimp only
  split
  · exact disposed
  · exact disposed.trans (List.suffix_cons _ _)

theorem Paces.disposeEffect (furnished : world.Furnished) (effect : EffectId) :
    world.Paces .none (world.disposeEffect effect) :=
  have sweeps := sweeps_disposeEffect world effect
  .of_same furnished (later_disposeEffect world effect) sweeps.effects
    (objects_disposeEffect world effect).2 (fun entry member => ⟨entry, sweeps.names ▸ member, rfl⟩)
    (notices_disposeEffect world effect)

/-- Effects that exist are disposed with their bindings. -/
theorem isDisposed_disposeBindings (reachable : world.Reachable) (known : effect < world.graph.effects.size)
    {bindings : Bindings} (listed : effect ∈ bindings.effects) :
    (world.disposeBindings bindings).graph.isDisposed effect = true := by
  obtain ⟨last, found, disposed, -⟩ :=
    (over_disposeBindings reachable (Array.getElem?_eq_getElem known) listed).ended
  unfold Graph.isDisposed
  rw [found]
  exact disposed

/-- A host may forget its bindings when they are disposed. -/
theorem Drops.disposed {middle : World} {record : Host} (furnished : world.Furnished)
    (found : world.host? id = some record) (later : world.Later middle)
    (others : ∀ other, other ≠ id → middle.host? other = world.host? other) (other : HostId) :
    world.Drops other (middle.disposeBindings record.bindings) := by
  intro effect refers
  have known := furnished.sound effect _ refers
  obtain ⟨host, looked, listed⟩ := refers
  by_cases same : other = id
  · subst same
    cases found.symm.trans looked
    exact Or.inr (isDisposed_disposeBindings (later.reachable furnished.reachable)
      (Nat.lt_of_lt_of_le known later.effects) listed)
  · refine Or.inl ⟨host, ?_, listed⟩
    have kept := others other same
    unfold host? at kept looked ⊢
    rw [(objects_disposeBindings middle record.bindings).2, kept, looked]

theorem Paces.endHost (furnished : world.Furnished) (id : HostId) : world.Paces .none (world.endHost id) := by
  have sweeps := sweeps_endHost world id
  have furnishes := furnished.furnishes (later_endHost world id) sweeps.effects
    fun entry member => ⟨entry, sweeps.names ▸ member, rfl⟩
  rcases endHost_eq world id with ⟨-, same⟩ | ⟨record, found, ends⟩
  · rw [same]
    exact .refl furnished
  · refine ⟨furnishes, fun other => ⟨[], .nil, .of_carried (carried_endHost world id other) ?_, Or.inr ?_⟩⟩
    · rw [ends]
      exact (notices_foldl_disposeEffect _ (world.modifyHost id Host.dead)).trans
        (notices_disposeBindings _ _)
    · have marked : world.Later (world.modifyHost id Host.dead) :=
        later_modifyHost world id Host.dead (fun _ => rfl) (fun _ => rfl)
          (fun _ impossible => by cases impossible) (fun _ => Or.inr rfl) (fun _ => Or.inr rfl)
      rw [ends]
      refine .disposed furnished found (marked.trans (later_foldl later_disposeEffect _ _))
        (fun another apart => ?_) other
      unfold host?
      rw [(objects_foldl_disposeEffect _ _).2]
      exact (host?_modifyHost ..).trans (if_neg (Ne.symm apart))

theorem notices_foldl_endState (states : List TargetId) (world : World) :
    (states.foldl endState world).notices = world.notices := by
  induction states generalizing world with
  | nil => rfl
  | cons state rest inductionHypothesis => exact inductionHypothesis (world.endState state)

theorem Paces.endStates {states : List TargetId} (furnished : world.Furnished)
    (later : world.Later (states.foldl endState world)) :
    world.Paces .none (states.foldl endState world) := by
  have sweeps := Sweeps.foldl sweeps_endState world states
  refine .of_same furnished later sweeps.effects (hosts_foldl_endState states world)
    (fun entry member => ⟨entry, sweeps.names ▸ member, rfl⟩) ?_
  exact ⟨[], (notices_foldl_endState states world).symm⟩

theorem Paces.collect (furnished : world.Furnished) : world.Paces .none world.collect :=
  collect_of_rounds (fun before after => before.Furnished → before.Paces .none after)
    (fun _ => .refl) (fun early late furnished => (early furnished).steadily (late (early furnished).furnished))
    (fun world furnished => .endStates furnished (later_rounds world))
    (fun _ furnished => .foldl (fun _ id furnished => .endHost furnished id) furnished _) world furnished

theorem refersAt_content_modifyHost {change : Host → Host}
    (bindings : ∀ host, (change host).bindings = host.bindings) :
    (world.modifyHost id change).RefersAt effect (.content other) ↔ world.RefersAt effect (.content other) := by
  unfold RefersAt
  dsimp only
  rw [host?_modifyHost]
  split
  · cases world.host? other with
    | none => exact Iff.rfl
    | some host =>
        simp only [Option.map_some, Option.some.injEq, exists_eq_left', bindings]
  · exact Iff.rfl

theorem account_modifyHost_of_eq {change : Host → Host} (same : ∀ host, (change host).account = host.account) :
    (world.modifyHost id change).account other = world.account other := by
  unfold account
  rw [host?_modifyHost]
  split
  · cases world.host? other with
    | none => rfl
    | some host => exact same host
  · rfl

/-- The record of a host changes, and its story goes on. -/
theorem Works.modifyHost {change : Host → Host} {record : Host} (furnished : world.Furnished)
    (found : world.host? id = some record) (later : world.Later (world.modifyHost id change))
    (story : (change record).story = newer ++ record.story)
    (mounted : record.mounted = true →
      (change record).mounted = true ∨ ∃ renders, .destroyed renders ∈ newer)
    (counted : ∀ effect, (newer.count .began : Int) ≤ newer.countP Milestone.asks + owed effect) :
    world.Works id newer owed (world.modifyHost id change) where
  toFurnishes := furnished.furnishes later rfl fun entry member => ⟨entry, member, rfl⟩
  own := by
    have changed : (world.modifyHost id change).host? id = some (change record) := by
      rw [host?_modifyHost, if_pos rfl, found]
      rfl
    refine ⟨?_, fun effect _ => ?_, ?_⟩
    · rw [account_of_host changed, account_of_host found]
      exact story
    · have same : (world.modifyHost id change).listed effect = world.listed effect := rfl
      have less := counted effect
      rw [same]
      omega
    · rw [account_of_host changed, account_of_host found]
      exact mounted
  others other apart := by
    refine ⟨[], .nil, .of_carried (.of_eq (account_modifyHost_of_ne (Ne.symm apart) change))
      (List.suffix_refl _), Or.inr fun effect refers => Or.inl ?_⟩
    obtain ⟨host, looked, listed⟩ := refers
    refine ⟨host, ?_, listed⟩
    rw [host?_modifyHost, if_neg (Ne.symm apart)]
    exact looked

/-- A host that stays mounted and bound begins no render. -/
theorem Paces.modifyHost {change : Host → Host} (furnished : world.Furnished)
    (later : world.Later (world.modifyHost id change)) (story : ∀ host, (change host).story = host.story)
    (bindings : ∀ host, (change host).bindings = host.bindings)
    (mounted : ∀ host, host.mounted = true → (change host).mounted = true) :
    world.Paces .none (world.modifyHost id change) := by
  cases found : world.host? id with
  | none =>
      rw [modifyHost_of_absent found]
      exact .refl furnished
  | some record =>
      have works : world.Works id [] .none (world.modifyHost id change) :=
        .modifyHost furnished found later (story record) (fun was => Or.inl (mounted record was))
          fun _ => Int.le_refl 0
      exact works.paces .nil (Or.inr fun _ refers => Or.inl ((refersAt_content_modifyHost bindings).mpr refers))
        (fun _ _ => Int.le_refl 0) fun _ => Int.le_refl 0

end World

/-- Who is asked may render once more, and who begins to render has done so. -/
def Milestone.debt : Milestone → Int
  | .began => 1
  | .asked _ => -1
  | _ => 0

namespace World

variable {world before after first second third : World} {id other : HostId} {effect : EffectId}
  {newer newest : List Milestone} {owed more : Debt} {task : Task}

theorem Works.tell {record : Host} (furnished : world.Furnished) (found : world.host? id = some record)
    (milestone : Milestone) : world.Works id [milestone] (fun _ => milestone.debt) (world.tell id milestone) :=
  .modifyHost furnished found (Lasting.later_tell id milestone world) rfl Or.inl fun _ => by
    cases milestone <;> simp [Milestone.debt, Milestone.asks]

/-- A host may tell at any time what does not belong to a render. -/
theorem Paces.tell (furnished : world.Furnished) (id : HostId) {milestone : Milestone}
    (plain : milestone.isPlain = true) : world.Paces .none (world.tell id milestone) := by
  cases found : world.host? id with
  | none =>
      rw [tell_of_absent found]
      exact .refl furnished
  | some record =>
      have kept : ∀ host : Host, ({ host with story := milestone :: host.story } : Host).bindings = host.bindings :=
        fun _ => rfl
      have drops : world.Drops id (world.tell id milestone) := fun _ refers =>
        Or.inl ((refersAt_content_modifyHost kept).mpr refers)
      refine (Works.tell furnished found milestone).paces (.single plain) (Or.inr drops) (fun _ _ => ?_)
        fun _ => Int.le_refl 0
      cases milestone with
      | began => cases plain
      | asked call => exact (by decide : (-1 : Int) ≤ 0)
      | _ => exact Int.le_refl 0

theorem hasTask_of_withEffect {label : String} {made : Task} {captures : List TargetId}
    (has : (world.withEffect label made captures).HasTask effect task) :
    world.HasTask effect task ∨ (effect = world.graph.effects.size ∧ made = task) := by
  have later := Lasting.later_withEffect label made captures world
  by_cases old : effect < world.graph.effects.size
  · exact Or.inl ((later.hasTask_iff old task).mp has)
  · have size : (world.withEffect label made captures).graph.effects.size = world.graph.effects.size + 1 := by
      simp [World.withEffect, Graph.create]
    have known := has.lt_size
    rw [size] at known
    have latest : effect = world.graph.effects.size :=
      Nat.le_antisymm (Nat.le_of_lt_succ known) (Nat.le_of_not_lt old)
    subst latest
    obtain ⟨one, found, same⟩ := world.hasTask_withEffect label made captures
    obtain ⟨two, foundToo, sameToo⟩ := has
    cases found.symm.trans foundToo
    exact Or.inr ⟨rfl, same.symm.trans sameToo⟩

/-- An effect is new, and if it renders a host, then it is the first one to do so. -/
theorem Furnished.withEffect {label : String} {captures : List TargetId} (furnished : world.Furnished)
    (fresh : ∀ id, task = .render id → id < world.hosts.size ∧ ∀ effect, ¬ world.HasTask effect (.render id)) :
    (world.withEffect label task captures).Furnished := by
  have later := Lasting.later_withEffect label task captures world
  refine ⟨later.reachable furnished.reachable, later.sound furnished.sound, ?_, ?_, ?_, ?_, ?_⟩
  · intro effect id has
    rcases hasTask_of_withEffect has with old | ⟨-, same⟩
    · exact furnished.hosts effect id old
    · exact (fresh id same).1
  · intro first second id one two
    rcases hasTask_of_withEffect one with old | ⟨latest, same⟩
    · rcases hasTask_of_withEffect two with oldToo | ⟨-, same⟩
      · exact furnished.unique first second id old oldToo
      · exact absurd old ((fresh id same).2 first)
    · rcases hasTask_of_withEffect two with oldToo | ⟨latestToo, -⟩
      · exact absurd oldToo ((fresh id same).2 second)
      · exact latest.trans latestToo.symm
  · intro effect refers id has
    have named : world.RefersAt effect .names := refers
    rcases hasTask_of_withEffect has with old | ⟨latest, -⟩
    · exact furnished.unnamed effect named id old
    · exact absurd (furnished.sound effect _ named) (Nat.not_lt.mpr (Nat.le_of_eq latest.symm))
  · intro entry member
    obtain ⟨effect, has⟩ := furnished.named entry member
    exact ⟨effect, later.hasTask has⟩
  · intro id effect refers
    obtain ⟨older, has, less⟩ := furnished.bound id effect refers
    exact ⟨older, later.hasTask has, less⟩

/-- A host keeps its account when an effect is made. -/
theorem Tells.withEffect (label : String) (task : Task) (captures : List TargetId) (id : HostId) (world : World) :
    world.Tells id .none (world.withEffect label task captures) :=
  ⟨[], .nil, .of_carried (.refl _) (List.suffix_refl _), Or.inr (.of_hosts rfl)⟩

theorem Paces.withEffect {label : String} {captures : List TargetId} (furnished : world.Furnished)
    (other : ∀ id, task ≠ .render id) : world.Paces .none (world.withEffect label task captures) where
  furnished := furnished.withEffect fun id same => absurd same (other id)
  later := Lasting.later_withEffect label task captures world
  old effect id _ has := by
    rcases hasTask_of_withEffect has with old | ⟨-, same⟩
    · exact old
    · exact absurd same (other id)
  tells id := .withEffect label task captures id world

/-- Names and hosts may refer to further effects: hosts to such as came after their render effects, and names to
such as render no host. -/
theorem Furnishes.carry (furnishes : before.Furnishes world) (sound : before.Sound) (later : before.Later after)
    (graph : after.graph = world.graph) (size : world.hosts.size ≤ after.hosts.size)
    (contents : ∀ id effect, after.RefersAt effect (.content id) → world.RefersAt effect (.content id) ∨
      ∃ older, world.HasTask older (.render id) ∧ older < effect)
    (names : ∀ effect, after.RefersAt effect .names →
      world.RefersAt effect .names ∨ ∀ id, ¬ world.HasTask effect (.render id))
    (named : ∀ entry ∈ after.names.hosts, ∃ effect, world.HasTask effect (.render entry.2)) :
    before.Furnishes after := by
  have tasks : ∀ effect task, after.HasTask effect task ↔ world.HasTask effect task := by
    intro effect task
    unfold HasTask
    rw [graph]
  have furnished := furnishes.furnished
  refine ⟨⟨?_, later.sound sound, ?_, ?_, ?_, ?_, ?_⟩, later, ?_⟩
  · unfold Reachable
    rw [graph]
    exact furnished.reachable
  · exact fun effect id has => Nat.lt_of_lt_of_le (furnished.hosts effect id ((tasks _ _).mp has)) size
  · exact fun first second id one two =>
      furnished.unique first second id ((tasks _ _).mp one) ((tasks _ _).mp two)
  · intro effect refers id has
    rcases names effect refers with old | other
    · exact furnished.unnamed effect old id ((tasks _ _).mp has)
    · exact other id ((tasks _ _).mp has)
  · intro entry member
    obtain ⟨effect, has⟩ := named entry member
    exact ⟨effect, (tasks _ _).mpr has⟩
  · intro id effect refers
    have older : ∃ older, world.HasTask older (.render id) ∧ older < effect :=
      (contents id effect refers).elim (furnished.bound id effect) fun older => older
    obtain ⟨older, has, less⟩ := older
    exact ⟨older, (tasks _ _).mpr has, less⟩
  · exact fun effect id known has => furnishes.old effect id known ((tasks _ _).mp has)

theorem Spends.carry (spends : before.Spends id newer owed world)
    (story : (after.account id).story = (world.account id).story)
    (mounted : (after.account id).mounted = (world.account id).mounted)
    (notices : after.notices = world.notices) : before.Spends id newer owed after where
  story := story.trans spends.story
  listed effect has := by
    have same : after.listed effect = world.listed effect := by
      unfold World.listed
      rw [notices]
    rw [same]
    exact spends.listed effect has
  mounted := by
    rw [mounted]
    exact spends.mounted

theorem Tells.carry (tells : before.Tells id owed world) (graph : after.graph = world.graph)
    (accounts : after.account id = world.account id) (notices : after.notices = world.notices)
    (contents : ∀ effect, world.RefersAt effect (.content id) → after.RefersAt effect (.content id)) :
    before.Tells id owed after := by
  obtain ⟨newer, regular, spends, drops⟩ := tells
  refine ⟨newer, regular, spends.carry (by rw [accounts]) (by rw [accounts]) notices, ?_⟩
  refine drops.imp_right fun dropped effect refers => ?_
  rw [graph]
  exact (dropped effect refers).imp_left (contents effect)

end World

end LiveMarkup
