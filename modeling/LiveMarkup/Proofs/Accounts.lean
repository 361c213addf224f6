import LiveMarkup.Proofs.Sweeping

/-
This file says what a host is accountable for, and shows that what does not concern a host leaves its
account and its container alone.
-/

namespace LiveMarkup

/-- These nodes show something else after a deed. -/
def Deed.holders : Deed → List NodeId
  | .edited holders => holders
  | .shown _ holders => holders
  | .rendered _ _ holders => holders
  | .destroyed _ holders => holders
  | _ => []

/-- The story of a host tells how it came to be mounted and bound, and how often it has rendered. -/
structure Account where
  story : List Milestone := []
  mounted : Bool := false
  bindings : Bindings := {}
  renders : Nat := 0

def Host.account (host : Host) : Account where
  story := host.story
  mounted := host.mounted
  bindings := host.bindings
  renders := host.renders

/-- An account is carried over, except that bindings may be forgotten. -/
structure Account.Carried (before after : Account) : Prop where
  story : after.story = before.story
  mounted : after.mounted = before.mounted
  bindings : after.bindings = before.bindings ∨ after.bindings = {}
  renders : after.renders = before.renders

namespace Account.Carried

variable {first second third : Account}

theorem refl (account : Account) : account.Carried account := ⟨rfl, rfl, Or.inl rfl, rfl⟩

theorem of_eq (same : second = first) : first.Carried second := same ▸ .refl first

theorem trans (early : first.Carried second) (late : second.Carried third) : first.Carried third where
  story := late.story.trans early.story
  mounted := late.mounted.trans early.mounted
  bindings := by
    rcases late.bindings with same | none
    · rw [same]
      exact early.bindings
    · exact Or.inr none
  renders := late.renders.trans early.renders

end Account.Carried

namespace World

variable {world before after : World} {id : HostId}

/-- A host that does not exist has done nothing yet. -/
def account (world : World) (id : HostId) : Account := ((world.host? id).map Host.account).getD {}

theorem account_of_host {record : Host} (found : world.host? id = some record) :
    world.account id = record.account := by
  rw [account, found]
  rfl

theorem account_of_hosts (hosts : after.hosts = before.hosts) (id : HostId) :
    after.account id = before.account id := by
  unfold account host?
  rw [hosts]

theorem account_modifyHost_of_ne {other : HostId} (apart : other ≠ id) (change : Host → Host) :
    (world.modifyHost other change).account id = world.account id := by
  unfold account
  rw [host?_modifyHost, if_neg apart]

/-- A change of a host carries its account over if it does so for each host. -/
theorem carried_modifyHost (world : World) (other id : HostId) {change : Host → Host}
    (carries : ∀ host : Host, host.account.Carried (change host).account) :
    (world.account id).Carried ((world.modifyHost other change).account id) := by
  unfold account
  rw [host?_modifyHost]
  split
  · cases world.host? id with
    | none => exact .refl _
    | some host => exact carries host
  · exact .refl _

theorem modifyHost_of_absent (absent : world.host? id = none) (change : Host → Host) :
    world.modifyHost id change = world := by
  have beyond : world.hosts.size ≤ id := Array.getElem?_eq_none_iff.mp absent
  unfold modifyHost Array.modify
  simp [Array.modifyM, Nat.not_lt.mpr beyond]

/-- A host that is new has a clean account, like one that does not exist. -/
theorem account_withHost (world : World) (component : Component Script) (state : TargetId)
    (container : NodeId) (id : HostId) :
    (world.withHost component state container).account id = world.account id := by
  cases known : world.host? id with
  | some record =>
      rw [account_of_host known, account_of_host (host?_withHost_of_some component state container known)]
  | none =>
      unfold account
      rw [known]
      cases found : (world.withHost component state container).host? id with
      | none => rfl
      | some record =>
          rcases host?_of_withHost found with old | ⟨-, rfl⟩
          · cases known.symm.trans old
          · rfl

theorem carried_endHost (world : World) (other id : HostId) :
    (world.account id).Carried ((world.endHost other).account id) := by
  rcases endHost_eq world other with ⟨-, same⟩ | ⟨host, -, ends⟩
  · rw [same]
    exact .refl _
  · have marked : (world.account id).Carried ((world.modifyHost other Host.dead).account id) :=
      carried_modifyHost world other id fun _ => ⟨rfl, rfl, Or.inr rfl, rfl⟩
    refine marked.trans (.of_eq ?_)
    rw [ends, account_of_hosts (objects_disposeBindings _ _).2,
      account_of_hosts (objects_foldl_disposeEffect _ _).2]

theorem carried_foldl {A : Type} {change : World → A → World}
    (carries : ∀ (world : World) item, (world.account id).Carried ((change world item).account id))
    (world : World) (items : List A) :
    (world.account id).Carried ((items.foldl change world).account id) := by
  induction items generalizing world with
  | nil => exact .refl _
  | cons item rest inductionHypothesis => exact (carries world item).trans (inductionHypothesis _)

theorem carried_collect (world : World) (id : HostId) :
    (world.account id).Carried (world.collect.account id) :=
  have ends : ∀ (world : World) state, (world.account id).Carried ((world.endState state).account id) :=
    fun _ _ => .refl _
  collect_of_rounds (fun before after => (before.account id).Carried (after.account id))
    (fun _ => .refl _) .trans (fun world => carried_foldl ends world _)
    (fun world => carried_foldl (fun world other => carried_endHost world other id) world _) world

/-- A container that is a node stays what it was, unless a deed shows there. -/
def ContainerKept (id : HostId) (before : World) (recent : List Deed) (after : World) : Prop :=
  ∀ record, before.host? id = some record → record.container < before.forest.size →
    (∀ deed ∈ recent, record.container ∉ deed.holders) →
      after.forest.children record.container = before.forest.children record.container

/-- Nodes last, and a host stays in its container. -/
structure Moored (id : HostId) (before after : World) : Prop where
  nodes : before.forest.size ≤ after.forest.size
  host : ∀ record, before.host? id = some record →
    ∃ newer, after.host? id = some newer ∧ newer.container = record.container

namespace Moored

variable {first second third : World}

theorem of_later (later : before.Later after) : before.Moored id after where
  nodes := later.nodes
  host record found := by
    obtain ⟨newer, reached, container, -⟩ := later.hosts id record found
    exact ⟨newer, reached, container⟩

theorem of_hosts (hosts : after.hosts = before.hosts) (nodes : before.forest.size ≤ after.forest.size) :
    before.Moored id after where
  nodes := nodes
  host record found := ⟨record, by unfold host? at found ⊢; rwa [hosts], rfl⟩

theorem refl (id : HostId) (world : World) : world.Moored id world := .of_hosts rfl (Nat.le_refl _)

theorem trans (early : first.Moored id second) (late : second.Moored id third) :
    first.Moored id third where
  nodes := Nat.le_trans early.nodes late.nodes
  host record found := by
    obtain ⟨newer, reached, same⟩ := early.host record found
    obtain ⟨newest, last, still⟩ := late.host newer reached
    exact ⟨newest, last, still.trans same⟩

theorem modifyHost (world : World) (other id : HostId) {change : Host → Host}
    (container : ∀ host : Host, (change host).container = host.container) :
    world.Moored id (world.modifyHost other change) where
  nodes := Nat.le_refl _
  host record found := by
    rw [host?_modifyHost, found]
    split
    · exact ⟨change record, rfl, container record⟩
    · exact ⟨record, rfl, rfl⟩

end Moored

/-- What happened does not concern a host: its account is carried over, and it has not rendered. -/
structure Aloof (id : HostId) (before after : World) : Prop where
  moored : before.Moored id after
  account : (before.account id).Carried (after.account id)
  deeds : ∃ recent, after.deeds = recent ++ before.deeds ∧
    (∀ effects holders, .rendered id effects holders ∉ recent) ∧ before.ContainerKept id recent after
  absent : before.host? id = none → after.host? id = none

namespace Aloof

theorem host?_eq_none_of_hosts (hosts : after.hosts = before.hosts) (absent : before.host? id = none) :
    after.host? id = none := by
  unfold host? at absent ⊢
  rwa [hosts]

/-- Hosts, deeds and nodes are the same. -/
theorem of_same (hosts : after.hosts = before.hosts) (deeds : after.deeds = before.deeds)
    (forest : after.forest = before.forest) : before.Aloof id after where
  moored := .of_hosts hosts (Nat.le_of_eq (by rw [forest]))
  account := .of_eq (account_of_hosts hosts id)
  deeds := ⟨[], deeds, fun _ _ impossible => (by cases impossible), fun _ _ _ _ => by rw [forest]⟩
  absent := host?_eq_none_of_hosts hosts

theorem refl (id : HostId) (world : World) : world.Aloof id world := of_same rfl rfl rfl

/-- Nodes may change that are not children of the container. -/
theorem of_forest {forest : Forest Handler} (grows : world.forest.size ≤ forest.size)
    (keeps : ∀ root < world.forest.size, forest.children root = world.forest.children root) :
    world.Aloof id { world with forest } where
  moored := .of_hosts rfl grows
  account := .refl _
  deeds := ⟨[], rfl, fun _ _ impossible => (by cases impossible), fun record _ known _ =>
    keeps record.container known⟩
  absent absent := absent

/-- A deed may change what its holders show. -/
theorem of_deed {deed : Deed} {forest : Forest Handler} (grows : world.forest.size ≤ forest.size)
    (other : ∀ effects holders, deed ≠ .rendered id effects holders)
    (keeps : ∀ root < world.forest.size, root ∉ deed.holders →
      forest.children root = world.forest.children root) :
    world.Aloof id { world.attest deed with forest } where
  moored := .of_hosts rfl grows
  account := .refl _
  deeds := ⟨[deed], rfl, fun effects holders member =>
      other effects holders (List.mem_singleton.mp member).symm,
    fun record _ known away => keeps record.container known (away deed List.mem_cons_self)⟩
  absent absent := absent

theorem attest (world : World) {deed : Deed} (other : ∀ effects holders, deed ≠ .rendered id effects holders) :
    world.Aloof id (world.attest deed) :=
  of_deed (Nat.le_refl _) other fun _ _ _ => rfl

theorem modifyHost (world : World) {other : HostId} {change : Host → Host}
    (container : ∀ host : Host, (change host).container = host.container)
    (carries : other = id → ∀ host : Host, host.account.Carried (change host).account) :
    world.Aloof id (world.modifyHost other change) where
  moored := .modifyHost world other id container
  account := by
    by_cases same : other = id
    · exact carried_modifyHost world other id (carries same)
    · exact .of_eq (account_modifyHost_of_ne same change)
  deeds := ⟨[], rfl, fun _ _ impossible => (by cases impossible), fun _ _ _ _ => rfl⟩
  absent absent := host?_modifyHost_of_none other change absent

theorem disposeEffect (world : World) (effect : EffectId) : world.Aloof id (world.disposeEffect effect) :=
  have sweeps := sweeps_disposeEffect world effect
  of_same (objects_disposeEffect world effect).2 sweeps.deeds sweeps.forest

theorem disposeBindings (world : World) (bindings : Bindings) :
    world.Aloof id (world.disposeBindings bindings) :=
  have sweeps := sweeps_disposeBindings world bindings
  of_same (objects_disposeBindings world bindings).2 sweeps.deeds sweeps.forest

theorem collect (world : World) : world.Aloof id world.collect where
  moored := .of_later (later_collect world)
  account := carried_collect world id
  deeds := ⟨[], (sweeps_collect world).deeds, fun _ _ impossible => (by cases impossible),
    fun _ _ _ _ => by rw [(sweeps_collect world).forest]⟩
  absent absent := by
    unfold host? at absent ⊢
    rw [Array.getElem?_eq_none_iff] at absent ⊢
    rwa [(sweeps_collect world).hostCount]

end Aloof

end World

end LiveMarkup
