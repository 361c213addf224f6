import LiveMarkup.Proofs.Observation
import LiveMarkup.Proofs.Planted

/-
This file says what bound markup shows: fixed nodes, and sites that show an expression.
-/

namespace LiveMarkup

/-- A site shows its source as a text node, or as the content of an element. -/
inductive Form where
  | interpolation (source : String)
  | content (tag : String) (attributes : List (String × String)) (source : String)

structure Site where
  node : Nat
  parent : Nat
  form : Form

namespace Site

/-- This is what a site reads in a store, and the text that it has to show. -/
def seen (site : Site) (store : Store) : List String × String :=
  match site.form with
  | .interpolation source => store.interpolate source
  | .content _ _ source => store.evaluateText source

def isCallFree (site : Site) : Bool :=
  match site.form with
  | .interpolation source => Interpolation.isCallFree source
  | .content _ _ source => Expr.isCallFreeSource source

/-- The effect of a site has this task. -/
def task (site : Site) (state : TargetId) : Task :=
  match site.form with
  | .interpolation source => .interpolation state site.node source
  | .content _ _ source => .textBinding state site.node source

/-- What a site shows depends on the names that it reads. -/
theorem seen_stable {site : Site} {first second : Store} (free : site.isCallFree = true)
    (agrees : first.AgreesOn second (site.seen first).1) : site.seen second = site.seen first := by
  unfold isCallFree at free
  unfold seen at agrees ⊢
  cases form : site.form with
  | interpolation source =>
      rw [form] at free agrees
      exact Store.interpolate_stable free agrees
  | content tag attributes source =>
      rw [form] at free agrees
      exact Store.evaluateText_stable free agrees

end Site

/-- A spot of bound markup is fixed, or is a site. -/
inductive Spot where
  | fixed (id : Nat) (shape : Node Handler)
  | bound (site : Site)

namespace Spot

def node : Spot → Nat
  | .fixed id _ => id
  | .bound site => site.node

end Spot

namespace Directive

/-- These are the labels of the effects that a directive registers. -/
def labels (tag source : String) : Directive → List String
  | .text => ["v-text=\"" ++ source ++ "\""]
  | .model =>
      if valueTags.contains tag then ["v-model=\"" ++ Text.trimString source ++ "\""] else []
  | .event _ => []

/-- A directive adds so many listeners. -/
def listeners (tag : String) : Directive → Nat
  | .text => 0
  | .model => if valueTags.contains tag then 1 else 0
  | .event kind => if kind = "" then 0 else 1

/-- A directive that binds something leaves its element. -/
def leaves (tag : String) : Directive → Bool
  | .text => true
  | .model => valueTags.contains tag
  | .event kind => kind != ""

end Directive

namespace Markup

/-- These attributes are left when an element has been bound. -/
def keptAttributes (tag : String) (attributes : List (String × String)) : List (String × String) :=
  attributes.filter fun entry => !(Directive.ofName? entry.1).any (·.leaves tag)

/-- The source of an element whose text is bound. -/
def textSource? (attributes : List (String × String)) : Option String :=
  (attributes.find? fun entry => Directive.ofName? entry.1 = some .text).map Prod.snd

/-- The labels of the effects that an attribute registers. -/
def attributeLabels (tag : String) (entry : String × String) : List String :=
  match Directive.ofName? entry.1 with
  | some directive => directive.labels tag entry.2
  | none => []

def attributeListeners (tag : String) (entry : String × String) : Nat :=
  match Directive.ofName? entry.1 with
  | some directive => directive.listeners tag
  | none => 0

mutual

/-- These are the labels of the effects that markup registers when it is bound, in their order. The
children of an element whose text is bound are left out. -/
def labels : Markup → List String
  | .text content =>
      if Interpolation.hasSpan content then
        ["\x7b\x7b \x7d\x7d in " ++ Text.quoted (Text.trimString content)]
      else []
  | .comment _ => []
  | .element tag attributes children =>
      attributes.flatMap (attributeLabels tag) ++
        (if (textSource? attributes).isSome then [] else labelsAll children)

def labelsAll : List Markup → List String
  | [] => []
  | first :: rest => labels first ++ labelsAll rest

end

mutual

/-- Markup adds so many listeners when it is bound. -/
def listeners : Markup → Nat
  | .text _ => 0
  | .comment _ => 0
  | .element tag attributes children =>
      attributes.foldr (fun entry total => attributeListeners tag entry + total) 0 +
        (if (textSource? attributes).isSome then 0 else listenersAll children)

def listenersAll : List Markup → Nat
  | [] => 0
  | first :: rest => listeners first + listenersAll rest

end

/-- An empty text makes no node. -/
def ofText (text : String) : List Markup := if text = "" then [] else [.text text]

mutual

/-- This is what a piece of markup looks like when it is bound to a state with this store. -/
def shownIn (store : Store) : Markup → Markup
  | .text content =>
      .text (if Interpolation.hasSpan content then (store.interpolate content).2 else content)
  | .comment content => .comment content
  | .element tag attributes children =>
      .element tag (keptAttributes tag attributes)
        (match textSource? attributes with
        | some source => ofText (store.evaluateText source).2
        | none => shownAllIn store children)

def shownAllIn (store : Store) : List Markup → List Markup
  | [] => []
  | first :: rest => shownIn store first :: shownAllIn store rest

end

mutual

/-- These are the spots of markup that is planted below a parent and then bound. -/
def spots (parent id : Nat) : Markup → List Spot
  | .text content =>
      if Interpolation.hasSpan content then [.bound ⟨id, parent, .interpolation content⟩]
      else [.fixed id { content := .text content, parent := some parent }]
  | .comment content => [.fixed id { content := .comment content, parent := some parent }]
  | .element tag attributes children =>
      match textSource? attributes with
      | some source => [.bound ⟨id, parent, .content tag (keptAttributes tag attributes) source⟩]
      | none =>
          .fixed id
            { content := .element { tag, attributes := keptAttributes tag attributes },
              parent := some parent, children := places (id + 1) children } ::
            spotsAll id (id + 1) children

def spotsAll (parent id : Nat) : List Markup → List Spot
  | [] => []
  | first :: rest => spots parent id first ++ spotsAll parent (id + first.count) rest

end

mutual

/-- This is what bound markup looks like when its sites show these texts. -/
def filled (shown : Site → String) (parent id : Nat) : Markup → Markup
  | .text content =>
      .text (if Interpolation.hasSpan content then shown ⟨id, parent, .interpolation content⟩ else content)
  | .comment content => .comment content
  | .element tag attributes children =>
      .element tag (keptAttributes tag attributes)
        (match textSource? attributes with
        | some source =>
            ofText (shown ⟨id, parent, .content tag (keptAttributes tag attributes) source⟩)
        | none => filledAll shown id (id + 1) children)

def filledAll (shown : Site → String) (parent id : Nat) : List Markup → List Markup
  | [] => []
  | first :: rest => filled shown parent id first :: filledAll shown parent (id + first.count) rest

end

mutual

theorem filled_seen (store : Store) : ∀ (tree : Markup) (parent id : Nat),
    tree.filled (fun site => (site.seen store).2) parent id = tree.shownIn store
  | .text _, _, _ => rfl
  | .comment _, _, _ => rfl
  | .element tag attributes children, parent, id => by
      unfold filled shownIn
      rw [filledAll_seen store children id (id + 1)]
      rfl

/-- Sites that show what they see make the markup look as its store says. -/
theorem filledAll_seen (store : Store) : ∀ (trees : List Markup) (parent id : Nat),
    filledAll (fun site => (site.seen store).2) parent id trees = shownAllIn store trees
  | [], _, _ => rfl
  | first :: rest, parent, id => by
      rw [filledAll, shownAllIn, filled_seen store first, filledAll_seen store rest]

end

end Markup

namespace Forest

/-- An element holds a text as its only node, which is not among the first ones, and no node for the
empty text. -/
def HoldsText (forest : Forest Handler) (limit node : Nat) (children : List NodeId)
    (text : String) : Prop :=
  (text = "" ∧ children = []) ∨ ∃ child : Nat, text ≠ "" ∧ node < child ∧ limit ≤ child ∧
    children = [child] ∧ forest.shape? child = some { content := .text text, parent := some node }

/-- A site shows a text. -/
def ShowsText (forest : Forest Handler) (limit : Nat) (site : Site) (text : String) : Prop :=
  match site.form with
  | .interpolation _ =>
      forest.shape? site.node = some { content := .text text, parent := some site.parent }
  | .content tag attributes _ => ∃ children, forest.HoldsText limit site.node children text ∧
      forest.shape? site.node =
        some { content := .element { tag, attributes }, parent := some site.parent, children }

/-- All sites show the texts that are given for them. -/
def Shows (forest : Forest Handler) (limit : Nat) (shown : Site → String) : Spot → Prop
  | .fixed id shape => forest.shape? id = some shape
  | .bound site => forest.ShowsText limit site (shown site)

theorem flatMap_of_holdsText {forest : Forest Handler} {limit node : Nat}
    {children : List NodeId} {text : String} (holds : forest.HoldsText limit node children text) {depth : Nat}
    (enough : forest.size ≤ depth + (node + 1)) :
    children.flatMap (forest.markupTo depth) = Markup.ofText text := by
  unfold Markup.ofText
  rcases holds with ⟨empty, none⟩ | ⟨child, present, older, -, single, found⟩
  · rw [if_pos empty, none]
    rfl
  · obtain ⟨rest, same⟩ := exists_depth found (by omega : forest.size ≤ depth + child)
    rw [if_neg present, single, List.flatMap_singleton, same, markupTo_of_shape? rest found]
    rfl

mutual

/-- Markup whose sites show some texts looks as if it were filled with them. -/
theorem markupTo_of_shows {forest : Forest Handler} {limit : Nat} {shown : Site → String}
    (parent : Nat) : ∀ (tree : Markup) (id depth : Nat), forest.size ≤ depth + id →
      (∀ spot ∈ tree.spots parent id, forest.Shows limit shown spot) →
      forest.markupTo depth id = [tree.filled shown parent id]
  | .text content, id, depth, enough, shows => by
      have found : forest.shape? id = some { content := .text (if Interpolation.hasSpan content
          then shown ⟨id, parent, .interpolation content⟩ else content), parent := some parent } := by
        unfold Markup.spots at shows
        by_cases span : Interpolation.hasSpan content = true
        · rw [if_pos span] at shows ⊢
          exact shows _ (List.mem_singleton_self _)
        · rw [if_neg span] at shows ⊢
          exact shows _ (List.mem_singleton_self _)
      obtain ⟨rest, same⟩ := exists_depth found enough
      rw [same, markupTo_of_shape? rest found, Markup.filled]
      rfl
  | .comment content, id, depth, enough, shows => by
      have found := shows _ (List.mem_singleton_self _)
      obtain ⟨rest, same⟩ := exists_depth found enough
      rw [same, markupTo_of_shape? rest found, Markup.filled]
      rfl
  | .element tag attributes children, id, depth, enough, shows => by
      unfold Markup.spots at shows
      unfold Markup.filled
      cases source : Markup.textSource? attributes with
      | some text =>
          rw [source] at shows
          obtain ⟨inner, holds, found⟩ := shows _ (List.mem_singleton_self _)
          obtain ⟨rest, same⟩ := exists_depth found enough
          have content : inner.flatMap (forest.markupTo rest) = _ :=
            flatMap_of_holdsText holds (by dsimp only; omega)
          rw [same, markupTo_of_shape? rest found]
          dsimp only [markupOf]
          rw [content]
      | none =>
          rw [source] at shows
          have found := shows _ List.mem_cons_self
          obtain ⟨rest, same⟩ := exists_depth found enough
          have inner := flatMap_of_shows id children (id + 1) rest (by omega)
            fun spot member => shows spot (List.mem_cons_of_mem _ member)
          rw [same, markupTo_of_shape? rest found]
          dsimp only [markupOf]
          rw [inner]

theorem flatMap_of_shows {forest : Forest Handler} {limit : Nat} {shown : Site → String}
    (parent : Nat) : ∀ (trees : List Markup) (id depth : Nat), forest.size ≤ depth + id →
      (∀ spot ∈ Markup.spotsAll parent id trees, forest.Shows limit shown spot) →
      (Markup.places id trees).flatMap (forest.markupTo depth) =
        Markup.filledAll shown parent id trees
  | [], id, depth, enough, shows => rfl
  | first :: rest, id, depth, enough, shows => by
      unfold Markup.spotsAll at shows
      have here := markupTo_of_shows parent first id depth enough
        fun spot member => shows spot (List.mem_append_left _ member)
      have later := flatMap_of_shows parent rest (id + first.count) depth (by omega)
        fun spot member => shows spot (List.mem_append_right _ member)
      rw [Markup.places, List.flatMap_cons, here, later, Markup.filledAll]
      rfl

end

end Forest

end LiveMarkup
