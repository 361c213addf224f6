import LiveMarkup.Demo.Program
import LiveMarkup.Proofs.Finding
import LiveMarkup.Proofs.Forms

/-
This file is about the template of the counter, and about a forest in which its content stands: which buttons and
which input a query finds there, what they hear, and that nobody above them hears anything.
-/

namespace LiveMarkup.Demo

/-- This is the markup of the counter. -/
def counterTrees : List Markup := [
  .text "\n    ",
  .element "div" [("style", "font-family:sans-serif; text-align:center; margin-top:2rem;")] [
    .text "\n      ",
    .element "h2" [] [.text "Count: ", .element "span" [("v-text", "count")] []],
    .text "\n      ",
    .element "button" [("id", "dec")] [.text "-"],
    .text "\n      ",
    .element "button" [("id", "inc"), ("v-on:click", "greet()")] [.text "+"],
    .text "\n      ",
    .element "p" [] [
      .text "\n        ",
      .element "label" [] [
        .text "Set directly:\n          ",
        .element "input" [("type", "range"), ("min", "0"), ("max", "100"), ("v-model", "count")] [],
        .text "\n        "],
      .text "\n      "],
    .text "\n      ",
    .element "p" [] [.text "Double: \x7b\x7b count * 2 \x7d\x7d"],
    .text "\n    "],
  .text "\n"]

-- The tokens are written out, and the template is taken line by line, so that the steps of its reading are small.
set_option maxRecDepth 10000 in
theorem parse_counterTemplate : Markup.parse counterTemplate = .ok counterTrees := by
  have scanned : Token.scan counterTemplate.toList = [
      .text "\n    ".toList,
      .opening "div".toList
        [("style".toList, some "font-family:sans-serif; text-align:center; margin-top:2rem;".toList)] false,
      .text "\n      ".toList, .opening "h2".toList [] false,
      .text "Count: ".toList, .opening "span".toList [("v-text".toList, some "count".toList)] false,
      .closing "span".toList, .closing "h2".toList,
      .text "\n      ".toList, .opening "button".toList [("id".toList, some "dec".toList)] false,
      .text "-".toList, .closing "button".toList,
      .text "\n      ".toList, .opening "button".toList
        [("id".toList, some "inc".toList), ("v-on:click".toList, some "greet()".toList)] false,
      .text "+".toList, .closing "button".toList,
      .text "\n      ".toList, .opening "p".toList [] false,
      .text "\n        ".toList, .opening "label".toList [] false,
      .text "Set directly:\n          ".toList, .opening "input".toList
        [("type".toList, some "range".toList), ("min".toList, some "0".toList),
          ("max".toList, some "100".toList), ("v-model".toList, some "count".toList)] true,
      .text "\n        ".toList, .closing "label".toList,
      .text "\n      ".toList, .closing "p".toList,
      .text "\n      ".toList, .opening "p".toList [] false,
      .text "Double: \x7b\x7b count * 2 \x7d\x7d".toList, .closing "p".toList,
      .text "\n    ".toList, .closing "div".toList, .text "\n".toList] := by
    rw [counterTemplate, String.toList_intercalate]
    decide +kernel
  rw [Markup.parse, Markup.read, scanned]
  rfl

theorem callFree_counterTrees : Markup.EverywhereAll Markup.CallFree counterTrees := by
  have texts : ∀ content ∈ ["\n    ", "\n      ", "Count: ", "-", "+", "\n        ", "Set directly:\n          ",
      "Double: \x7b\x7b count * 2 \x7d\x7d", "\n"], Interpolation.isCallFree content = true := by decide +kernel
  have attributes : ∀ entry ∈ [("v-text", "count"), ("id", "dec"), ("id", "inc"), ("v-on:click", "greet()"),
      ("style", "font-family:sans-serif; text-align:center; margin-top:2rem;"), ("type", "range"), ("min", "0"),
      ("max", "100"), ("v-model", "count")], Markup.isCallFreeAttribute entry = true := by decide +kernel
  simp only [List.forall_mem_cons] at texts attributes
  simp only [counterTrees, Markup.EverywhereAll, Markup.Everywhere, Markup.CallFree, List.forall_mem_cons,
    List.not_mem_nil, false_implies, implies_true, and_self, texts, attributes]

/-! The elements of the content are known by their distance from the fragment that the template was planted as. -/

def decrementAt (root : Nat) : Nat := root + 8

def incrementAt (root : Nat) : Nat := root + 11

def inputAt (root : Nat) : Nat := root + 18

/-- A button that is clicked changes the count by its step. -/
def stepHandler (step : Int) : Handler := .script [.state (.increase counterName countKey step)]

/-- The increment greets and counts, the decrement counts, the input is stored, and no other element hears anything. -/
def entriesOf (state : TargetId) (root node : Nat) : List (String × Handler) :=
  if node = incrementAt root then [("click", .evaluate state "greet()"), ("click", stepHandler 1)]
  else if node = decrementAt root then [("click", stepHandler (-1))]
  else if node = inputAt root then [("input", .storeInput state countKey true)]
  else []

/-- The content of the counter is what a container holds. -/
structure Placed (container root : Nat) (forest : Forest Handler) : Prop where
  older : container < root
  children : forest.children container = Markup.places (root + 1) counterTrees
  shows : ∃ shown, ∀ spot ∈ Markup.spotsAll container (root + 1) counterTrees,
    forest.Shows (root + 1 + Markup.countAll counterTrees) shown spot
  known : root + 1 + Markup.countAll counterTrees ≤ forest.size

namespace Placed

variable {forest : Forest Handler} {container root : Nat}

theorem query?_eq (placed : Placed container root forest) (selector : String) :
    forest.query? container selector = ((Markup.elementsAll (root + 1) counterTrees).find? fun entry =>
      (Selector.ofString selector).fits entry.2).map Prod.fst := by
  obtain ⟨shown, shows⟩ := placed.shows
  exact Forest.query?_of_shows (Nat.lt_succ_of_lt placed.older) placed.children shows selector

theorem query?_increment (placed : Placed container root forest) :
    forest.query? container "#inc" = some (incrementAt root) := placed.query?_eq "#inc"

theorem query?_decrement (placed : Placed container root forest) :
    forest.query? container "#dec" = some (decrementAt root) := placed.query?_eq "#dec"

theorem query?_input (placed : Placed container root forest) :
    forest.query? container "input" = some (inputAt root) := by
  have tag : Selector.ofString "input" = .tag "input" := by decide +kernel
  have early : ∀ tag ∈ ["div", "h2", "span", "button", "p", "label"],
      (Selector.lowered tag == Selector.lowered "input") = false := by decide +kernel
  simp only [List.forall_mem_cons] at early
  have elements : (Markup.elementsAll (root + 1) counterTrees).map (fun entry => (entry.1, entry.2.tag)) =
      [(root + 2, "div"), (root + 4, "h2"), (root + 6, "span"), (root + 8, "button"), (root + 11, "button"),
        (root + 14, "p"), (root + 16, "label"), (root + 18, "input"), (root + 22, "p")] := rfl
  have found := congrArg (fun entries : List (Nat × String) => (entries.find? fun entry =>
    Selector.lowered entry.2 == Selector.lowered "input").map Prod.fst) elements
  simp only [List.find?_map, List.find?_cons, early, Option.map_map, beq_self_eq_true, Option.map_some] at found
  rw [placed.query?_eq, tag]
  exact found

theorem container_lt (placed : Placed container root forest) : container < forest.size := by
  have older := placed.older
  have known := placed.known
  omega

theorem lt_size (placed : Placed container root forest) (distance : Nat) (inside : distance < 26) :
    root + distance < forest.size :=
  Nat.lt_of_lt_of_le (by show root + distance < root + 1 + 25; omega) placed.known

/-- A node whose form no site decides is found by its place among the spots. -/
theorem shape?_of_spot (placed : Placed container root forest) (place : Nat) {node : NodeId} {shape : Node Handler}
    (listed : (Markup.spotsAll container (root + 1) counterTrees)[place]? = some (.fixed node shape)) :
    forest.shape? node = some shape := by
  obtain ⟨shown, shows⟩ := placed.shows
  exact shows _ (List.mem_of_getElem? listed)

/-- The content stays in its place if no shape changes. -/
theorem of_shapes {after : Forest Handler} (placed : Placed container root forest)
    (same : ∀ node, after.shape? node = forest.shape? node) (size : after.size = forest.size) :
    Placed container root after where
  older := placed.older
  children := by rw [Forest.children_eq_shape?, same, ← Forest.children_eq_shape?, placed.children]
  shows := by
    obtain ⟨shown, shows⟩ := placed.shows
    exact ⟨shown, fun spot member =>
      Forest.shows_of_shapes (same spot.node) (fun child _ _ _ => same child) (shows spot member)⟩
  known := size ▸ placed.known

/-- Buttons are elements, so they can be wired. -/
theorem element?_button (placed : Placed container root forest) :
    (∃ element, forest.element? (incrementAt root) = some element) ∧
      ∃ element, forest.element? (decrementAt root) = some element := by
  have element : ∀ {node : NodeId} {shape : Node Handler} {plain : Element Handler}, forest.shape? node = some shape →
      shape.content = .element plain → ∃ element, forest.element? node = some element := by
    intro node shape plain found plainly
    obtain ⟨content, known, same⟩ := Forest.content?_of_shape? found
    unfold Forest.element?
    rw [known]
    cases content with
    | element element => exact ⟨element, rfl⟩
    | fragment | text | comment => cases same.trans plainly
  exact ⟨element (placed.shape?_of_spot 10 rfl) rfl, element (placed.shape?_of_spot 7 rfl) rfl⟩

end Placed

/-- The buttons of the content are wired. -/
def wire (forest : Forest Handler) (root : Nat) : Forest Handler :=
  (forest.listen (incrementAt root) "click" (stepHandler 1)).listen (decrementAt root) "click" (stepHandler (-1))

theorem shape?_wire (forest : Forest Handler) (root : Nat) (node : NodeId) :
    (wire forest root).shape? node = forest.shape? node :=
  (Forest.shape?_listen _ _ _ _ _).trans (Forest.shape?_listen _ _ _ _ _)

theorem size_wire (forest : Forest Handler) (root : Nat) : (wire forest root).size = forest.size :=
  (Forest.size_listen _ _ _ _).trans (Forest.size_listen _ _ _ _)

theorem Placed.handlersAt_wire {forest : Forest Handler} {container root : Nat} (placed : Placed container root forest)
    (node : NodeId) :
    (wire forest root).handlersAt node = forest.handlersAt node ++
      (if incrementAt root = node then [("click", stepHandler 1)] else []) ++
        if decrementAt root = node then [("click", stepHandler (-1))] else [] := by
  have listened : Placed container root (forest.listen (incrementAt root) "click" (stepHandler 1)) :=
    placed.of_shapes (fun _ => Forest.shape?_listen _ _ _ _ _) (Forest.size_listen _ _ _ _)
  obtain ⟨⟨_, increment⟩, -⟩ := placed.element?_button
  obtain ⟨-, _, decrement⟩ := listened.element?_button
  unfold wire
  rw [Forest.handlersAt_listen decrement, Forest.handlersAt_listen increment]


/-- The content of the counter stands in a container. It hears what it is meant to hear, and nobody above it hears
anything. -/
structure Stands (state : TargetId) (container root : Nat) (forest : Forest Handler) : Prop
    extends Placed container root forest where
  hears : ∀ node, root < node → node < root + 1 + Markup.countAll counterTrees →
    forest.handlersAt node = entriesOf state root node
  silent : forest.handlersAt container = []
  quiet : ∀ kind, forest.Quiet kind container

/-- What has been bound stands once its buttons are wired. -/
theorem Placed.hears_wire {forest : Forest Handler} {state : TargetId} {container root : Nat}
    (placed : Placed container root forest)
    (hears : forest.Hears state (root + 1) (root + 1 + Markup.countAll counterTrees)
      (Markup.wiresAll (root + 1) counterTrees))
    {node : Nat} (least : root < node) (most : node < root + 1 + Markup.countAll counterTrees) :
    (wire forest root).handlersAt node = entriesOf state root node := by
  have wires : Markup.wiresAll (root + 1) counterTrees =
      [⟨incrementAt root, .event "click" "greet()"⟩, ⟨inputAt root, .input countKey true⟩] := rfl
  rw [placed.handlersAt_wire, hears node least most, wires]
  unfold entriesOf
  by_cases increment : node = incrementAt root
  · subst increment
    simp [incrementAt, inputAt, decrementAt, Wire.entry, Hearing.kind, Hearing.handler]
  · by_cases decrement : node = decrementAt root
    · subst decrement
      simp [incrementAt, inputAt, decrementAt]
    · by_cases input : node = inputAt root
      · subst input
        simp [incrementAt, inputAt, decrementAt, Wire.entry, Hearing.kind, Hearing.handler]
      · simp [increment, decrement, input, Ne.symm increment, Ne.symm decrement, Ne.symm input]

namespace Stands

variable {forest : Forest Handler} {state : TargetId} {container root : Nat}

theorem hears_at (stands : Stands state container root forest) (distance : Nat)
    (inside : 0 < distance ∧ distance < 26) :
    forest.handlersAt (root + distance) = entriesOf state root (root + distance) :=
  stands.hears _ (by omega) (by show root + distance < root + 1 + 25; omega)

theorem handlersAt_increment (stands : Stands state container root forest) :
    forest.handlersAt (incrementAt root) = [("click", .evaluate state "greet()"), ("click", stepHandler 1)] := by
  refine (stands.hears_at 11 (by decide)).trans ?_
  simp [entriesOf, incrementAt]

theorem handlersAt_decrement (stands : Stands state container root forest) :
    forest.handlersAt (decrementAt root) = [("click", stepHandler (-1))] := by
  refine (stands.hears_at 8 (by decide)).trans ?_
  simp [entriesOf, incrementAt, decrementAt]

theorem handlersAt_input (stands : Stands state container root forest) :
    forest.handlersAt (inputAt root) = [("input", .storeInput state countKey true)] := by
  refine (stands.hears_at 18 (by decide)).trans ?_
  simp [entriesOf, incrementAt, decrementAt, inputAt]

theorem listenersFor_of_other (stands : Stands state container root forest) (distance : Nat)
    (inside : 0 < distance ∧ distance < 26) (other : distance ≠ 8 ∧ distance ≠ 11 ∧ distance ≠ 18) (kind : String) :
    forest.listenersFor (root + distance) kind = [] := by
  obtain ⟨decrement, increment, input⟩ := other
  rw [Forest.listenersFor_eq, stands.hears_at distance inside]
  simp [entriesOf, incrementAt, decrementAt, inputAt, decrement, increment, input]

/-- Nobody above the content hears anything. -/
theorem quiet_block (stands : Stands state container root forest) (kind : String) :
    forest.Quiet kind (root + 2) := by
  have block : forest.parent? (root + 2) = some container :=
    Forest.parent?_of_shape? (stands.shape?_of_spot 1 rfl)
  refine .under block (Nat.lt_add_right 2 stands.older) ?_ (stands.quiet kind)
  rw [Forest.listenersFor_eq, stands.silent]
  rfl

theorem quiet_inside {node : NodeId} (stands : Stands state container root forest) (kind : String)
    (found : forest.parent? node = some (root + 2)) (later : root + 2 < node) : forest.Quiet kind node :=
  .under found later (stands.listenersFor_of_other 2 (by decide) (by decide) kind) (stands.quiet_block kind)

theorem quiet_decrement (stands : Stands state container root forest) (kind : String) :
    forest.Quiet kind (decrementAt root) :=
  stands.quiet_inside kind (Forest.parent?_of_shape? (stands.shape?_of_spot 7 rfl)) (by unfold decrementAt; omega)

theorem quiet_increment (stands : Stands state container root forest) (kind : String) :
    forest.Quiet kind (incrementAt root) :=
  stands.quiet_inside kind (Forest.parent?_of_shape? (stands.shape?_of_spot 10 rfl)) (by unfold incrementAt; omega)

/-- The input stands in a label in a paragraph. -/
theorem quiet_input (stands : Stands state container root forest) (kind : String) :
    forest.Quiet kind (inputAt root) := by
  have input : forest.parent? (inputAt root) = some (root + 16) :=
    Forest.parent?_of_shape? (stands.shape?_of_spot 17 rfl)
  have label : forest.parent? (root + 16) = some (root + 14) :=
    Forest.parent?_of_shape? (stands.shape?_of_spot 15 rfl)
  have paragraph : forest.Quiet kind (root + 14) :=
    stands.quiet_inside kind (Forest.parent?_of_shape? (stands.shape?_of_spot 13 rfl)) (by omega)
  exact .under input (by unfold inputAt; omega) (stands.listenersFor_of_other 16 (by decide) (by decide) kind)
    (.under label (by omega) (stands.listenersFor_of_other 14 (by decide) (by decide) kind) paragraph)

/-- A value that is put in moves nothing. -/
theorem setValue (stands : Stands state container root forest) (node : NodeId) (text : String) :
    Stands state container root (forest.setValue node text) where
  toPlaced := stands.toPlaced.of_shapes
    (fun _ => Forest.shape?_modifyElement (fun _ => rfl) fun _ => rfl) (Forest.size_setValue _ _ _)
  hears other least most := (Forest.handlersAt_setValue text).trans (stands.hears other least most)
  silent := (Forest.handlersAt_setValue text).trans stands.silent
  quiet kind := (stands.quiet kind).of_parents (fun _ => False) stands.container_lt id (fun _ _ _ own => own)
    (fun _ _ _ => Forest.handlersAt_setValue text) fun _ _ _ found => (Forest.parent?_modifyElement _).symm.trans found

end Stands

end LiveMarkup.Demo
