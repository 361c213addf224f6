import LiveMarkup.Proofs.Binding
import LiveMarkup.Proofs.Embedding
import LiveMarkup.Proofs.Numerals

/-
This file says what is shown for an integer: on its own, in an array, and where a key that holds it is bound.
-/

namespace LiveMarkup

namespace Forest

variable {forest : Forest Handler} {root only id : Nat}

/-- A walk that finds nothing ends. -/
theorem walkFrom_none (forest : Forest Handler) (root : NodeId) (limit : Nat) :
    forest.walkFrom root limit none = [] := by
  cases limit <;> rfl

theorem descendants_of_nil (children : forest.children root = []) : forest.descendants root = [] := by
  unfold descendants
  rw [next?_of_leaf children, nextSkipping?_root, walkFrom_none]

theorem descendants_of_single (known : root < forest.size) (children : forest.children root = [only])
    (found : forest.parent? only = some root) (leaf : forest.children only = []) (apart : only ≠ root) :
    forest.descendants root = [only] := by
  have first : forest.next? root root = some only := by
    rw [next?_eq_onward, children]
    rfl
  have last : forest.next? root only = none := by
    have alone : forest.children root = [] ++ only :: [] := children
    rw [next?_of_leaf leaf, nextSkipping?_eq_onward found apart alone List.not_mem_nil (Or.inl rfl) known,
      onward, nextSkipping?_root]
    rfl
  obtain ⟨rest, size⟩ := Nat.exists_eq_succ_of_ne_zero (Nat.ne_of_gt (Nat.lt_of_le_of_lt (Nat.zero_le _) known))
  unfold descendants
  rw [first, size, walkFrom, last, walkFrom_none]

theorem exists_shape?_of_content? {content : Content Handler} (found : forest.content? id = some content) :
    ∃ parent, forest.shape? id = some { content := content.plain, parent, children := forest.children id } := by
  obtain ⟨node, known, rfl⟩ := Option.map_eq_some_iff.mp found
  refine ⟨node.parent, ?_⟩
  rw [shape?, children, known]
  rfl

/-- A text node or an element shows the text that it was given. -/
theorem textContent_setTextContent (text : String) {content : Content Handler}
    (found : forest.content? id = some content)
    (takes : (∃ old, content = .text old) ∨
      (∃ element, content = .element element) ∧ id ∉ forest.children id) :
    (forest.setTextContent id text).textContent id = text := by
  obtain ⟨parent, shape⟩ := exists_shape?_of_content? found
  rcases takes with ⟨old, rfl⟩ | ⟨⟨element, rfl⟩, apart⟩
  · obtain ⟨now, here, plainly⟩ := content?_of_shape? (setTextContent_text shape text).1
    unfold textContent
    rw [here]
    cases now <;> cases plainly
    rfl
  · obtain ⟨inner, holds, shown⟩ := (setTextContent_element shape apart (Nat.zero_le _) text).1
    obtain ⟨now, here, plainly⟩ := content?_of_shape? shown
    have inside : (forest.setTextContent id text).textContent id = String.join
        (((forest.setTextContent id text).descendants id).filterMap (forest.setTextContent id text).ownText?) := by
      unfold textContent
      rw [here]
      cases now with
      | text old => cases plainly
      | comment note => cases plainly
      | fragment => rfl
      | element now => rfl
    rw [inside]
    rcases holds with ⟨rfl, rfl⟩ | ⟨only, -, older, -, rfl, there⟩
    · rw [descendants_of_nil (children_of_shape? shown)]
      rfl
    · rw [descendants_of_single (lt_size_of_shape? shown) (children_of_shape? shown) (parent?_of_shape? there)
        (children_of_shape? there) (Nat.ne_of_gt older)]
      obtain ⟨leaf, behind, same⟩ := content?_of_shape? there
      have own : (forest.setTextContent id text).ownText? only = some text := by
        unfold ownText?
        rw [behind]
        cases leaf <;> cases same
        rfl
      simp [own, String.join]

end Forest

namespace Expr

/-- A source that is a name with blanks around it. -/
def named (before : List Char) (name : String) (after : List Char) : String :=
  String.ofList (before ++ name.toList ++ after)

variable {name : String} {before after : List Char}

theorem written_named (isName : isName name = true) (leading : IsBlank before) (trailing : IsBlank after) :
    Written (.ident name) (named before name after) := by
  refine ⟨before, name.toList, after, leading, trailing, String.toList_ofList, ?_⟩
  exact .unconditional (.single 0 (.plain (.bare (.ident isName))))

theorem isCallFreeSource_named (isName : isName name = true) (leading : IsBlank before)
    (trailing : IsBlank after) : isCallFreeSource (named before name after) = true := by
  unfold isCallFreeSource
  rw [(parse_eq_ok_iff_written _ _).mpr (written_named isName leading trailing)]
  rfl

theorem isNameChar_of_mem (isName : isName name = true) : ∀ c ∈ name.toList, isNameChar c = true := by
  unfold Expr.isName at isName
  split at isName
  · cases isName
  · rename_i first rest same
    rw [same]
    simp only [Bool.and_eq_true] at isName
    obtain ⟨⟨start, others⟩, -⟩ := isName
    intro c member
    rcases List.mem_cons.mp member with rfl | later
    · unfold isNameStart at start
      unfold isNameChar Char.isAlphanum
      simp only [Bool.or_eq_true] at start ⊢
      tauto
    · exact List.all_eq_true.mp others c later

end Expr

namespace Interpolation

variable {name : String} {before after : List Char}

/-- A name with blanks around it works as an interpolation. -/
theorem embeds_named (isName : Expr.isName name = true) (leading : Expr.IsBlank before)
    (trailing : Expr.IsBlank after) : Embeds (Expr.named before name after) ∧
      OneLine (Expr.named before name after) ∧ Text.trim (Expr.named before name after).toList = name.toList := by
  have letters := Expr.isNameChar_of_mem isName
  have written := Expr.written_named isName leading trailing
  have renders : Expr.Renders .conditional (.ident name) name.toList :=
    .unconditional (.single 0 (.plain (.bare (.ident isName))))
  have trimmed : Text.trim (Expr.named before name after).toList = name.toList := by
    rw [Expr.named, String.toList_ofList, List.append_assoc]
    exact (Expr.isSolid_of_renders renders).trim (fun c member => Expr.isBlank_of_isGap (leading c member))
      fun c member => Expr.isBlank_of_isGap (trailing c member)
  refine ⟨⟨⟨_, (Expr.parse_eq_ok_iff_written _ _).mpr written⟩, fun inside => ?_⟩, ?_, trimmed⟩
  · have brace : '}' ∈ (Expr.named before name after).toList := inside.subset List.mem_cons_self
    rw [Expr.named, String.toList_ofList] at brace
    rcases List.mem_append.mp brace with front | behind
    · rcases List.mem_append.mp front with gap | letter
      · exact absurd (leading _ gap) (by decide)
      · exact absurd (letters _ letter) (by decide)
    · exact absurd (trailing _ behind) (by decide)
  · unfold OneLine
    rw [trimmed]
    exact fun feed => absurd (letters _ feed) (by decide)

theorem segments_embed {source : String} (embeds : Embeds source) (oneLine : OneLine source) :
    segments (embed source) = [.expression (Text.trim source.toList)] := by
  obtain ⟨span, captured, text, preferred⟩ := embeds.exists_span oneLine
  have found : Decomposition.Of ⟨[([], span)], []⟩ (embed source) := by
    have whole : embed source = [] ++ (span.text ++ []) := by simp [text]
    rw [whole]
    exact .next (.nil _) (preferred []) (.last (.nil []))
  rw [found.segments_eq, ← captured]
  rfl

theorem isCallFree_embed (isName : Expr.isName name = true) (leading : Expr.IsBlank before)
    (trailing : Expr.IsBlank after) :
    isCallFree (String.ofList (embed (Expr.named before name after))) = true := by
  obtain ⟨embeds, oneLine, trimmed⟩ := embeds_named isName leading trailing
  have nothing : Expr.IsBlank [] := fun _ member => by cases member
  have free := Expr.isCallFreeSource_named isName nothing nothing
  have plain : Expr.named [] name [] = String.ofList name.toList := by simp [Expr.named]
  rw [plain] at free
  unfold isCallFree
  rw [String.toList_ofList, segments_embed embeds oneLine, trimmed]
  simpa [areCallFree] using free

end Interpolation

namespace Store

variable {store : Store} {name : String} {before after : List Char} {value : Value}

/-- A name is shown as its value, on its own and as an interpolation. -/
theorem evaluateText_named (isName : Expr.isName name = true) (leading : Expr.IsBlank before)
    (trailing : Expr.IsBlank after) (free : store.methods.contains name = false)
    (found : store.values.get? name = some value) :
    store.evaluateText (Expr.named before name after) = ([name], value.display) := by
  have parsed := (Expr.parse_eq_ok_iff_written _ _).mpr (Expr.written_named isName leading trailing)
  have seen : Expr.eval store.view (.ident name) = ⟨[name], .ok value⟩ := by
    simp [Expr.eval, view, free, found]
  unfold evaluateText evaluate
  rw [parsed]
  dsimp only
  rw [seen]

theorem interpolate_named (isName : Expr.isName name = true) (leading : Expr.IsBlank before)
    (trailing : Expr.IsBlank after) (free : store.methods.contains name = false)
    (found : store.values.get? name = some value) :
    store.interpolate (String.ofList (Interpolation.embed (Expr.named before name after))) =
      ([name], value.display) := by
  obtain ⟨embeds, oneLine, trimmed⟩ := Interpolation.embeds_named isName leading trailing
  have plain : String.ofList name.toList = Expr.named [] name [] := by simp [Expr.named]
  have nothing : Expr.IsBlank [] := fun _ member => by cases member
  have seen := evaluateText_named isName nothing nothing free found
  unfold interpolate
  rw [String.toList_ofList, Interpolation.segments_embed embeds oneLine, trimmed]
  unfold interpolateSegments
  rw [plain, seen]
  simp [interpolateSegments]

end Store

namespace World

open Live

/-- A state that lives has a value under a name that no method has. -/
def Stores (world : World) (state : TargetId) (name : String) (value : Value) : Prop :=
  ∃ store, world.store? state = some store ∧ store.alive = true ∧
    store.methods.contains name = false ∧ store.values.get? name = some value

variable {world : World} {state : TargetId} {store : Store}

/-- What is seen while a state lives is presented. -/
theorem presented_whileAlive {look : Live String} {names : List String} {text : String}
    (present : String → Live Unit) (change : Forest Handler → Forest Handler)
    (looks : ∀ world : World, world.store? state = some store →
      ∃ after, look world = .ok text after ∧ world.Reads state names after)
    (presents : ∀ world, ∃ after, present text world = .ok () after ∧ world.Presents state change after)
    (found : world.store? state = some store) (alive : store.alive = true) :
    ∃ after, whileAlive state (do present (← look)) world = .ok () after ∧
      after.forest = change world.forest := by
  have lives : world.isAlive state = true := by
    unfold isAlive
    rw [found]
    exact alive
  obtain ⟨held, holds, -, -, heldForest, -, heldTargets, -⟩ := gentle_hold state (.state state) world
  have still : held.store? state = some store := by
    unfold store? at found ⊢
    rwa [heldTargets]
  obtain ⟨read, looked, parses, notices, same⟩ := looks held still
  obtain ⟨shown, shows, presented⟩ := presents read
  have readForest : read.forest = held.forest := by
    rw [same]
    rfl
  refine ⟨{ shown with holds := world.holds }.collect, ?_, ?_⟩
  · have inner : (do hold (.state state); present (← look) : Live Unit) world = .ok () shown :=
      (bind_of_ok holds).trans ((bind_of_ok looked).trans shows)
    unfold whileAlive
    rw [get_bind, if_pos lives]
    unfold operation ending
    rw [inner]
  · rw [(sweeps_collect _).forest, presented.forest, readForest, heldForest]

variable {name : String} {value : Value} {before after : List Char} (run : Runner) (node : NodeId)

/-- A text node shows a name that is interpolated in it. -/
theorem interpolation_shows (stores : world.Stores state name value) (isName : Expr.isName name = true)
    (leading : Expr.IsBlank before) (trailing : Expr.IsBlank after) {old : String}
    (here : world.forest.content? node = some (.text old)) :
    ∃ shown, showInterpolation run state node
        (String.ofList (Interpolation.embed (Expr.named before name after))) world = .ok () shown ∧
      shown.forest.textContent node = value.display := by
  obtain ⟨store, found, alive, free, held⟩ := stores
  have filled := Store.interpolate_named isName leading trailing free held
  have looks : ∀ world : World, world.store? state = some store → ∃ seen,
      interpolate run state (String.ofList (Interpolation.embed (Expr.named before name after))) world =
          .ok value.display seen ∧ world.Reads state [name] seen := by
    intro world still
    have interpolated := interpolate_eq run still (Interpolation.isCallFree_embed isName leading trailing)
    rwa [filled] at interpolated
  obtain ⟨shown, shows, forest⟩ := presented_whileAlive (showAt node) (·.setTextContent node value.display) looks
    (showAt_eq state node _) found alive
  refine ⟨shown, shows, ?_⟩
  rw [forest]
  exact Forest.textContent_setTextContent _ here (Or.inl ⟨old, rfl⟩)

theorem evaluates_named (found : world.store? state = some store) (free : store.methods.contains name = false)
    (held : store.values.get? name = some value) (isName : Expr.isName name = true)
    (leading : Expr.IsBlank before) (trailing : Expr.IsBlank after) :
    ∃ seen, evaluateText run state (Expr.named before name after) world = .ok value.display seen ∧
      world.Reads state [name] seen := by
  have evaluated := evaluateText_eq run found (Expr.isCallFreeSource_named isName leading trailing)
  rwa [Store.evaluateText_named isName leading trailing free held] at evaluated

/-- An element whose text is bound to a name shows it. -/
theorem text_shows (stores : world.Stores state name value) (isName : Expr.isName name = true)
    (leading : Expr.IsBlank before) (trailing : Expr.IsBlank after) {element : Element Handler}
    (here : world.forest.content? node = some (.element element)) (apart : node ∉ world.forest.children node) :
    ∃ shown, showText run state node (Expr.named before name after) world = .ok () shown ∧
      shown.forest.textContent node = value.display := by
  obtain ⟨store, found, alive, free, held⟩ := stores
  obtain ⟨shown, shows, forest⟩ := presented_whileAlive (showAt node) (·.setTextContent node value.display)
    (fun _ still => evaluates_named run still free held isName leading trailing) (showAt_eq state node _) found alive
  refine ⟨shown, shows, ?_⟩
  rw [forest]
  exact Forest.textContent_setTextContent _ here (Or.inr ⟨⟨element, rfl⟩, apart⟩)

/-- An input that is bound to a name has its value. -/
theorem value_shows (stores : world.Stores state name value) (isName : Expr.isName name = true)
    (leading : Expr.IsBlank before) (trailing : Expr.IsBlank after) {element : Element Handler}
    (here : world.forest.element? node = some element) :
    ∃ shown, showValue run state node (Expr.named before name after) world = .ok () shown ∧
      shown.forest.value node = value.display := by
  obtain ⟨store, found, alive, free, held⟩ := stores
  obtain ⟨shown, shows, forest⟩ := presented_whileAlive
    (fun text => do if (← get).forest.value node ≠ text then modifyForest (·.setValue node text))
    (·.refreshValue node value.display)
    (fun _ still => evaluates_named run still free held isName leading trailing) (refreshValue_eq state node _)
    found alive
  refine ⟨shown, shows, ?_⟩
  rw [forest, Forest.value_refreshValue here, if_pos rfl]

end World

namespace Value

/-- Integers have 64 bits, with a sign or without one. -/
def InRange (value : Int) : Prop := -2 ^ 63 ≤ value ∧ value < 2 ^ 64

instance (value : Int) : Decidable (InRange value) := inferInstanceAs (Decidable (_ ∧ _))

theorem exists_shown {value : Int} (inRange : InRange value) :
    ∃ shown : Int, (integer value).display = toString shown ∧ Binary64.ofInt shown = Binary64.ofInt value ∧
      (value.natAbs ≤ 2 ^ 53 → shown = value) := by
  have text : (integer value).display = (Binary64.ofInt value).display := by
    simp [integer, display, Number.display, Number.toBinary]
  have bound : value.natAbs < 2 ^ 64 := by
    obtain ⟨low, high⟩ := inRange
    omega
  rw [text]
  by_cases last : value.natAbs = 2 ^ 53
  · refine ⟨value, ?_, rfl, fun _ => rfl⟩
    rcases Int.natAbs_eq_iff.mp last with rfl | rfl
    · decide +kernel
    · decide +kernel
  · obtain ⟨shown, displays, rounds, exactly⟩ := Binary64.exists_display bound
    exact ⟨shown, displays, rounds, fun small => exactly (by omega)⟩

/-- An integer is shown with the digits of an integer that is rounded to the same binary64 number. Up to `2 ^ 53`
this is the integer itself. Integers show the same text if and only if they are rounded to the same number. They do
so in an array too, and where a name is interpolated, bound to the text of an element, or to an input. -/
theorem integers_shown_as_rounded :
    (∀ value, InRange value → ∃ shown : Int, (integer value).display = toString shown ∧
      Binary64.ofInt shown = Binary64.ofInt value ∧ (value.natAbs ≤ 2 ^ 53 → shown = value)) ∧
    (∀ first second, InRange first → InRange second → ((integer first).display = (integer second).display ↔
      Binary64.ofInt first = Binary64.ofInt second)) ∧
    (∀ value before after, (array (before ++ integer value :: after)).display = String.intercalate ","
      (displayItems before ++ (integer value).display :: displayItems after)) ∧
    ∀ (run : Runner) (world : World) (state : TargetId) (node : NodeId) (name : String) (value : Int)
      (before after : List Char), world.Stores state name (integer value) → Expr.isName name = true →
      Expr.IsBlank before → Expr.IsBlank after →
      (∀ old, world.forest.content? node = some (.text old) → ∃ shown, Live.showInterpolation run state node
          (String.ofList (Interpolation.embed (Expr.named before name after))) world = .ok () shown ∧
        shown.forest.textContent node = (integer value).display) ∧
      ∀ element, world.forest.content? node = some (.element element) →
        (node ∉ world.forest.children node →
          ∃ shown, Live.showText run state node (Expr.named before name after) world = .ok () shown ∧
            shown.forest.textContent node = (integer value).display) ∧
        ∃ shown, Live.showValue run state node (Expr.named before name after) world = .ok () shown ∧
          shown.forest.value node = (integer value).display := by
  refine ⟨fun value => exists_shown, ?_, ?_, ?_⟩
  · intro first second firstInRange secondInRange
    obtain ⟨one, firstShows, firstRounds, -⟩ := exists_shown firstInRange
    obtain ⟨other, secondShows, secondRounds, -⟩ := exists_shown secondInRange
    constructor
    · intro same
      rw [firstShows, secondShows] at same
      rw [← firstRounds, Binary64.toString_injective same, secondRounds]
    · intro same
      simp [integer, display, Number.display, Number.toBinary, same]
  · intro value before after
    have items : displayItems (before ++ integer value :: after) =
        displayItems before ++ (integer value).display :: displayItems after := by
      induction before with
      | nil => rfl
      | cons first rest inductionHypothesis =>
          cases first <;> simp [displayItems, inductionHypothesis]
    rw [← items]
    rfl
  · intro run world state node name value before after stores isName leading trailing
    refine ⟨fun old here => ?_, fun element here => ⟨fun apart => ?_, ?_⟩⟩
    · exact World.interpolation_shows run node stores isName leading trailing here
    · exact World.text_shows run node stores isName leading trailing here apart
    · have elementHere : world.forest.element? node = some element := by
        rw [Forest.element?, here]
        rfl
      exact World.value_shows run node stores isName leading trailing elementHere

/-- Two neighbours above `2 ^ 53` show the same text. A small integer keeps its digits, wherever it is shown. -/
theorem neighbours_shown_alike :
    let world : World :=
      { targets := #[some { values := [("n", integer (-42))] }]
        forest := { nodes := #[{ content := .text "" }, { content := .ofTag "p" }, { content := .ofTag "input" }] } }
    InRange 9007199254740993 ∧ InRange 9007199254740992 ∧
      (integer 9007199254740993).display = (integer 9007199254740992).display ∧
      InRange (-42) ∧ (integer (-42)).display = "-42" ∧ (array [.null, integer (-42)]).display = ",-42" ∧
      world.Stores 0 "n" (integer (-42)) ∧
      ∀ run : Runner,
        (∃ shown, Live.showInterpolation run 0 0 "{{ n }}" world = .ok () shown ∧
          shown.forest.textContent 0 = "-42") ∧
        (∃ shown, Live.showText run 0 1 " n " world = .ok () shown ∧ shown.forest.textContent 1 = "-42") ∧
        ∃ shown, Live.showValue run 0 2 " n " world = .ok () shown ∧ shown.forest.value 2 = "-42" := by
  intro world
  obtain ⟨exactly, alike, items, bound⟩ := integers_shown_as_rounded
  have first : InRange 9007199254740993 := by decide +kernel
  have second : InRange 9007199254740992 := by decide +kernel
  have third : InRange (-42) := by decide
  have small : (integer (-42)).display = "-42" := by
    obtain ⟨shown, displays, -, same⟩ := exactly (-42) third
    rw [displays, same (by decide)]
    decide
  have listed : (array [.null, integer (-42)]).display = ",-42" := by
    refine (items (-42) [.null] []).trans ?_
    rw [small]
    decide
  have stores : world.Stores 0 "n" (integer (-42)) := ⟨_, rfl, rfl, rfl, rfl⟩
  have blank : Expr.IsBlank [' '] := by simp [Expr.IsBlank, Expr.isGap]
  refine ⟨first, second, (alike _ _ first second).mpr (by decide +kernel), third, small, listed, stores, ?_⟩
  intro run
  have shows := fun node => bound run world 0 node "n" (-42) [' '] [' '] stores (by decide) blank blank
  rw [small] at shows
  exact ⟨(shows 0).1 "" rfl, ((shows 1).2 _ rfl).1 (by decide), ((shows 2).2 _ rfl).2⟩

/-- The last digit of an integer above `2 ^ 53` may be lost, and then another integer shows the same text. -/
theorem large_integer_not_exact :
    (integer 9007199254740993).display = "9007199254740992" ∧
      (integer 9007199254740993).display ≠ toString (9007199254740993 : Int) ∧
      (integer 9007199254740993).display = (integer 9007199254740992).display := by
  decide +kernel

end Value

end LiveMarkup
