import LiveMarkup.Proofs.Cutting
import LiveMarkup.Proofs.RoundTrip

/-
This file shows that a template fails only at a closing tag that does not fit the innermost open element, and
that otherwise its markup encloses what stands between an opening tag and the closing tag that fits it.
-/

namespace LiveMarkup.Markup

/-! The open elements are followed token by token, and so is the content between two tags. -/

/-- One token changes which elements are open, the innermost first. -/
inductive Moves : List String → Token → List String → Prop where
  | comment (tags : List String) (body : List Char) : Moves tags (.comment body) tags
  | declaration (tags : List String) : Moves tags .declaration tags
  | text (tags : List String) (content : List Char) : Moves tags (.text content) tags
  | opened (tags : List String) {tag : List Char} (attributes : List (List Char × Option (List Char)))
      (filled : isVoid (lower tag) = false) : Moves tags (.opening tag attributes false) (lower tag :: tags)
  | single (tags : List String) {tag : List Char} (attributes : List (List Char × Option (List Char)))
      {selfClosing : Bool} (hollow : selfClosing = true ∨ isVoid (lower tag) = true) :
      Moves tags (.opening tag attributes selfClosing) tags
  | closed (tags : List String) {tag : List Char} (filled : isVoid (lower tag) = false) :
      Moves (lower tag :: tags) (.closing tag) tags
  | ignored (tags : List String) {tag : List Char} (hollow : isVoid (lower tag) = true) :
      Moves tags (.closing tag) tags

/-- The tokens lead from some open elements to others. -/
inductive Stacks : List String → List Token → List String → Prop where
  | done (tags : List String) : Stacks tags [] tags
  | next {before middle after : List String} {token : Token} {rest : List Token}
      (moves : Moves before token middle) (later : Stacks middle rest after) :
      Stacks before (token :: rest) after

/-- A closing tag does not fit if the innermost open element has another tag, or if none is open. -/
def Misfit (tags : List String) (tag : List Char) : Prop :=
  isVoid (lower tag) = false ∧ tags.head? ≠ some (lower tag)

/-- These pieces stand side by side, and each element among them is closed. -/
inductive Balanced : List Token → List Markup → Prop where
  | nil : Balanced [] []
  | text (content : List Char) {rest : List Token} {pieces : List Markup} (later : Balanced rest pieces) :
      Balanced (.text content :: rest) (.text (String.ofList (Text.decodeEntities content)) :: pieces)
  | comment (body : List Char) {rest : List Token} {pieces : List Markup} (later : Balanced rest pieces) :
      Balanced (.comment body :: rest) (.comment (String.ofList body) :: pieces)
  | declaration {rest : List Token} {pieces : List Markup} (later : Balanced rest pieces) :
      Balanced (.declaration :: rest) pieces
  | ignored {tag : List Char} (hollow : isVoid (lower tag) = true) {rest : List Token} {pieces : List Markup}
      (later : Balanced rest pieces) : Balanced (.closing tag :: rest) pieces
  | single {tag : List Char} (attributes : List (List Char × Option (List Char))) {selfClosing : Bool}
      (hollow : selfClosing = true ∨ isVoid (lower tag) = true) {rest : List Token} {pieces : List Markup}
      (later : Balanced rest pieces) :
      Balanced (.opening tag attributes selfClosing :: rest)
        (.element (lower tag) (attributesOf attributes) [] :: pieces)
  | element {tag ending : List Char} (attributes : List (List Char × Option (List Char)))
      (filled : isVoid (lower tag) = false) (fits : lower ending = lower tag) {inside rest : List Token}
      {children pieces : List Markup} (within : Balanced inside children) (later : Balanced rest pieces) :
      Balanced (.opening tag attributes false :: (inside ++ .closing ending :: rest))
        (.element (lower tag) (attributesOf attributes) children :: pieces)

/-- After these pieces some elements are still open, and each holds whatever follows its tag. -/
inductive Unfinished : List String → List Token → List Markup → Prop where
  | complete {tokens : List Token} {pieces : List Markup} (content : Balanced tokens pieces) :
      Unfinished [] tokens pieces
  | unclosed {tag : List Char} (attributes : List (List Char × Option (List Char)))
      (filled : isVoid (lower tag) = false) {early inside : List Token} {pieces children : List Markup}
      {tags : List String} (before : Balanced early pieces) (within : Unfinished tags inside children) :
      Unfinished (tags ++ [lower tag]) (early ++ .opening tag attributes false :: inside)
        (pieces ++ [.element (lower tag) (attributesOf attributes) children])

theorem Balanced.append {first second : List Token} {early late : List Markup} (before : Balanced first early)
    (after : Balanced second late) : Balanced (first ++ second) (early ++ late) := by
  induction before with
  | nil => exact after
  | text content _ inductionHypothesis => exact .text content inductionHypothesis
  | comment body _ inductionHypothesis => exact .comment body inductionHypothesis
  | declaration _ inductionHypothesis => exact .declaration inductionHypothesis
  | ignored hollow _ inductionHypothesis => exact .ignored hollow inductionHypothesis
  | single attributes hollow _ inductionHypothesis => exact .single attributes hollow inductionHypothesis
  | element attributes filled fits within _ _ inductionHypothesis =>
      simpa using Balanced.element attributes filled fits within inductionHypothesis

/-! What the stack says, the pieces show. -/

theorem Unfinished.append {tags : List String} {tokens more : List Token} {pieces added : List Markup}
    (unfinished : Unfinished tags tokens pieces) (content : Balanced more added) :
    ∃ result, Unfinished tags (tokens ++ more) result := by
  induction unfinished with
  | complete before => exact ⟨_, .complete (before.append content)⟩
  | unclosed attributes filled before _ inductionHypothesis =>
      obtain ⟨children, within⟩ := inductionHypothesis
      rw [List.append_assoc, List.cons_append]
      exact ⟨_, .unclosed attributes filled before within⟩

theorem Unfinished.opened {tags : List String} {tokens : List Token} {pieces : List Markup}
    (unfinished : Unfinished tags tokens pieces) {tag : List Char} (filled : isVoid (lower tag) = false)
    (attributes : List (List Char × Option (List Char))) :
    ∃ result, Unfinished (lower tag :: tags) (tokens ++ [.opening tag attributes false]) result := by
  induction unfinished with
  | complete before =>
      have further : Unfinished ([] ++ [lower tag]) _ _ := .unclosed attributes filled before (.complete .nil)
      exact ⟨_, further⟩
  | unclosed others otherFilled before _ inductionHypothesis =>
      obtain ⟨children, within⟩ := inductionHypothesis
      rw [List.append_assoc, List.cons_append, ← List.cons_append]
      exact ⟨_, .unclosed others otherFilled before within⟩

/-- A closing tag finishes the innermost element. -/
theorem Unfinished.closed {tags : List String} {tokens : List Token} {pieces : List Markup} {ending : List Char}
    (unfinished : Unfinished (lower ending :: tags) tokens pieces) :
    ∃ result, Unfinished tags (tokens ++ [.closing ending]) result := by
  generalize same : lower ending :: tags = opened at unfinished
  induction unfinished generalizing tags with
  | complete => exact absurd same (List.cons_ne_nil _ _)
  | @unclosed tag attributes filled early inside _ children inner before within inductionHypothesis =>
      rw [List.append_assoc, List.cons_append]
      rcases List.cons_eq_append_iff.mp same with ⟨rfl, only⟩ | ⟨outer, rfl, rfl⟩
      · -- The element that is closed holds what is balanced already.
        obtain ⟨fits, rfl⟩ := List.cons.inj only
        generalize none : ([] : List String) = empty at within
        cases within with
        | complete within =>
            exact ⟨_, .complete (before.append (.element attributes filled fits.symm within .nil))⟩
        | unclosed => exact absurd none.symm (by simp)
      · obtain ⟨result, finished⟩ := inductionHypothesis rfl
        exact ⟨_, .unclosed attributes filled before finished⟩

theorem Unfinished.next {before after : List String} {tokens : List Token} {pieces : List Markup} {token : Token}
    (unfinished : Unfinished before tokens pieces) (moves : Moves before token after) :
    ∃ result, Unfinished after (tokens ++ [token]) result := by
  cases moves with
  | comment _ body => exact unfinished.append (.comment body .nil)
  | declaration => exact unfinished.append (.declaration .nil)
  | text _ content => exact unfinished.append (.text content .nil)
  | opened _ attributes filled => exact unfinished.opened filled attributes
  | single _ attributes hollow => exact unfinished.append (.single attributes hollow .nil)
  | closed => exact unfinished.closed
  | ignored _ hollow => exact unfinished.append (.ignored hollow .nil)

theorem Stacks.unfinished {before after : List String} {tokens : List Token} (fits : Stacks before tokens after) :
    ∀ {early : List Token} {pieces : List Markup}, Unfinished before early pieces →
      ∃ result, Unfinished after (early ++ tokens) result := by
  induction fits with
  | done =>
      intro early pieces unfinished
      exact ⟨pieces, by rwa [List.append_nil]⟩
  | @next _ _ _ token rest moves _ inductionHypothesis =>
      intro early pieces unfinished
      obtain ⟨middle, further⟩ := unfinished.next moves
      obtain ⟨result, finished⟩ := inductionHypothesis further
      exact ⟨result, by rwa [List.append_assoc] at finished⟩

/-- Either all tokens fit, or there is a first closing tag that does not. -/
theorem stacks_or_misfit (tokens : List Token) : ∀ tags : List String, (∃ after, Stacks tags tokens after) ∨
    ∃ early tag late middle, tokens = early ++ .closing tag :: late ∧ Stacks tags early middle ∧
      Misfit middle tag := by
  induction tokens with
  | nil => exact fun tags => Or.inl ⟨tags, .done tags⟩
  | cons token rest inductionHypothesis =>
      intro tags
      have step : ∀ next, Moves tags token next → (∃ after, Stacks tags (token :: rest) after) ∨
          ∃ early tag late middle, token :: rest = early ++ .closing tag :: late ∧
            Stacks tags early middle ∧ Misfit middle tag := by
        intro next moves
        rcases inductionHypothesis next with
          ⟨after, later⟩ | ⟨early, tag, late, middle, rfl, before, misfit⟩
        · exact Or.inl ⟨after, .next moves later⟩
        · exact Or.inr ⟨token :: early, tag, late, middle, rfl, .next moves before, misfit⟩
      cases token with
      | comment body => exact step tags (.comment tags body)
      | declaration => exact step tags (.declaration tags)
      | text content => exact step tags (.text tags content)
      | opening tag attributes selfClosing =>
          by_cases hollow : selfClosing = true ∨ isVoid (lower tag) = true
          · exact step tags (.single tags attributes hollow)
          · obtain ⟨open_, filled⟩ := not_or.mp hollow
            rw [Bool.not_eq_true] at open_ filled
            subst open_
            exact step (lower tag :: tags) (.opened tags attributes filled)
      | closing tag =>
          cases hollow : isVoid (lower tag) with
          | true => exact step tags (.ignored tags hollow)
          | false =>
              by_cases fits : tags.head? = some (lower tag)
              · obtain ⟨outer, rfl⟩ := List.head?_eq_some_iff.mp fits
                exact step outer (.closed outer hollow)
              · exact Or.inr ⟨[], tag, rest, tags, rfl, .done tags, hollow, fits⟩

/-! The builder keeps to the stack. -/

/-- A piece is added to content that is in order. -/
def addPiece (children : List Markup) : Markup → List Markup
  | .text content => addText children content
  | piece => children ++ [joined piece]

theorem addPiece_cons (first second : Markup) (rest : List Markup) (piece : Markup) :
    addPiece (first :: second :: rest) piece = first :: addPiece (second :: rest) piece := by
  cases piece with
  | text content =>
      simp only [addPiece, addText, List.getLast?_cons_cons]
      split <;> rfl
  | comment => rfl
  | element => rfl

/-- It makes no difference whether content is joined from the front or from the back. -/
theorem prepend_addPiece (tree : Markup) (children : List Markup) (piece : Markup) :
    prepend tree (addPiece children piece) = addPiece (prepend tree children) piece := by
  cases tree with
  | comment =>
      cases children with
      | nil => cases piece <;> rfl
      | cons first rest => exact (addPiece_cons _ _ _ _).symm
  | element =>
      cases children with
      | nil => cases piece <;> rfl
      | cons first rest => exact (addPiece_cons _ _ _ _).symm
  | text before =>
      by_cases empty : before = ""
      · simp only [prepend, empty, if_true]
      · match children with
        | [] => cases piece <;> simp [prepend, addPiece, addText, joined, empty]
        | [first] =>
            cases first <;> cases piece <;> simp [prepend, addPiece, addText, joined, empty, String.append_assoc]
        | first :: second :: rest =>
            rw [addPiece_cons]
            cases first <;> simp only [prepend, empty, if_false, addPiece_cons]

theorem joinedAll_concat (trees : List Markup) {piece : Markup} (present : piece ≠ .text "") :
    joinedAll (trees ++ [piece]) = addPiece (joinedAll trees) piece := by
  induction trees with
  | nil =>
      cases piece with
      | text content =>
          have filled : content ≠ "" := fun empty => present (congrArg Markup.text empty)
          simp [joinedAll, joined, prepend, addPiece, addText, filled]
      | comment => rfl
      | element => rfl
  | cons first rest inductionHypothesis =>
      rw [List.cons_append, joinedAll, inductionHypothesis, prepend_addPiece]
      rfl

/-- Pieces that are added one by one come out joined. -/
theorem foldl_addPiece (early : List Markup) {late : List Markup}
    (present : ∀ piece ∈ late, piece ≠ .text "") :
    late.foldl addPiece (joinedAll early) = joinedAll (early ++ late) := by
  induction late generalizing early with
  | nil => rw [List.foldl_nil, List.append_nil]
  | cons piece rest inductionHypothesis =>
      rw [List.foldl_cons, ← joinedAll_concat early (present piece List.mem_cons_self),
        inductionHypothesis _ fun other member => present other (List.mem_cons_of_mem piece member),
        List.append_assoc, List.singleton_append]

/-- No token gives an empty text. -/
theorem Balanced.present {tokens : List Token} {pieces : List Markup} (balanced : Balanced tokens pieces)
    (legal : ∀ token ∈ tokens, token.Legal) : ∀ piece ∈ pieces, piece ≠ .text "" := by
  induction balanced with
  | nil => exact List.forall_mem_nil _
  | text content _ inductionHypothesis =>
      obtain ⟨filled, later⟩ := List.forall_mem_cons.mp legal
      refine List.forall_mem_cons.mpr ⟨fun empty => ?_, inductionHypothesis later⟩
      injection empty with empty
      exact Text.decodeEntities_ne_nil filled (String.ofList_eq_empty_iff.mp empty)
  | comment body _ inductionHypothesis =>
      exact List.forall_mem_cons.mpr ⟨nofun, inductionHypothesis (List.forall_mem_cons.mp legal).2⟩
  | declaration _ inductionHypothesis => exact inductionHypothesis (List.forall_mem_cons.mp legal).2
  | ignored _ _ inductionHypothesis => exact inductionHypothesis (List.forall_mem_cons.mp legal).2
  | single attributes _ _ inductionHypothesis =>
      exact List.forall_mem_cons.mpr ⟨nofun, inductionHypothesis (List.forall_mem_cons.mp legal).2⟩
  | element attributes _ _ _ _ _ inductionHypothesis =>
      obtain ⟨_, later⟩ := List.forall_mem_append.mp (List.forall_mem_cons.mp legal).2
      exact List.forall_mem_cons.mpr ⟨nofun, inductionHypothesis (List.forall_mem_cons.mp later).2⟩

theorem Unfinished.present {tags : List String} {tokens : List Token} {pieces : List Markup}
    (unfinished : Unfinished tags tokens pieces) (legal : ∀ token ∈ tokens, token.Legal) :
    ∀ piece ∈ pieces, piece ≠ .text "" := by
  cases unfinished with
  | complete balanced => exact balanced.present legal
  | unclosed attributes _ before =>
      refine List.forall_mem_append.mpr ⟨before.present (List.forall_mem_append.mp legal).1, ?_⟩
      exact List.forall_mem_singleton.mpr nofun

namespace Builder

theorem run_append (builder : Builder) (early late : List Token) :
    run builder (early ++ late) = match run builder early with
      | (built, none) => run built late
      | (built, some error) => (built, some error) := by
  induction early generalizing builder with
  | nil => rfl
  | cons token rest inductionHypothesis =>
      simp only [List.cons_append, run]
      split
      · exact inductionHypothesis _
      · rfl

theorem run_of_stepped {builder built : Builder} {early : List Token} (ran : run builder early = (built, none))
    (late : List Token) : run builder (early ++ late) = run built late := by
  rw [run_append, ran]

/-- Pieces are added to the content of the innermost open element one by one. -/
def addPieces (builder : Builder) (pieces : List Markup) : Builder :=
  builder.updateChildren (pieces.foldl addPiece ·)

theorem addPieces_append (builder : Builder) (first second : List Markup) :
    (builder.addPieces first).addPieces second = builder.addPieces (first ++ second) := by
  unfold addPieces
  rw [updateChildren_updateChildren]
  simp only [List.foldl_append]

theorem addPieces_nil (builder : Builder) : builder.addPieces [] = builder := by
  obtain ⟨roots, opened⟩ := builder
  cases opened <;> rfl

/-- A further element is open and has no content yet. -/
def enter (builder : Builder) (tag : String) (attributes : List (String × String)) : Builder :=
  { builder with opened := ⟨tag, attributes, []⟩ :: builder.opened }

theorem close_enter (builder : Builder) (tag : String) (attributes : List (String × String))
    {children : List Markup} (present : ∀ piece ∈ children, piece ≠ .text "") :
    ((builder.enter tag attributes).addPieces children).close =
      builder.addPieces [.element tag attributes children] := by
  have inside : children.foldl addPiece [] = joinedAll children := foldl_addPiece [] present
  simp only [addPieces, enter, updateChildren, close, inside]
  rfl

variable {builder : Builder} {tag : List Char}

theorem step_hollow (builder : Builder) (attributes : List (List Char × Option (List Char))) {selfClosing : Bool}
    (hollow : selfClosing = true ∨ isVoid (lower tag) = true) :
    builder.step (.opening tag attributes selfClosing) =
      .ok (builder.addPieces [.element (lower tag) (attributesOf attributes) []]) := by
  rw [step, opening, if_pos (by simpa using hollow)]
  rfl

theorem step_filled (builder : Builder) (attributes : List (List Char × Option (List Char)))
    (filled : isVoid (lower tag) = false) :
    builder.step (.opening tag attributes false) = .ok (builder.enter (lower tag) (attributesOf attributes)) := by
  simp [step, opening, filled, enter]

theorem step_fitting (filled : isVoid (lower tag) = false)
    (fits : (builder.opened.map OpenElement.tag).head? = some (lower tag)) :
    builder.step (.closing tag) = .ok builder.close := by
  cases found : builder.opened with
  | nil =>
      rw [found] at fits
      cases fits
  | cons inner outer =>
      rw [found] at fits
      simp [step, closing, filled, found, Option.some.inj fits]

theorem step_misfit (misfit : Misfit (builder.opened.map OpenElement.tag) tag) :
    builder.step (.closing tag) =
      .error (.unexpectedClosing (lower tag) (builder.opened.map OpenElement.tag).head?) := by
  obtain ⟨filled, other⟩ := misfit
  cases found : builder.opened with
  | nil => simp [step, closing, filled, found]
  | cons inner outer =>
      have different : inner.tag ≠ lower tag := fun same =>
        other (by rw [found, List.map_cons, same, List.head?_cons])
      simp [step, closing, filled, found, different]

@[simp] theorem tags_addPieces (pieces : List Markup) :
    (builder.addPieces pieces).opened.map OpenElement.tag = builder.opened.map OpenElement.tag := by
  obtain ⟨roots, opened⟩ := builder
  cases opened <;> rfl

@[simp] theorem tags_enter (tag : String) (attributes : List (String × String)) :
    (builder.enter tag attributes).opened.map OpenElement.tag = tag :: builder.opened.map OpenElement.tag := rfl

/-- A run over what is balanced adds its pieces, and the same elements are open. -/
theorem run_of_balanced {tokens : List Token} {pieces : List Markup} (balanced : Balanced tokens pieces)
    (legal : ∀ token ∈ tokens, token.Legal) (builder : Builder) :
    run builder tokens = (builder.addPieces pieces, none) := by
  induction balanced generalizing builder with
  | nil => rw [addPieces_nil, run]
  | @text content rest pieces _ inductionHypothesis =>
      have stepped : builder.step (.text content) =
          .ok (builder.addPieces [.text (String.ofList (Text.decodeEntities content))]) := rfl
      rw [run_of_step stepped, inductionHypothesis (List.forall_mem_cons.mp legal).2, addPieces_append]
      rfl
  | @comment body rest pieces _ inductionHypothesis =>
      have stepped : builder.step (.comment body) = .ok (builder.addPieces [.comment (String.ofList body)]) := rfl
      rw [run_of_step stepped, inductionHypothesis (List.forall_mem_cons.mp legal).2, addPieces_append]
      rfl
  | declaration _ inductionHypothesis =>
      have stepped : builder.step .declaration = .ok builder := rfl
      rw [run_of_step stepped, inductionHypothesis (List.forall_mem_cons.mp legal).2]
  | @ignored tag hollow _ _ _ inductionHypothesis =>
      have stepped : builder.step (.closing tag) = .ok builder := by
        rw [step, closing, if_pos hollow]
      rw [run_of_step stepped, inductionHypothesis (List.forall_mem_cons.mp legal).2]
  | @single tag attributes selfClosing hollow _ _ _ inductionHypothesis =>
      rw [run_of_step (builder.step_hollow attributes hollow),
        inductionHypothesis (List.forall_mem_cons.mp legal).2, addPieces_append]
      rfl
  | @element tag ending attributes filled fits inside rest children pieces within later insideHypothesis
      laterHypothesis =>
      obtain ⟨legalInside, legalLater⟩ := List.forall_mem_append.mp (List.forall_mem_cons.mp legal).2
      have closes : ((builder.enter (lower tag) (attributesOf attributes)).addPieces children).step
          (.closing ending) =
            .ok (builder.addPieces [.element (lower tag) (attributesOf attributes) children]) := by
        rw [step_fitting (fits ▸ filled) (by simp [fits]), close_enter _ _ _ (within.present legalInside)]
      rw [run_of_step (builder.step_filled attributes filled),
        run_of_stepped (insideHypothesis legalInside _), run_of_step closes,
        laterHypothesis (List.forall_mem_cons.mp legalLater).2, addPieces_append]
      rfl

/-- This function closes as many elements as there are tags. -/
def closeAll (builder : Builder) (tags : List String) : Builder :=
  tags.foldl (fun current _ => current.close) builder

theorem closeAll_append (builder : Builder) (early late : List String) :
    builder.closeAll (early ++ late) = (builder.closeAll early).closeAll late := List.foldl_append

/-- A run over unfinished pieces leaves their elements open, and they are there when these are closed. -/
theorem run_of_unfinished {tags : List String} {tokens : List Token} {pieces : List Markup}
    (unfinished : Unfinished tags tokens pieces) (legal : ∀ token ∈ tokens, token.Legal) (builder : Builder) :
    ∃ built, run builder tokens = (built, none) ∧
      built.opened.map OpenElement.tag = tags ++ builder.opened.map OpenElement.tag ∧
      built.closeAll tags = builder.addPieces pieces := by
  induction unfinished generalizing builder with
  | complete balanced => exact ⟨_, run_of_balanced balanced legal builder, tags_addPieces _, rfl⟩
  | @unclosed tag attributes filled early inside pieces children tags before within inductionHypothesis =>
      obtain ⟨legalEarly, legalLater⟩ := List.forall_mem_append.mp legal
      have legalInside := (List.forall_mem_cons.mp legalLater).2
      obtain ⟨built, ran, opened, closed⟩ := inductionHypothesis legalInside
        ((builder.addPieces pieces).enter (lower tag) (attributesOf attributes))
      refine ⟨built, ?_, ?_, ?_⟩
      · rw [run_of_stepped (run_of_balanced before legalEarly builder),
          run_of_step (step_filled _ attributes filled), ran]
      · rw [opened, tags_enter, tags_addPieces, List.append_assoc, List.singleton_append]
      · rw [closeAll_append, closed, ← addPieces_append]
        exact close_enter _ _ _ (within.present legalInside)

theorem finish_eq (builder : Builder) :
    builder.finish = (builder.closeAll (builder.opened.map OpenElement.tag)).roots := by
  rw [closeAll, List.foldl_map, finish]

end Builder

theorem parse_of_unfinished {source : String} {tags : List String} {pieces : List Markup}
    (unfinished : Unfinished tags (Token.scan source.toList) pieces) : parse source = .ok (joinedAll pieces) := by
  have legal := Token.legal_of_mem_scan source.toList
  obtain ⟨built, ran, opened, closed⟩ := Builder.run_of_unfinished unfinished legal {}
  refine parse_eq_ok.mpr ?_
  rw [List.map_nil, List.append_nil] at opened
  simp only [read, ran, Builder.finish_eq, opened, closed, true_and]
  exact foldl_addPiece [] (unfinished.present legal)

theorem parse_of_misfit {source : String} {early late : List Token} {tag : List Char} {tags : List String}
    (cut : Token.scan source.toList = early ++ .closing tag :: late) (fits : Stacks [] early tags)
    (misfit : Misfit tags tag) : parse source = .error (.unexpectedClosing (lower tag) tags.head?) := by
  have legal := Token.legal_of_mem_scan source.toList
  rw [cut] at legal
  obtain ⟨pieces, unfinished⟩ : ∃ pieces, Unfinished tags early pieces := fits.unfinished (.complete .nil)
  obtain ⟨built, ran, opened, -⟩ :=
    Builder.run_of_unfinished unfinished (List.forall_mem_append.mp legal).1 {}
  rw [List.map_nil, List.append_nil] at opened
  rw [← opened] at misfit ⊢
  have failed : Builder.run {} (Token.scan source.toList) =
      (built, some (.unexpectedClosing (lower tag) (built.opened.map OpenElement.tag).head?)) := by
    rw [cut, Builder.run_of_stepped ran, Builder.run, Builder.step_misfit misfit]
  simp only [parse, read, failed]

/-- Every template is cut into tokens in one way, and an angle that begins nothing is text. Parsing fails
exactly if there is a closing tag that does not fit, and the error names the first one and the element that was
open there. Otherwise the markup encloses what the stack dictates, and elements that are still open at the end
hold all that follows. -/
theorem parse_fails_iff_misfit (source : String) :
    (∃ lexemes, Token.Cuts source.toList lexemes ∧
      (∀ others, Token.Cuts source.toList others → others = lexemes) ∧
      (lexemes.map Prod.snd).flatten = source.toList ∧ lexemes.map Prod.fst = Token.scan source.toList ∧
      ∀ early token chars late, lexemes = early ++ (token, chars) :: late → chars.head? = some '<' →
        (token = .text ['<'] ↔ ∀ other ending,
          Token.At other (chars ++ (late.map Prod.snd).flatten) ending → ∃ content, other = .text content)) ∧
    (∀ error, parse source = .error error ↔ ∃ early tag late tags,
      Token.scan source.toList = early ++ .closing tag :: late ∧ Stacks [] early tags ∧ Misfit tags tag ∧
      error = .unexpectedClosing (lower tag) tags.head?) ∧
    (∀ trees, parse source = .ok trees ↔ ∃ tags pieces, Stacks [] (Token.scan source.toList) tags ∧
      Unfinished tags (Token.scan source.toList) pieces ∧ trees = joinedAll pieces) ∧
    ∀ world, ∃ outcome after, Live.parseTemplate source world = .ok outcome after ∧
      (∀ error, outcome = .error error ↔ parse source = .error error) ∧
      ∀ root, outcome = .ok root → parse source = .ok (after.forest.innerMarkup root) := by
  have fitting : ∀ tags, Stacks [] (Token.scan source.toList) tags → ∃ pieces,
      Unfinished tags (Token.scan source.toList) pieces :=
    fun tags fits => fits.unfinished (.complete .nil)
  refine ⟨?_, fun error => ⟨fun failed => ?_, ?_⟩, fun trees => ⟨fun parsed => ?_, ?_⟩, fun world => ?_⟩
  · obtain ⟨lexemes, cuts⟩ := Token.exists_cuts source.toList
    refine ⟨lexemes, cuts, fun others other => cuts.unique other, cuts.flatten, cuts.scan, ?_⟩
    rintro early token chars late rfl angle
    obtain ⟨stands, first⟩ := cuts.at_of_append
    exact Token.angle_iff stands first (by rw [List.head?_append, angle, Option.some_or])
  · rcases stacks_or_misfit (Token.scan source.toList) [] with
      ⟨tags, fits⟩ | ⟨early, tag, late, tags, cut, fits, misfit⟩
    · obtain ⟨pieces, unfinished⟩ := fitting tags fits
      rw [parse_of_unfinished unfinished] at failed
      cases failed
    · rw [parse_of_misfit cut fits misfit] at failed
      cases failed
      exact ⟨early, tag, late, tags, cut, fits, misfit, rfl⟩
  · rintro ⟨early, tag, late, tags, cut, fits, misfit, rfl⟩
    exact parse_of_misfit cut fits misfit
  · rcases stacks_or_misfit (Token.scan source.toList) [] with
      ⟨tags, fits⟩ | ⟨early, tag, late, tags, cut, fits, misfit⟩
    · obtain ⟨pieces, unfinished⟩ := fitting tags fits
      rw [parse_of_unfinished unfinished] at parsed
      cases parsed
      exact ⟨tags, pieces, fits, unfinished, rfl⟩
    · rw [parse_of_misfit cut fits misfit] at parsed
      cases parsed
  · rintro ⟨tags, pieces, -, unfinished, rfl⟩
    exact parse_of_unfinished unfinished
  · obtain ⟨notices, made⟩ := parseTemplate_eq source world
    refine ⟨_, _, made, fun error => ?_, ?_⟩
    · cases parse source <;> simp [Except.map]
    · rintro root same
      rw [same] at made
      exact parse_of_parseTemplate made

end LiveMarkup.Markup
