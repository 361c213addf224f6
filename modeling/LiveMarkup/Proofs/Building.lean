import LiveMarkup.Proofs.Normal

/-
This file shows what the builder makes of the tokens of written markup, and that whatever it makes is
in normal form.
-/

namespace LiveMarkup

namespace Assoc

theorem contains_eq_false {K A : Type} [DecidableEq K] {entries : Assoc K A} {key : K} :
    contains entries key = false ↔ key ∉ entries.map Prod.fst := by
  induction entries with
  | nil => simp [contains, get?]
  | cons entry rest inductionHypothesis =>
      unfold contains at inductionHypothesis ⊢
      rw [get?]
      by_cases same : entry.1 = key
      · simp [same]
      · simp [same, Ne.symm same, inductionHypothesis]

end Assoc

namespace Markup

/-! Written markup consists of these tokens. -/

mutual

def tokens : Markup → List Token
  | .text content => [.text (Text.escapeText content.toList)]
  | .comment content => [.comment content.toList]
  | .element tag attributes children =>
      .opening tag.toList (attributes.map Token.writtenAttribute) false ::
        if isVoid tag then [] else tokensAll children ++ [.closing tag.toList]

def tokensAll : List Markup → List Token
  | [] => []
  | first :: rest => tokens first ++ tokensAll rest

end

/-- What is no text starts with an angle. -/
theorem head_print {tree : Markup} (noText : tree.isText = false) (rest : List Char) :
    ∀ c ∈ (print tree ++ rest).head?, c = '<' := by
  intro c member
  cases tree with
  | text content => cases noText
  | comment content =>
      simp only [print, List.cons_append, List.head?_cons] at member
      exact (Option.some.inj member).symm
  | element tag attributes children =>
      unfold print at member
      split at member
      all_goals
        simp only [printOpening, List.cons_append, List.head?_cons] at member
        exact (Option.some.inj member).symm

mutual

theorem scan_print : ∀ tree : Markup, tree.Everywhere Legal → tree.Everywhere Tight →
    ∀ rest : List Char, (tree.isText = true → ∀ c ∈ rest.head?, c = '<') →
      Token.scan (print tree ++ rest) = tokens tree ++ Token.scan rest
  | .text content, _, present, rest, stops => by
      have filled : content.toList ≠ [] := fun empty => present (String.toList_eq_nil_iff.mp empty)
      exact Token.scan_of_read (Token.read_text (Text.escapeText_ne_nil filled)
        (Text.not_mem_escapeText _) (stops rfl))
  | .comment content, isBody, _, rest, _ => by
      have found := Token.read_comment isBody rest
      have written : print (.comment content) ++ rest =
          '<' :: '!' :: '-' :: '-' :: content.toList ++ '-' :: '-' :: '>' :: rest := by
        simp [print]
      rw [written, Token.scan_of_read found]
      rfl
  | .element tag attributes children, ⟨legal, legalInside⟩, ⟨apart, tightInside⟩, rest, _ => by
      have named := fun entry member => (legal.named entry member).1
      rw [print, tokens]
      split
      · rw [Token.scan_of_read (Token.read_opening legal.tagged named rest)]
        rfl
      · have inside := scan_printAll children ⟨legalInside, tightInside, apart⟩
          ('<' :: '/' :: tag.toList ++ '>' :: rest) (by simp)
        have written : printOpening tag attributes ++ printAll children ++ printClosing tag ++ rest =
            printOpening tag attributes ++
              (printAll children ++ ('<' :: '/' :: tag.toList ++ '>' :: rest)) := by
          simp [printClosing]
        rw [written, Token.scan_of_read (Token.read_opening legal.tagged named _), inside,
          Token.scan_of_read (Token.read_closing legal.tagged rest)]
        simp

/-- Written markup in normal form is cut into the tokens that it was written from. -/
theorem scan_printAll : ∀ trees : List Markup, Normal trees → ∀ rest : List Char,
    (∀ c ∈ rest.head?, c = '<') →
      Token.scan (printAll trees ++ rest) = tokensAll trees ++ Token.scan rest
  | [], _, rest, _ => rfl
  | first :: others, normal, rest, stops => by
      obtain ⟨legal, tight, apart, later⟩ := normal_cons.mp normal
      have stopsFirst : first.isText = true → ∀ c ∈ (printAll others ++ rest).head?, c = '<' := by
        intro isText
        cases others with
        | nil => exact stops
        | cons next more =>
            rw [printAll, List.append_assoc]
            exact head_print (apart next rfl isText) _
      rw [printAll, List.append_assoc, scan_print first legal tight _ stopsFirst,
        scan_printAll others later rest stops, tokensAll, List.append_assoc]

end

/-- Attributes are read back as they were written. -/
theorem attributesOf_writtenAttribute {attributes : List (String × String)}
    (small : ∀ entry ∈ attributes, IsLowerCase entry.1) (distinct : (attributes.map Prod.fst).Nodup) :
    attributesOf (attributes.map Token.writtenAttribute) = attributes := by
  have general : ∀ (early late : List (String × String)), (∀ entry ∈ late, IsLowerCase entry.1) →
      ((early ++ late).map Prod.fst).Nodup →
      (late.map Token.writtenAttribute).foldl addAttribute early = early ++ late := by
    intro early late
    induction late generalizing early with
    | nil => exact fun _ _ => (List.append_nil early).symm
    | cons entry rest inductionHypothesis =>
        intro small distinct
        have name := lower_of_isLowerCase (small entry List.mem_cons_self)
        have value : String.ofList (Text.decodeEntities
            ((Token.writtenAttribute entry).2.getD [])) = entry.2 := by
          unfold Token.writtenAttribute
          dsimp only
          split
          · rename_i empty
            rw [empty]
            rfl
          · rw [Option.getD_some, Text.decodeEntities_escapeAttribute, String.ofList_toList]
        have fresh : Assoc.contains early entry.1 = false := by
          rw [Assoc.contains_eq_false]
          intro member
          rw [List.map_append, List.map_cons] at distinct
          exact (List.nodup_append.mp distinct).2.2 _ member _ List.mem_cons_self rfl
        have added : addAttribute early (Token.writtenAttribute entry) = early ++ [entry] := by
          have named : lower (Token.writtenAttribute entry).1 = entry.1 := name
          unfold addAttribute
          rw [named, value]
          exact if_neg (by simp [fresh])
        have next := inductionHypothesis (early ++ [entry])
          (fun other member => small other (List.mem_cons_of_mem entry member))
          (by rwa [List.append_assoc])
        rw [List.map_cons, List.foldl_cons, added, next, List.append_assoc]
        rfl
  exact general [] attributes small distinct

namespace Builder

/-- This is the content of the innermost open element so far. -/
def current (builder : Builder) : List Markup :=
  match builder.opened with
  | [] => builder.roots
  | inner :: _ => inner.children

theorem current_updateChildren (builder : Builder) (change : List Markup → List Markup) :
    (builder.updateChildren change).current = change builder.current := by
  obtain ⟨roots, opened⟩ := builder
  cases opened <;> rfl

theorem updateChildren_updateChildren (builder : Builder) (first second : List Markup → List Markup) :
    (builder.updateChildren first).updateChildren second =
      builder.updateChildren fun children => second (first children) := by
  obtain ⟨roots, opened⟩ := builder
  cases opened <;> rfl

theorem updateChildren_congr {builder : Builder} {first second : List Markup → List Markup}
    (same : first builder.current = second builder.current) :
    builder.updateChildren first = builder.updateChildren second := by
  obtain ⟨roots, opened⟩ := builder
  cases opened with
  | nil => exact congrArg (Builder.mk · []) same
  | cons inner outer =>
      exact congrArg (fun children => Builder.mk roots ({ inner with children } :: outer)) same

/-- Pieces are added to the content of the innermost open element. -/
def add (builder : Builder) (trees : List Markup) : Builder :=
  builder.updateChildren (· ++ trees)

theorem add_nil (builder : Builder) : builder.add [] = builder := by
  obtain ⟨roots, opened⟩ := builder
  cases opened with
  | nil => simp [add, updateChildren]
  | cons inner outer => simp [add, updateChildren]

theorem add_add (builder : Builder) (first second : List Markup) :
    (builder.add first).add second = builder.add (first ++ second) := by
  unfold add
  rw [updateChildren_updateChildren]
  congr 1
  funext children
  exact List.append_assoc children first second

theorem run_of_step {builder next : Builder} {token : Token} (stepped : builder.step token = .ok next)
    (rest : List Token) : run builder (token :: rest) = run next rest := by
  rw [run, stepped]

/-- A text does not touch what stands before it unless that is a text. -/
theorem addText_of_apart {children : List Markup} {content : String}
    (apart : (children ++ [Markup.text content]).IsChain Apart) :
    addText children content = children ++ [.text content] := by
  have last := (List.isChain_append.mp apart).2.2
  unfold addText
  split
  · rename_i before found
    exact absurd (last _ found _ rfl rfl) (by simp [isText])
  · rfl

mutual

theorem run_tokens : ∀ tree : Markup, tree.Everywhere Legal → tree.Everywhere Tight →
    ∀ (builder : Builder) (rest : List Token), (builder.current ++ [tree]).IsChain Apart →
      run builder (tokens tree ++ rest) = run (builder.add [tree]) rest
  | .text content, _, _, builder, rest, apart => by
      apply run_of_step
      rw [step, Text.decodeEntities_escapeText, String.ofList_toList]
      exact congrArg Except.ok (updateChildren_congr (addText_of_apart apart))
  | .comment content, _, _, builder, rest, _ => by
      apply run_of_step
      rw [step, String.ofList_toList]
      rfl
  | .element tag attributes children, ⟨legal, legalInside⟩, ⟨apart, tightInside⟩, builder, rest, _ => by
      have name := lower_of_isLowerCase legal.lowered
      have read := attributesOf_writtenAttribute (fun entry member => (legal.named entry member).2)
        legal.distinct
      have opens : builder.step (.opening tag.toList (attributes.map Token.writtenAttribute) false) =
          .ok (builder.opening tag attributes false) := by
        rw [step, name, read]
      rw [tokens, List.cons_append, run_of_step opens]
      cases void : isVoid tag with
      | true =>
          have hollow := legal.hollow void
          simp only [if_true, List.nil_append]
          simp only [opening, void, Bool.or_true, if_true, hollow]
          rfl
      | false =>
          have pushed : builder.opening tag attributes false =
              { builder with opened := ⟨tag, attributes, []⟩ :: builder.opened } := by
            simp [opening, void]
          have inside := run_tokensAll children ⟨legalInside, tightInside, apart⟩
            { builder with opened := ⟨tag, attributes, []⟩ :: builder.opened }
            (.closing tag.toList :: rest) apart
          have closes : ({ builder with opened := ⟨tag, attributes, children⟩ :: builder.opened } : Builder).step
              (.closing tag.toList) = .ok (builder.add [.element tag attributes children]) := by
            simp only [step, name, closing, void]
            simp only [Bool.false_eq_true, if_false, if_true]
            rfl
          rw [if_neg (by simp), List.append_assoc, List.singleton_append, pushed, inside]
          exact run_of_step closes rest

/-- A run over the tokens of written markup in normal form adds this markup. -/
theorem run_tokensAll : ∀ trees : List Markup, Normal trees →
    ∀ (builder : Builder) (rest : List Token), (builder.current ++ trees).IsChain Apart →
      run builder (tokensAll trees ++ rest) = run (builder.add trees) rest
  | [], _, builder, rest, _ => by rw [add_nil]; rfl
  | first :: others, normal, builder, rest, apart => by
      obtain ⟨legal, tight, -, later⟩ := normal_cons.mp normal
      rw [← List.singleton_append, ← List.append_assoc] at apart
      have here := run_tokens first legal tight builder (tokensAll others ++ rest)
        (List.isChain_append.mp apart).1
      have added : ((builder.add [first]).current ++ others).IsChain Apart := by
        rw [add, current_updateChildren]
        exact apart
      rw [tokensAll, List.append_assoc, here, run_tokensAll others later (builder.add [first]) rest added,
        add_add]
      rfl

end

end Builder

/-- Written markup in normal form is parsed to what was written. -/
theorem parse_printAll_of_normal {trees : List Markup} (normal : Normal trees) :
    parse (String.ofList (printAll trees)) = .ok trees := by
  have scanned := scan_printAll trees normal [] (by simp)
  have built := Builder.run_tokensAll trees normal {} [] normal.apart
  rw [List.append_nil, Token.scan_nil] at scanned
  rw [parse, read, String.toList_ofList, scanned, built]
  rfl

/-! Whatever the template, everything that is built is in normal form. -/

theorem normal_append {first second : List Markup} :
    Normal (first ++ second) ↔ Normal first ∧ Normal second ∧
      ∀ last ∈ first.getLast?, ∀ next ∈ second.head?, Apart last next := by
  constructor
  · intro ⟨legal, tight, apart⟩
    obtain ⟨legalFirst, legalSecond⟩ := everywhereAll_append.mp legal
    obtain ⟨tightFirst, tightSecond⟩ := everywhereAll_append.mp tight
    obtain ⟨apartFirst, apartSecond, between⟩ := List.isChain_append.mp apart
    exact ⟨⟨legalFirst, tightFirst, apartFirst⟩, ⟨legalSecond, tightSecond, apartSecond⟩, between⟩
  · intro ⟨early, late, between⟩
    exact ⟨everywhereAll_append.mpr ⟨early.legal, late.legal⟩,
      everywhereAll_append.mpr ⟨early.tight, late.tight⟩,
      List.isChain_append.mpr ⟨early.apart, late.apart, between⟩⟩

theorem normal_singleton {tree : Markup} :
    Normal [tree] ↔ tree.Everywhere Legal ∧ tree.Everywhere Tight := by
  simp [normal_cons, normal_nil]

/-- What is no text may come after anything. -/
theorem normal_concat {children : List Markup} {tree : Markup} (normal : Normal children)
    (added : Normal [tree]) (noText : tree.isText = false) : Normal (children ++ [tree]) := by
  refine normal_append.mpr ⟨normal, added, ?_⟩
  intro last _ next same _
  cases same
  exact noText

theorem normal_addText {children : List Markup} {content : String} (normal : Normal children)
    (present : content ≠ "") : Normal (addText children content) := by
  unfold addText
  split
  · -- The longer text stands where the last one stood.
    rename_i before found
    rw [← List.dropLast_append_getLast? _ found] at normal
    obtain ⟨early, -, between⟩ := normal_append.mp normal
    have longer : before ++ content ≠ "" := fun empty => present (String.append_eq_empty_iff.mp empty).2
    refine normal_append.mpr ⟨early, normal_singleton.mpr ⟨trivial, longer⟩, ?_⟩
    intro last known next same isText
    cases same
    exact between last known (.text before) rfl isText
  · rename_i noText
    refine normal_append.mpr ⟨normal, normal_singleton.mpr ⟨trivial, present⟩, ?_⟩
    intro last known next same isText
    cases last with
    | text before => exact absurd known (noText before)
    | comment body => cases isText
    | element tag attributes inner => cases isText

/-- An attribute is added in lower case, and only if its name is new. -/
theorem legal_attributesOf {attributes : List (List Char × Option (List Char))}
    (names : ∀ entry ∈ attributes, Token.IsName entry.1) :
    (∀ entry ∈ attributesOf attributes, Token.IsName entry.1.toList ∧ IsLowerCase entry.1) ∧
      ((attributesOf attributes).map Prod.fst).Nodup := by
  have general : ∀ (late : List (List Char × Option (List Char))) (early : List (String × String)),
      (∀ entry ∈ late, Token.IsName entry.1) →
      (∀ entry ∈ early, Token.IsName entry.1.toList ∧ IsLowerCase entry.1) →
      (early.map Prod.fst).Nodup →
      (∀ entry ∈ late.foldl addAttribute early, Token.IsName entry.1.toList ∧ IsLowerCase entry.1) ∧
        ((late.foldl addAttribute early).map Prod.fst).Nodup := by
    intro late
    induction late with
    | nil => exact fun _ _ known distinct => ⟨known, distinct⟩
    | cons entry rest inductionHypothesis =>
        intro early names known distinct
        have isName : Token.IsName (lower entry.1).toList := by
          rw [lower, String.toList_ofList]
          exact Token.isName_lower (names entry List.mem_cons_self)
        have later := fun other member => names other (List.mem_cons_of_mem entry member)
        rw [List.foldl_cons, addAttribute]
        split
        · exact inductionHypothesis early later known distinct
        · rename_i fresh
          have absent := Assoc.contains_eq_false.mp (Bool.eq_false_iff.mpr fresh)
          apply inductionHypothesis _ later
          · intro other member
            rcases List.mem_append.mp member with old | new
            · exact known other old
            · cases List.mem_singleton.mp new
              exact ⟨isName, isLowerCase_lower entry.1⟩
          · rw [List.map_append, List.map_singleton]
            refine List.nodup_append.mpr ⟨distinct, by simp, ?_⟩
            rintro name member other single rfl
            have same : name = lower entry.1 := List.mem_singleton.mp single
            exact absent (same ▸ member)
  exact general attributes [] names (by simp) List.nodup_nil

namespace Builder

/-- What was built so far is in normal form, and each open element may have content. -/
structure Sound (builder : Builder) : Prop where
  roots : Normal builder.roots
  opened : ∀ inner ∈ builder.opened,
    LegalElement inner.tag inner.attributes inner.children ∧ isVoid inner.tag = false ∧
      Normal inner.children

namespace Sound

variable {builder : Builder}

theorem updateChildren (sound : builder.Sound) {change : List Markup → List Markup}
    (keeps : Normal builder.current → Normal (change builder.current)) :
    (builder.updateChildren change).Sound := by
  obtain ⟨roots, opened⟩ := builder
  cases opened with
  | nil => exact ⟨keeps sound.roots, sound.opened⟩
  | cons inner outer =>
      obtain ⟨legal, filled, normal⟩ := sound.opened inner List.mem_cons_self
      refine ⟨sound.roots, fun element member => ?_⟩
      rcases List.mem_cons.mp member with rfl | later
      · have hollow : isVoid inner.tag = true → change inner.children = [] := fun void => by
          rw [filled] at void
          cases void
        exact ⟨{ legal with hollow }, filled, keeps normal⟩
      · exact sound.opened element (List.mem_cons_of_mem inner later)

theorem add (sound : builder.Sound) {tree : Markup} (normal : Normal [tree])
    (noText : tree.isText = false) : (builder.updateChildren (· ++ [tree])).Sound :=
  sound.updateChildren fun before => normal_concat before normal noText

theorem close (sound : builder.Sound) : builder.close.Sound := by
  obtain ⟨roots, opened⟩ := builder
  cases opened with
  | nil => exact sound
  | cons inner outer =>
      obtain ⟨legal, -, normal⟩ := sound.opened inner List.mem_cons_self
      have others : Sound { roots, opened := outer } :=
        ⟨sound.roots, fun element member => sound.opened element (List.mem_cons_of_mem inner member)⟩
      have closed : Normal [.element inner.tag inner.attributes inner.children] :=
        normal_singleton.mpr ⟨⟨legal, normal.legal⟩, ⟨normal.apart, normal.tight⟩⟩
      exact others.add closed rfl

theorem opening (sound : builder.Sound) {tag : String} {attributes : List (String × String)}
    (legal : LegalElement tag attributes []) (selfClosing : Bool) :
    (builder.opening tag attributes selfClosing).Sound := by
  unfold Builder.opening
  split
  · exact sound.add (normal_singleton.mpr ⟨⟨legal, trivial⟩, ⟨.nil, trivial⟩⟩) rfl
  · rename_i filled
    have notVoid := (Bool.or_eq_false_iff.mp (Bool.eq_false_iff.mpr filled)).2
    refine ⟨sound.roots, fun element member => ?_⟩
    rcases List.mem_cons.mp member with rfl | later
    · exact ⟨legal, notVoid, normal_nil⟩
    · exact sound.opened element later

/-- One token keeps what was built in normal form. -/
theorem step (sound : builder.Sound) {token : Token} (legal : token.Legal) {next : Builder}
    (stepped : builder.step token = .ok next) : next.Sound := by
  cases token with
  | comment body =>
      cases stepped
      have isBody : Token.IsBody (String.ofList body).toList := by
        rw [String.toList_ofList]
        exact legal
      have normal : Normal [.comment (String.ofList body)] := normal_singleton.mpr ⟨isBody, trivial⟩
      exact sound.add normal rfl
  | declaration =>
      cases stepped
      exact sound
  | closing tag =>
      rw [Builder.step, Builder.closing] at stepped
      split at stepped
      · cases stepped
        exact sound
      · split at stepped
        · cases stepped
        · split at stepped
          · cases stepped
            exact sound.close
          · cases stepped
  | opening tag attributes selfClosing =>
      cases stepped
      obtain ⟨isTag, names⟩ := legal
      obtain ⟨named, distinct⟩ := legal_attributesOf names
      apply sound.opening
      constructor
      · rw [lower, String.toList_ofList]
        exact Token.isTag_lower isTag
      · exact isLowerCase_lower tag
      · exact named
      · exact distinct
      · exact fun _ => rfl
  | text content =>
      cases stepped
      have present : String.ofList (Text.decodeEntities content) ≠ "" := fun empty =>
        Text.decodeEntities_ne_nil legal (String.ofList_eq_empty_iff.mp empty)
      exact sound.updateChildren fun normal => normal_addText normal present

theorem run (sound : builder.Sound) {tokens : List Token} (legal : ∀ token ∈ tokens, token.Legal) :
    (Builder.run builder tokens).1.Sound := by
  induction tokens generalizing builder with
  | nil => exact sound
  | cons token rest inductionHypothesis =>
      rw [Builder.run]
      split
      · rename_i next stepped
        exact inductionHypothesis (sound.step (legal token List.mem_cons_self) stepped)
          fun other member => legal other (List.mem_cons_of_mem token member)
      · exact sound

theorem finish (sound : builder.Sound) : Normal builder.finish := by
  have closes : ∀ (opened : List OpenElement) (builder : Builder), builder.Sound →
      (opened.foldl (fun current _ => current.close) builder).Sound := by
    intro opened
    induction opened with
    | nil => exact fun _ sound => sound
    | cons inner outer inductionHypothesis => exact fun _ sound => inductionHypothesis _ sound.close
  exact (closes builder.opened builder sound).roots

end Sound

end Builder

/-- Whatever a template contains, the markup that is read from it is in normal form. -/
theorem normal_read (source : String) : Normal (read source).trees := by
  have sound : Builder.Sound {} := ⟨normal_nil, fun _ member => by cases member⟩
  exact (sound.run (Token.legal_of_mem_scan source.toList)).finish

end Markup

end LiveMarkup
