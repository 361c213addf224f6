import LiveMarkup.Proofs.Building
import LiveMarkup.Proofs.Conduct
import LiveMarkup.Proofs.Planted
import LiveMarkup.World.Hosts

/-
This file shows that a tree that is written and parsed again comes back in normal form.
-/

namespace LiveMarkup

namespace Markup

/-- Legal markup that is written and parsed comes back with its texts joined. -/
theorem parse_printAll {trees : List Markup} (legal : EverywhereAll Legal trees) :
    parse (String.ofList (printAll trees)) = .ok (joinedAll trees) := by
  rw [← printAll_joinedAll]
  exact parse_printAll_of_normal (normal_joinedAll trees legal)

theorem parse_eq_ok {source : String} {trees : List Markup} :
    parse source = .ok trees ↔ (read source).error = none ∧ (read source).trees = trees := by
  cases found : (read source).error with
  | none => simp [parse, found]
  | some error => simp [parse, found]

theorem normal_parse {source : String} {trees : List Markup} (parsed : parse source = .ok trees) :
    Normal trees :=
  (parse_eq_ok.mp parsed).2 ▸ normal_read source

end Markup

/-- The nodes of a template are made in a new fragment, whether or not it parses. -/
theorem parseTemplate_eq (source : String) (world : World) :
    ∃ notices, Live.parseTemplate source world =
      .ok ((Markup.parse source).map fun _ => world.forest.size)
        { world with forest := (world.forest.plantFragment (Markup.read source).trees).2, notices } := by
  cases found : (Markup.read source).error with
  | some error =>
      have failed : Markup.parse source = .error error := by simp [Markup.parse, found]
      refine ⟨world.notices, ?_⟩
      unfold Live.parseTemplate
      simp only [found, failed]
      rfl
  | none =>
      have parsed := Markup.parse_eq_ok.mpr ⟨found, rfl⟩
      by_cases unclosed : 0 < (Markup.read source).unclosed
      · refine ⟨.unclosedElements (Markup.read source).unclosed :: world.notices, ?_⟩
        unfold Live.parseTemplate
        simp only [found, parsed, if_pos unclosed]
        rfl
      · refine ⟨world.notices, ?_⟩
        unfold Live.parseTemplate
        simp only [found, parsed, if_neg unclosed]
        rfl

theorem parseTemplate_of_parse {source : String} {trees : List Markup}
    (parsed : Markup.parse source = .ok trees) (world : World) :
    ∃ notices, Live.parseTemplate source world = .ok (.ok world.forest.size)
      { world with forest := (world.forest.plantFragment trees).2, notices } := by
  obtain ⟨notices, result⟩ := parseTemplate_eq source world
  rw [parsed, (Markup.parse_eq_ok.mp parsed).2] at result
  exact ⟨notices, result⟩

theorem parse_of_parseTemplate {source : String} {world after : World} {root : NodeId}
    (made : Live.parseTemplate source world = .ok (.ok root) after) :
    Markup.parse source = .ok (after.forest.innerMarkup root) := by
  obtain ⟨notices, result⟩ := parseTemplate_eq source world
  rw [result] at made
  cases parsed : Markup.parse source with
  | error error =>
      rw [parsed] at made
      cases made
  | ok trees =>
      rw [parsed] at made
      cases made
      dsimp only
      rw [(Markup.parse_eq_ok.mp parsed).2, Forest.innerMarkup_plantFragment]

/-- A legal tree that is written and parsed comes back without empty texts and with neighbouring texts
joined. What comes out of the parser is in normal form, so writing and parsing give it back as it is,
and the same text is written again. -/
theorem serialise_parse_roundTrip :
    (∀ (world : World) (root : NodeId),
      Markup.EverywhereAll Markup.Legal (world.forest.innerMarkup root) →
        ∃ copy after, Live.parseTemplate (world.forest.innerHtml root) world = .ok (.ok copy) after ∧
          after.forest.innerMarkup copy = Markup.joinedAll (world.forest.innerMarkup root)) ∧
    (∀ (source : String) (world after : World) (root : NodeId),
      Live.parseTemplate source world = .ok (.ok root) after →
        Markup.Normal (after.forest.innerMarkup root) ∧
        ∃ copy last, Live.parseTemplate (after.forest.innerHtml root) after = .ok (.ok copy) last ∧
          last.forest.innerMarkup copy = after.forest.innerMarkup root ∧
          last.forest.innerHtml copy = after.forest.innerHtml root) := by
  constructor
  · intro world root legal
    obtain ⟨notices, made⟩ := parseTemplate_of_parse (Markup.parse_printAll legal) world
    exact ⟨_, _, made, Forest.innerMarkup_plantFragment world.forest _⟩
  · intro source world after root made
    have normal := Markup.normal_parse (parse_of_parseTemplate made)
    obtain ⟨notices, again⟩ := parseTemplate_of_parse (Markup.parse_printAll_of_normal normal) after
    have shown := Forest.innerMarkup_plantFragment after.forest (after.forest.innerMarkup root)
    refine ⟨normal, _, _, again, shown, ?_⟩
    unfold Forest.innerHtml
    exact congrArg (fun trees => String.ofList (Markup.printAll trees)) shown

/-- This markup has texts to drop and to join, and characters to escape. -/
def looseMarkup : List Markup :=
  [.text "a & <", .text "", .text "\"b",
    .element "p" [("title", "\"x\" & y"), ("hidden", "")]
      [.comment "- -", .text "", .element "br" [] []],
    .comment "--"]

def looseWorld : World :=
  { World.empty with forest := (World.empty.forest.plantFragment looseMarkup).2 }

theorem roundTrip_of_looseMarkup :
    Markup.EverywhereAll Markup.Legal (looseWorld.forest.innerMarkup 0) ∧
    ∃ copy after, Live.parseTemplate (looseWorld.forest.innerHtml 0) looseWorld =
        .ok (.ok copy) after ∧
      after.forest.innerMarkup copy =
        [.text "a & <\"b",
          .element "p" [("title", "\"x\" & y"), ("hidden", "")]
            [.comment "- -", .element "br" [] []],
          .comment "--"] ∧
      ∃ again last, Live.parseTemplate (after.forest.innerHtml copy) after = .ok (.ok again) last ∧
        last.forest.innerMarkup again = after.forest.innerMarkup copy := by
  have planted : looseWorld.forest.innerMarkup 0 = looseMarkup :=
    Forest.innerMarkup_plantFragment World.empty.forest looseMarkup
  have legal : Markup.EverywhereAll Markup.Legal looseMarkup := by
    have line : Markup.LegalElement "br" [] [] :=
      ⟨⟨'b', ['r'], rfl, rfl, by simp; decide⟩, by decide, by simp, by simp, fun _ => rfl⟩
    have names : ∀ entry ∈ [("title", "\"x\" & y"), ("hidden", "")],
        Token.IsName entry.1.toList ∧ Markup.IsLowerCase entry.1 := by
      decide
    have paragraph : Markup.LegalElement "p" [("title", "\"x\" & y"), ("hidden", "")]
        [.comment "- -", .text "", .element "br" [] []] :=
      ⟨⟨'p', [], rfl, rfl, by simp⟩, by decide, names, by decide,
        fun void => by revert void; decide⟩
    have noEnd : Token.IsBody "- -".toList ∧ Token.IsBody "--".toList := by
      unfold Token.IsBody
      decide
    exact ⟨trivial, trivial, trivial, ⟨paragraph, noEnd.1, trivial, ⟨line, trivial⟩, trivial⟩, noEnd.2,
      trivial⟩
  rw [planted]
  refine ⟨legal, ?_⟩
  obtain ⟨copy, after, made, shown⟩ := serialise_parse_roundTrip.1 looseWorld 0 (planted ▸ legal)
  obtain ⟨-, again, last, remade, same, -⟩ := serialise_parse_roundTrip.2 _ _ _ _ made
  refine ⟨copy, after, made, ?_, again, last, remade, same⟩
  rw [shown, planted]
  rfl

end LiveMarkup
