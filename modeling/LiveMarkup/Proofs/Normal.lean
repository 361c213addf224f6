import Mathlib.Data.List.Chain
import LiveMarkup.Markup.Reading
import LiveMarkup.Proofs.Scanning

/-
This file says which markup is legal and which has its texts in order, and joins texts.
-/

namespace LiveMarkup

theorem toLower_of_not_isUpper {c : Char} (small : c.isUpper = false) : c.toLower = c :=
  dif_neg (of_decide_eq_false small)

theorem isLower_toLower {c : Char} (large : c.isUpper = true) : c.toLower.isLower = true := by
  have bounds : c.val ≥ 'A'.val ∧ c.val ≤ 'Z'.val := of_decide_eq_true large
  have code : c.toLower.val = c.val + ('a'.val - 'A'.val) := by
    unfold Char.toLower
    rw [dif_pos bounds]
  have least : 65 ≤ c.val.toNat := UInt32.le_iff_toNat_le.mp bounds.1
  have most : c.val.toNat ≤ 90 := UInt32.le_iff_toNat_le.mp bounds.2
  have shifted : c.toLower.val.toNat = c.val.toNat + 32 := by
    rw [code, UInt32.toNat_add]
    exact Nat.mod_eq_of_lt (by change c.val.toNat + 32 < 2 ^ 32; omega)
  unfold Char.isLower
  rw [Bool.and_eq_true, decide_eq_true_eq, decide_eq_true_eq]
  constructor
  · exact UInt32.le_iff_toNat_le.mpr (by change 97 ≤ _; omega)
  · exact UInt32.le_iff_toNat_le.mpr (by change _ ≤ 122; omega)

theorem isUpper_of_isLower {c : Char} (small : c.isLower = true) : c.isUpper = false := by
  unfold Char.isLower at small
  rw [Bool.and_eq_true, decide_eq_true_eq, decide_eq_true_eq] at small
  have least : 97 ≤ c.val.toNat := UInt32.le_iff_toNat_le.mp small.1
  unfold Char.isUpper
  rw [decide_eq_false_iff_not]
  intro large
  have most : c.val.toNat ≤ 90 := UInt32.le_iff_toNat_le.mp large.2
  omega

theorem isUpper_toLower (c : Char) : c.toLower.isUpper = false := by
  cases large : c.isUpper with
  | false => rw [toLower_of_not_isUpper large, large]
  | true => exact isUpper_of_isLower (isLower_toLower large)

/-- A class of characters that has all small letters keeps its characters in lower case. -/
theorem toLower_of_class {inClass : Char → Bool} (letters : ∀ c : Char, c.isLower = true → inClass c = true)
    {c : Char} (inside : inClass c = true) : inClass c.toLower = true := by
  cases large : c.isUpper with
  | false => rwa [toLower_of_not_isUpper large]
  | true => exact letters _ (isLower_toLower large)

namespace Token

theorem isNameChar_of_isLower {c : Char} (small : c.isLower = true) : isNameChar c = true := by
  have other : ∀ special : Char, special.isLower = false → c ≠ special := by
    rintro special large rfl
    rw [small] at large
    cases large
  simp only [isNameChar, isSpace, Bool.not_eq_true', Bool.or_eq_false_iff, beq_eq_false_iff_ne]
  refine ⟨⟨⟨⟨⟨⟨⟨⟨?_, ?_⟩, ?_⟩, ?_⟩, ?_⟩, ?_⟩, ?_⟩, ?_⟩, ?_⟩ <;> exact other _ rfl

theorem isAlpha_of_isLower {c : Char} (small : c.isLower = true) : c.isAlpha = true := by
  change (c.isUpper || c.isLower) = true
  rw [small, Bool.or_true]

theorem isTag_lower {tag : List Char} (isTag : IsTag tag) : IsTag (tag.map Char.toLower) := by
  obtain ⟨first, rest, rfl, letter, inside⟩ := isTag
  refine ⟨first.toLower, rest.map Char.toLower, rfl, ?_, ?_⟩
  · exact toLower_of_class (fun c small => isAlpha_of_isLower small) letter
  · intro c member
    obtain ⟨before, present, rfl⟩ := List.mem_map.mp member
    refine toLower_of_class (fun c small => ?_) (inside before present)
    change (c.isAlpha || c.isDigit || c == '-') = true
    rw [isAlpha_of_isLower small, Bool.true_or, Bool.true_or]

theorem isName_lower {name : List Char} (isName : IsName name) : IsName (name.map Char.toLower) := by
  constructor
  · exact fun empty => isName.1 (List.map_eq_nil_iff.mp empty)
  · intro c member
    obtain ⟨before, present, rfl⟩ := List.mem_map.mp member
    exact toLower_of_class (fun c small => isNameChar_of_isLower small) (isName.2 before present)

end Token

namespace Markup

/-- Names are compared in lower case. -/
def IsLowerCase (name : String) : Prop := ∀ c ∈ name.toList, c.isUpper = false

instance (name : String) : Decidable (IsLowerCase name) :=
  decidable_of_iff (name.toList.all fun c => !c.isUpper) (by simp [IsLowerCase])

theorem lower_of_isLowerCase {name : String} (small : IsLowerCase name) : lower name.toList = name := by
  have same : name.toList.map Char.toLower = name.toList := by
    conv => rhs; rw [← List.map_id name.toList]
    exact List.map_congr_left fun c member => toLower_of_not_isUpper (small c member)
  rw [lower, same, String.ofList_toList]

theorem isLowerCase_lower (name : List Char) : IsLowerCase (lower name) := by
  intro c member
  rw [lower, String.toList_ofList] at member
  obtain ⟨before, -, rfl⟩ := List.mem_map.mp member
  exact isUpper_toLower before

mutual

/-- A property holds of a piece of markup and of each piece inside it. -/
def Everywhere (holds : Markup → Prop) : Markup → Prop
  | .text content => holds (.text content)
  | .comment content => holds (.comment content)
  | .element tag attributes children =>
      holds (.element tag attributes children) ∧ EverywhereAll holds children

def EverywhereAll (holds : Markup → Prop) : List Markup → Prop
  | [] => True
  | first :: rest => Everywhere holds first ∧ EverywhereAll holds rest

end

theorem everywhereAll_append {holds : Markup → Prop} {first second : List Markup} :
    EverywhereAll holds (first ++ second) ↔ EverywhereAll holds first ∧ EverywhereAll holds second := by
  induction first with
  | nil => simp [EverywhereAll]
  | cons tree rest inductionHypothesis =>
      simp only [List.cons_append, EverywhereAll, inductionHypothesis, and_assoc]

/-- The tag and the names of an element are written in lower case, and no name is used twice. -/
structure LegalElement (tag : String) (attributes : List (String × String))
    (children : List Markup) : Prop where
  tagged : Token.IsTag tag.toList
  lowered : IsLowerCase tag
  named : ∀ entry ∈ attributes, Token.IsName entry.1.toList ∧ IsLowerCase entry.1
  distinct : (attributes.map Prod.fst).Nodup
  hollow : isVoid tag = true → children = []

/-- Any text may stand in markup, but a comment must not contain its end. -/
def Legal : Markup → Prop
  | .text _ => True
  | .comment content => Token.IsBody content.toList
  | .element tag attributes children => LegalElement tag attributes children

def isText : Markup → Bool
  | .text _ => true
  | _ => false

/-- At least one of two neighbours is no text. -/
def Apart (first second : Markup) : Prop := first.isText = true → second.isText = false

/-- A text has some content, and no two texts are neighbours in an element. -/
def Tight : Markup → Prop
  | .text content => content ≠ ""
  | .comment _ => True
  | .element _ _ children => children.IsChain Apart

/-- Markup is in normal form if it is legal and has no empty texts and no neighbouring texts. -/
structure Normal (trees : List Markup) : Prop where
  legal : EverywhereAll Legal trees
  tight : EverywhereAll Tight trees
  apart : trees.IsChain Apart

/-- An empty text is dropped, and a text in front of another one is joined with it. -/
def prepend (tree : Markup) (rest : List Markup) : List Markup :=
  match tree with
  | .text content =>
      if content = "" then rest
      else match rest with
        | .text after :: others => .text (content ++ after) :: others
        | _ => .text content :: rest
  | _ => tree :: rest

mutual

/-- Empty texts are dropped from the content of an element, and neighbouring texts are joined. -/
def joined : Markup → Markup
  | .text content => .text content
  | .comment content => .comment content
  | .element tag attributes children => .element tag attributes (joinedAll children)

def joinedAll : List Markup → List Markup
  | [] => []
  | first :: rest => prepend (joined first) (joinedAll rest)

end

theorem normal_nil : Normal [] := ⟨trivial, trivial, .nil⟩

theorem normal_cons {tree : Markup} {rest : List Markup} :
    Normal (tree :: rest) ↔ tree.Everywhere Legal ∧ tree.Everywhere Tight ∧
      (∀ next ∈ rest.head?, Apart tree next) ∧ Normal rest := by
  constructor
  · intro ⟨⟨legal, legalRest⟩, ⟨tight, tightRest⟩, apart⟩
    obtain ⟨next, apartRest⟩ := List.isChain_cons.mp apart
    exact ⟨legal, tight, next, legalRest, tightRest, apartRest⟩
  · intro ⟨legal, tight, next, normal⟩
    exact ⟨⟨legal, normal.legal⟩, ⟨tight, normal.tight⟩, List.isChain_cons.mpr ⟨next, normal.apart⟩⟩

theorem normal_prepend {tree : Markup} {rest : List Markup} (legal : tree.Everywhere Legal)
    (tight : tree.isText = false → tree.Everywhere Tight) (normal : Normal rest) :
    Normal (prepend tree rest) := by
  unfold prepend
  split
  · rename_i content
    split
    · exact normal
    · rename_i present
      split
      · rename_i after others
        obtain ⟨-, -, next, later⟩ := normal_cons.mp normal
        refine normal_cons.mpr ⟨trivial, ?_, next, later⟩
        intro empty
        have parts := String.append_eq_empty_iff.mp empty
        exact present parts.1
      · rename_i noText
        refine normal_cons.mpr ⟨trivial, present, ?_, normal⟩
        intro next member _
        cases rest with
        | nil => cases member
        | cons first others =>
            cases member
            cases next with
            | text after => exact absurd rfl (noText after others)
            | comment content => rfl
            | element tag attributes children => rfl
  · rename_i other
    have noText : tree.isText = false := by
      cases tree with
      | text content => exact absurd rfl (other content)
      | comment content => rfl
      | element tag attributes children => rfl
    refine normal_cons.mpr ⟨legal, tight noText, ?_, normal⟩
    intro next _ isText
    rw [noText] at isText
    cases isText

mutual

theorem legal_joined : ∀ tree : Markup, tree.Everywhere Legal →
    (joined tree).Everywhere Legal ∧ (tree.isText = false → (joined tree).Everywhere Tight)
  | .text content, legal => ⟨trivial, fun noText => by cases noText⟩
  | .comment content, legal => ⟨legal, fun _ => trivial⟩
  | .element tag attributes children, ⟨legal, inside⟩ => by
      have normal := normal_joinedAll children inside
      have hollow : isVoid tag = true → joinedAll children = [] := fun void => by
        rw [legal.hollow void]
        rfl
      exact ⟨⟨{ legal with hollow }, normal.legal⟩, fun _ => ⟨normal.apart, normal.tight⟩⟩

/-- Legal markup comes into normal form when its texts are joined. -/
theorem normal_joinedAll : ∀ trees : List Markup, EverywhereAll Legal trees → Normal (joinedAll trees)
  | [], _ => normal_nil
  | first :: rest, ⟨legal, later⟩ => by
      obtain ⟨legalFirst, tightFirst⟩ := legal_joined first legal
      have sameKind : (joined first).isText = first.isText := by cases first <;> rfl
      exact normal_prepend legalFirst (sameKind ▸ tightFirst) (normal_joinedAll rest later)

end

theorem printAll_prepend (tree : Markup) (rest : List Markup) :
    printAll (prepend tree rest) = print tree ++ printAll rest := by
  unfold prepend
  split
  · rename_i content
    split
    · rename_i empty
      rw [empty]
      rfl
    · split
      · simp only [printAll, print, String.toList_append, Text.escapeText_append, List.append_assoc]
      · rfl
  · rfl

mutual

theorem print_joined : ∀ tree : Markup, print (joined tree) = print tree
  | .text _ => rfl
  | .comment _ => rfl
  | .element tag attributes children => by
      simp only [joined, print, printAll_joinedAll children]

/-- Joined texts are written as before. -/
theorem printAll_joinedAll : ∀ trees : List Markup, printAll (joinedAll trees) = printAll trees
  | [] => rfl
  | first :: rest => by
      rw [joinedAll, printAll_prepend, print_joined first, printAll_joinedAll rest, printAll]

end

end Markup

end LiveMarkup
