import LiveMarkup.Expr.Eval

/-
This file evaluates an expression on two sets of fields that differ in the form of integral numbers.
The form is told apart at two places: when a position is counted, and when collections are compared.
-/

namespace LiveMarkup

open Binary64

namespace Binary64

/-- The binary64 number nearest to an integer has exactly its value. -/
def HoldsInt (value : Int) : Prop :=
  ofInt value = .finite (value < 0) (value.natAbs * unitsPerOne)

instance (value : Int) : Decidable (HoldsInt value) := inferInstanceAs (Decidable (_ = _))

theorem isIntegral_ofInt {value : Int} (exact : HoldsInt value) : (ofInt value).isIntegral = true := by
  rw [exact]
  simp [isIntegral]

end Binary64

namespace Number

/-- An integer and the real of exactly its value are two forms of one number. -/
inductive Twin : Number → Number → Prop
  | same (number : Number) : Twin number number
  | widened {value : Int} (exact : HoldsInt value) : Twin (.integer value) (.real (.ofInt value))
  | narrowed {value : Int} (exact : HoldsInt value) : Twin (.real (.ofInt value)) (.integer value)

/-- A number that is integral is canonical in its integer form only. -/
def isCanonical : Number → Bool
  | .integer _ => true
  | .real value => !value.isIntegral

namespace Twin

variable {first second : Number}

theorem toBinary (twin : first.Twin second) : first.toBinary = second.toBinary := by
  cases twin <;> rfl

theorem eq_of_isCanonical (twin : first.Twin second) (here : first.isCanonical)
    (there : second.isCanonical) : first = second := by
  cases twin with
  | same => rfl
  | widened exact => simp [isCanonical, isIntegral_ofInt exact] at there
  | narrowed exact => simp [isCanonical, isIntegral_ofInt exact] at here

end Twin

end Number

namespace Value

mutual

/-- Two values are alike when they differ at most in the form of the numbers inside them. -/
inductive Alike : Value → Value → Prop
  | null : Alike .null .null
  | bool (value : Bool) : Alike (.bool value) (.bool value)
  | number {first second : Number} (twin : first.Twin second) : Alike (.number first) (.number second)
  | string (value : String) : Alike (.string value) (.string value)
  | array {firsts seconds : List Value} (items : AlikeItems firsts seconds) :
      Alike (.array firsts) (.array seconds)
  | object {firsts seconds : Dictionary Value} (fields : AlikeFields firsts seconds) :
      Alike (.object firsts) (.object seconds)

inductive AlikeItems : List Value → List Value → Prop
  | nil : AlikeItems [] []
  | cons {first second : Value} {firsts seconds : List Value} (head : Alike first second)
      (tail : AlikeItems firsts seconds) : AlikeItems (first :: firsts) (second :: seconds)

inductive AlikeFields : Dictionary Value → Dictionary Value → Prop
  | nil : AlikeFields [] []
  | cons (name : String) {first second : Value} {firsts seconds : Dictionary Value}
      (head : Alike first second) (tail : AlikeFields firsts seconds) :
      AlikeFields ((name, first) :: firsts) ((name, second) :: seconds)

end

mutual

/-- All numbers inside a canonical value are canonical. -/
def isCanonical : Value → Bool
  | .null => true
  | .bool _ => true
  | .number value => value.isCanonical
  | .string _ => true
  | .array items => areCanonical items
  | .object fields => haveCanonical fields

def areCanonical : List Value → Bool
  | [] => true
  | item :: rest => isCanonical item && areCanonical rest

def haveCanonical : List (String × Value) → Bool
  | [] => true
  | (_, item) :: rest => isCanonical item && haveCanonical rest

end

mutual

theorem Alike.refl : ∀ value : Value, value.Alike value
  | .null => .null
  | .bool value => .bool value
  | .number value => .number (.same value)
  | .string value => .string value
  | .array items => .array (AlikeItems.refl items)
  | .object fields => .object (AlikeFields.refl fields)

theorem AlikeItems.refl : ∀ items : List Value, AlikeItems items items
  | [] => .nil
  | item :: rest => .cons (Alike.refl item) (AlikeItems.refl rest)

theorem AlikeFields.refl : ∀ fields : List (String × Value), AlikeFields fields fields
  | [] => .nil
  | (name, item) :: rest => .cons name (Alike.refl item) (AlikeFields.refl rest)

end

mutual

theorem Alike.display {first second : Value} (alike : first.Alike second) :
    first.display = second.display := by
  cases alike with
  | null => rfl
  | bool => rfl
  | string => rfl
  | object => simp [Value.display]
  | number twin => simp [Value.display, Number.display, twin.toBinary]
  | array items => simp [Value.display, items.displayItems]

theorem AlikeItems.displayItems {firsts seconds : List Value} (alike : AlikeItems firsts seconds) :
    Value.displayItems firsts = Value.displayItems seconds := by
  cases alike with
  | nil => rfl
  | cons head tail =>
      have shown := head.display
      have rest := tail.displayItems
      cases head <;> simp [Value.displayItems, shown, rest]

end

mutual

/-- Values that are alike and canonical are equal. -/
theorem Alike.eq_of_isCanonical {first second : Value} (alike : first.Alike second)
    (here : first.isCanonical) (there : second.isCanonical) : first = second := by
  cases alike with
  | null => rfl
  | bool => rfl
  | string => rfl
  | number twin => rw [twin.eq_of_isCanonical here there]
  | array items => rw [items.eq_of_areCanonical here there]
  | object fields => rw [fields.eq_of_haveCanonical here there]

theorem AlikeItems.eq_of_areCanonical {firsts seconds : List Value}
    (alike : AlikeItems firsts seconds) (here : areCanonical firsts)
    (there : areCanonical seconds) : firsts = seconds := by
  cases alike with
  | nil => rfl
  | cons head tail =>
      simp only [areCanonical, Bool.and_eq_true] at here there
      rw [head.eq_of_isCanonical here.1 there.1, tail.eq_of_areCanonical here.2 there.2]

theorem AlikeFields.eq_of_haveCanonical {firsts seconds : List (String × Value)}
    (alike : AlikeFields firsts seconds) (here : haveCanonical firsts)
    (there : haveCanonical seconds) : firsts = seconds := by
  cases alike with
  | nil => rfl
  | cons name head tail =>
      simp only [haveCanonical, Bool.and_eq_true] at here there
      rw [head.eq_of_isCanonical here.1 there.1, tail.eq_of_haveCanonical here.2 there.2]

end

namespace Alike

variable {first second : Value}

theorem kind (alike : first.Alike second) : first.kind = second.kind := by
  cases alike <;> rfl

theorem isTruthy (alike : first.Alike second) : first.isTruthy = second.isTruthy := by
  cases alike with
  | number twin => simp only [Value.isTruthy, twin.toBinary]
  | _ => rfl

theorem isString (alike : first.Alike second) : first.isString = second.isString := by
  cases alike <;> rfl

theorem isCollection (alike : first.Alike second) : first.isCollection = second.isCollection := by
  cases alike <;> rfl

theorem toNumber? (alike : first.Alike second) : first.toNumber? = second.toNumber? := by
  cases alike with
  | number twin => simp only [Value.toNumber?, twin.toBinary]
  | _ => rfl

end Alike

theorem AlikeItems.length {firsts seconds : List Value} (alike : AlikeItems firsts seconds) :
    firsts.length = seconds.length := by
  induction firsts generalizing seconds with
  | nil => cases alike; rfl
  | cons first firsts inductionHypothesis =>
      cases alike with
      | cons head tail => simp [inductionHypothesis tail]

/-- Places beyond the end count as null. -/
theorem AlikeItems.getD {firsts seconds : List Value} (alike : AlikeItems firsts seconds)
    (place : Nat) : (firsts[place]?.getD .null).Alike (seconds[place]?.getD .null) := by
  induction firsts generalizing seconds place with
  | nil => cases alike; exact .refl _
  | cons first firsts inductionHypothesis =>
      cases alike with
      | cons head tail =>
          cases place with
          | zero => exact head
          | succ place => exact inductionHypothesis tail place

theorem AlikeFields.get? {firsts seconds : Dictionary Value} (alike : AlikeFields firsts seconds)
    (name : String) :
    (Assoc.get? firsts name = none ∧ Assoc.get? seconds name = none) ∨
      ∃ first second, Assoc.get? firsts name = some first ∧ Assoc.get? seconds name = some second ∧
        first.Alike second := by
  induction firsts generalizing seconds with
  | nil => cases alike; exact Or.inl ⟨rfl, rfl⟩
  | cons entry firsts inductionHypothesis =>
      cases alike with
      | cons known head tail =>
          by_cases found : known = name
          · exact Or.inr ⟨_, _, if_pos found, if_pos found, head⟩
          · simp only [Assoc.get?, if_neg found]
            exact inductionHypothesis tail

end Value

/-- Two computations correspond when both fail alike, or both give values that are alike. -/
inductive Correspond : Except EvalError Value → Except EvalError Value → Prop
  | ok {first second : Value} (alike : first.Alike second) : Correspond (.ok first) (.ok second)
  | error (error : EvalError) : Correspond (.error error) (.error error)

namespace Correspond

theorem refl : ∀ result : Except EvalError Value, Correspond result result
  | .ok value => .ok (.refl value)
  | .error failure => .error failure

theorem of_eq {first second : Except EvalError Value} (same : first = second) :
    Correspond first second := same ▸ refl first

/-- What follows a step is compared on values that are alike and that the step gave. -/
theorem bind {first second : Except EvalError Value} {next continued : Value → Except EvalError Value}
    (start : Correspond first second)
    (rest : ∀ here there, first = .ok here → second = .ok there → here.Alike there →
      Correspond (next here) (continued there)) :
    Correspond (first >>= next) (second >>= continued) := by
  cases start with
  | ok alike => exact rest _ _ rfl rfl alike
  | error failure => exact .error failure

end Correspond

namespace Value

variable {first second third fourth : Value}

theorem correspond_property (alike : first.Alike second) (name : String) :
    Correspond (first.property name) (second.property name) := by
  cases alike with
  | array items => simpa [property, items.length] using Correspond.refl _
  | object fields =>
      rcases fields.get? name with ⟨absent, missing⟩ | ⟨here, there, found, met, alike⟩
      · simpa [property, absent, missing] using Correspond.refl _
      · simpa [property, found, met] using Correspond.ok alike
  | _ => exact .refl _

def isSequence : Value → Bool
  | .array _ => true
  | .string _ => true
  | _ => false

/-- A canonical position counts the same place in both forms of a sequence. -/
theorem correspond_itemAt (alike : first.Alike second) (position : third.Alike fourth)
    (canonical : first.isSequence → third.isCanonical ∧ fourth.isCanonical) :
    Correspond (first.itemAt third) (second.itemAt fourth) := by
  have counted (sequence : first.isSequence) : third = fourth :=
    position.eq_of_isCanonical (canonical sequence).1 (canonical sequence).2
  cases alike with
  | null => exact .refl _
  | string text => exact counted rfl ▸ .refl _
  | array items =>
      rw [← counted rfl]
      cases third with
      | number index =>
          cases counts : index.position? with
          | none => simpa [itemAt, counts] using Correspond.refl _
          | some place => simpa [itemAt, counts] using Correspond.ok (items.getD place)
      | string key => exact correspond_property (.array items) key
      | _ => exact .refl _
  | object fields =>
      have shown := position.display
      cases position with
      | string key => exact correspond_property (.object fields) key
      | _ => simpa [itemAt, shown] using correspond_property (.object fields) _
  | bool value => cases position <;> exact .refl _
  | number twin =>
      cases position with
      | string key => exact correspond_property (.number twin) key
      | _ => exact .refl _

theorem correspond_applyUnary (operator : UnaryOperator) (alike : first.Alike second) :
    Correspond (applyUnary operator first) (applyUnary operator second) := by
  apply Correspond.of_eq
  cases operator <;> simp [applyUnary, applyUnary.convert, alike.isTruthy, alike.toNumber?, alike.kind]

/-- Equality looks at the form of a number only inside collections that it compares. -/
theorem strictEquals_eq (left : first.Alike second) (right : third.Alike fourth)
    (canonical : first.isCollection → third.isCollection →
      (first.isCanonical ∧ second.isCanonical) ∧ third.isCanonical ∧ fourth.isCanonical) :
    first.strictEquals third = second.strictEquals fourth := by
  by_cases both : first.isCollection ∧ third.isCollection
  · obtain ⟨⟨here, there⟩, before, after⟩ := canonical both.1 both.2
    rw [left.eq_of_isCanonical here there, right.eq_of_isCanonical before after]
  · cases left <;> cases right <;> first | rfl | exact absurd ⟨rfl, rfl⟩ both | skip
    case number.number _ _ twin _ _ other => simp only [strictEquals, twin.toBinary, other.toBinary]

theorem looseEquals_eq (left : first.Alike second) (right : third.Alike fourth)
    (canonical : first.isCollection → third.isCollection →
      (first.isCanonical ∧ second.isCanonical) ∧ third.isCanonical ∧ fourth.isCanonical) :
    first.looseEquals third = second.looseEquals fourth := by
  have strict := strictEquals_eq left right canonical
  have before := left.toNumber?
  have after := right.toNumber?
  cases left <;> cases right <;> simp_all [looseEquals, isCollection]

theorem order?_eq (left : first.Alike second) (right : third.Alike fourth) :
    first.order? third = second.order? fourth := by
  have before := left.toNumber?
  have after := right.toNumber?
  cases left <;> cases right <;> simp_all [order?]

theorem correspond_arithmetic (operator : BinaryOperator) (compute : Binary64 → Binary64 → Binary64)
    (left : first.Alike second) (right : third.Alike fourth) :
    Correspond (arithmetic operator compute first third) (arithmetic operator compute second fourth) := by
  apply Correspond.of_eq
  simp only [arithmetic, left.toNumber?, right.toNumber?, left.kind, right.kind]

end Value

namespace BinaryOperator

def isEquality : BinaryOperator → Bool
  | .eq | .ne | .strictEq | .strictNe => true
  | _ => false

/-- A logical operator is decided when its left side settles the result. -/
def isDecided (operator : BinaryOperator) (left : Value) : Bool :=
  match operator with
  | .and => !left.isTruthy
  | .or => left.isTruthy
  | _ => false

end BinaryOperator

namespace Value

variable {first second third fourth : Value}

theorem correspond_applyBinary (operator : BinaryOperator) (left : first.Alike second)
    (right : third.Alike fourth)
    (canonical : operator.isEquality → first.isCollection → third.isCollection →
      (first.isCanonical ∧ second.isCanonical) ∧ third.isCanonical ∧ fourth.isCanonical) :
    Correspond (applyBinary operator first third) (applyBinary operator second fourth) := by
  have strict (equality : operator.isEquality) := strictEquals_eq left right (canonical equality)
  have loose (equality : operator.isEquality) := looseEquals_eq left right (canonical equality)
  cases operator
  case add =>
    by_cases text : first.isString || third.isString
    · have shown : second.isString || fourth.isString := by rwa [← left.isString, ← right.isString]
      simpa [applyBinary, text, shown, left.display, right.display] using Correspond.refl _
    · have shown : ¬ (second.isString || fourth.isString) := by rwa [← left.isString, ← right.isString]
      simpa [applyBinary, text, shown] using correspond_arithmetic .add Binary64.add left right
  case sub => exact correspond_arithmetic .sub Binary64.sub left right
  case mul => exact correspond_arithmetic .mul Binary64.mul left right
  case div => exact correspond_arithmetic .div Binary64.div left right
  case rem => exact correspond_arithmetic .rem Binary64.rem left right
  case and =>
    rw [applyBinary, applyBinary, left.isTruthy]
    split
    · exact .ok right
    · exact .ok left
  case or =>
    rw [applyBinary, applyBinary, left.isTruthy]
    split
    · exact .ok left
    · exact .ok right
  case eq => exact .of_eq (by rw [applyBinary, applyBinary, loose rfl])
  case ne => exact .of_eq (by rw [applyBinary, applyBinary, loose rfl])
  case strictEq => exact .of_eq (by rw [applyBinary, applyBinary, strict rfl])
  case strictNe => exact .of_eq (by rw [applyBinary, applyBinary, strict rfl])
  all_goals exact .of_eq (by rw [applyBinary, applyBinary, order?_eq left right])

end Value

namespace Expr

variable (fields : Dictionary Value)

mutual

/-- Whatever an evaluation reaches, it counts positions and compares collections canonically. -/
def KeepsForms : Expr → Prop
  | .member object _ => KeepsForms object
  | .index object position =>
      KeepsForms object ∧ ∀ sequence, eval (.ofFields fields) object = .ok sequence →
        KeepsForms position ∧ ∀ place, eval (.ofFields fields) position = .ok place →
          sequence.isSequence → place.isCanonical
  | .call _ arguments => AllKeepForms arguments
  | .unary _ operand => KeepsForms operand
  | .binary operator left right =>
      KeepsForms left ∧ ∀ first, eval (.ofFields fields) left = .ok first →
        ¬ operator.isDecided first → KeepsForms right ∧
          ∀ second, eval (.ofFields fields) right = .ok second → operator.isEquality →
            first.isCollection → second.isCollection → first.isCanonical ∧ second.isCanonical
  | .conditional test yes no =>
      KeepsForms test ∧ ∀ value, eval (.ofFields fields) test = .ok value →
        if value.isTruthy then KeepsForms yes else KeepsForms no
  | _ => True

def AllKeepForms : List Expr → Prop
  | [] => True
  | first :: rest => KeepsForms first ∧
      ((eval (Scope.ofFields fields) first).isOk → AllKeepForms rest)

end

@[simp] theorem raise_eq {A : Type} (result : Except EvalError A) :
    (raise result : Except EvalError A) = result := by
  cases result <;> rfl

/-- The right side is evaluated when the left side has not decided the result. -/
theorem eval_binary (scope : Scope (Except EvalError)) (operator : BinaryOperator)
    (left right : Expr) :
    eval scope (.binary operator left right) =
      eval scope left >>= fun first =>
        if operator.isDecided first then pure first
        else eval scope right >>= Value.applyBinary operator first := by
  rw [eval]
  congr 1
  funext first
  cases operator <;> cases truthy : first.isTruthy <;> simp [BinaryOperator.isDecided, truthy]

variable {fields} {others : Dictionary Value}

theorem correspond_lookup (alike : Value.AlikeFields fields others) (name : String) :
    Correspond ((Scope.ofFields fields).lookup name) ((Scope.ofFields others).lookup name) := by
  rcases alike.get? name with ⟨absent, missing⟩ | ⟨here, there, found, met, alike⟩
  · simpa [Scope.ofFields, absent, missing] using Correspond.refl _
  · simpa [Scope.ofFields, found, met] using Correspond.ok alike

mutual

/-- Fields that are alike give corresponding results if both evaluations are canonical. -/
theorem correspond_eval (alike : Value.AlikeFields fields others) :
    ∀ expr : Expr, KeepsForms fields expr → KeepsForms others expr →
      Correspond (eval (.ofFields fields) expr) (eval (.ofFields others) expr)
  | .number _, _, _ => .refl _
  | .string _, _, _ => .refl _
  | .bool _, _, _ => .refl _
  | .null, _, _ => .refl _
  | .ident name, _, _ => correspond_lookup alike name
  | .member object property, here, there => by
      rw [KeepsForms] at here there
      simp only [eval, raise_eq]
      exact (correspond_eval alike object here there).bind fun _ _ _ _ alike =>
        Value.correspond_property alike property
  | .index object position, here, there => by
      rw [KeepsForms] at here there
      simp only [eval, raise_eq]
      apply (correspond_eval alike object here.1 there.1).bind
      intro sequence other found met sequences
      obtain ⟨before, counts⟩ := here.2 sequence found
      obtain ⟨after, counted⟩ := there.2 other met
      apply (correspond_eval alike position before after).bind
      intro place target reached arrived places
      apply Value.correspond_itemAt sequences places
      intro isSequence
      exact ⟨counts place reached isSequence,
        counted target arrived (by cases sequences <;> first | rfl | exact isSequence)⟩
  | .call name arguments, here, there => by
      rw [KeepsForms] at here there
      rcases same_evalAll alike arguments here there with ⟨failure, first, second⟩ | ⟨values, _, first, second⟩
      · simp only [eval, first, second]
        exact .error failure
      · simp only [eval, first, second]
        exact .error (.unknownMethod name)
  | .unary operator operand, here, there => by
      rw [KeepsForms] at here there
      simp only [eval, raise_eq]
      exact (correspond_eval alike operand here there).bind fun _ _ _ _ alike =>
        Value.correspond_applyUnary operator alike
  | .binary operator left right, here, there => by
      rw [KeepsForms] at here there
      rw [eval_binary, eval_binary]
      apply (correspond_eval alike left here.1 there.1).bind
      intro first other found met lefts
      have decides : operator.isDecided first = operator.isDecided other := by
        cases operator <;> simp only [BinaryOperator.isDecided, lefts.isTruthy]
      by_cases decided : operator.isDecided first
      · rw [if_pos decided, if_pos (decides ▸ decided)]
        exact .ok lefts
      · rw [if_neg decided, if_neg (decides ▸ decided)]
        obtain ⟨before, compares⟩ := here.2 first found decided
        obtain ⟨after, compared⟩ := there.2 other met (decides ▸ decided)
        apply (correspond_eval alike right before after).bind
        intro second another reached arrived rights
        apply Value.correspond_applyBinary operator lefts rights
        intro equality isCollection alsoCollection
        obtain ⟨firsts, seconds⟩ := compares second reached equality isCollection alsoCollection
        obtain ⟨thirds, fourths⟩ := compared another arrived equality
          (lefts.isCollection ▸ isCollection) (rights.isCollection ▸ alsoCollection)
        exact ⟨⟨firsts, thirds⟩, seconds, fourths⟩
  | .conditional test yes no, here, there => by
      rw [KeepsForms] at here there
      simp only [eval]
      apply (correspond_eval alike test here.1 there.1).bind
      intro value other found met tests
      have before := here.2 value found
      have after := there.2 other met
      rw [← tests.isTruthy] at after ⊢
      by_cases truthy : value.isTruthy
      · rw [if_pos truthy] at before after ⊢
        rw [if_pos truthy]
        exact correspond_eval alike yes before after
      · rw [if_neg truthy] at before after ⊢
        rw [if_neg truthy]
        exact correspond_eval alike no before after

theorem same_evalAll (alike : Value.AlikeFields fields others) :
    ∀ arguments : List Expr, AllKeepForms fields arguments → AllKeepForms others arguments →
      (∃ failure, evalAll (Scope.ofFields fields) arguments = .error failure ∧
          evalAll (Scope.ofFields others) arguments = .error failure) ∨
        ∃ firsts seconds, evalAll (Scope.ofFields fields) arguments = .ok firsts ∧
          evalAll (Scope.ofFields others) arguments = .ok seconds
  | [], _, _ => Or.inr ⟨[], [], rfl, rfl⟩
  | argument :: rest, here, there => by
      rw [AllKeepForms] at here there
      have head := correspond_eval alike argument here.1 there.1
      generalize before : eval (.ofFields fields) argument = first at head
      generalize after : eval (.ofFields others) argument = second at head
      cases head with
      | error failure => exact Or.inl ⟨failure, by rw [evalAll, before]; rfl, by rw [evalAll, after]; rfl⟩
      | ok alikes =>
          rcases same_evalAll alike rest (here.2 (by rw [before]; rfl)) (there.2 (by rw [after]; rfl)) with
            ⟨failure, first, second⟩ | ⟨firsts, seconds, first, second⟩
          · exact Or.inl ⟨failure, by rw [evalAll, before, first]; rfl, by rw [evalAll, after, second]; rfl⟩
          · exact Or.inr ⟨_, _, by rw [evalAll, before, first]; rfl, by rw [evalAll, after, second]; rfl⟩

end

end Expr

/-- Integral numbers and their real forms are interchangeable where both evaluations keep to canonical
positions and comparisons: both fail alike, or both give one text and one truth value. -/
theorem eval_ignores_forms {fields others : Dictionary Value}
    (alike : Value.AlikeFields fields others) (expr : Expr) (here : expr.KeepsForms fields)
    (there : expr.KeepsForms others) :
    (∃ failure, expr.eval (.ofFields fields) = .error failure ∧
      expr.eval (.ofFields others) = .error failure) ∨
    ∃ first second, expr.eval (.ofFields fields) = .ok first ∧
      expr.eval (.ofFields others) = .ok second ∧ first.Alike second ∧
      first.display = second.display ∧ first.isTruthy = second.isTruthy := by
  have corresponds := Expr.correspond_eval alike expr here there
  generalize expr.eval (.ofFields fields) = first at corresponds ⊢
  generalize expr.eval (.ofFields others) = second at corresponds ⊢
  cases corresponds with
  | error failure => exact Or.inl ⟨failure, rfl, rfl⟩
  | ok alike => exact Or.inr ⟨_, _, rfl, rfl, alike, alike.display, alike.isTruthy⟩

/-- These fields hold the number one in a given form, alone and in a list. -/
def fieldsWithOne (one : Number) : Dictionary Value :=
  [("one", .number one), ("ones", .array [.number one]), ("integers", .array [.integer 1]),
    ("texts", .array [.string "p", .string "q"])]

theorem alike_fieldsWithOne :
    Value.AlikeFields (fieldsWithOne (.integer 1)) (fieldsWithOne (.real (.ofInt 1))) := by
  have twin : Number.Twin (.integer 1) (.real (.ofInt 1)) := .widened (by decide +kernel)
  exact .cons _ (.number twin) (.cons _ (.array (.cons (.number twin) .nil)) (.refl _))

/-- A length counts a place, and a number joins the text found there. -/
def textAtLength : Expr :=
  .binary .add (.index (.ident "texts") (.member (.ident "ones") "length")) (.ident "one")

theorem keepsForms_textAtLength (one : Number) : textAtLength.KeepsForms (fieldsWithOne one) := by
  have measured : Expr.eval (.ofFields (fieldsWithOne one)) (.member (.ident "ones") "length") =
      .ok (.integer 1) := rfl
  simp [textAtLength, Expr.KeepsForms, BinaryOperator.isEquality, measured, Value.integer,
    Value.isCanonical, Number.isCanonical]

theorem eval_ignores_form_of_one :
    (∃ failure, textAtLength.eval (.ofFields (fieldsWithOne (.integer 1))) = .error failure ∧
      textAtLength.eval (.ofFields (fieldsWithOne (.real (.ofInt 1)))) = .error failure) ∨
    ∃ first second, textAtLength.eval (.ofFields (fieldsWithOne (.integer 1))) = .ok first ∧
      textAtLength.eval (.ofFields (fieldsWithOne (.real (.ofInt 1)))) = .ok second ∧
      first.Alike second ∧ first.display = second.display ∧ first.isTruthy = second.isTruthy :=
  eval_ignores_forms alike_fieldsWithOne textAtLength (keepsForms_textAtLength _)
    (keepsForms_textAtLength _)

/-- The real form of a position counts no place, and a list with it differs from a list without. -/
theorem forms_told_apart :
    Value.AlikeFields (fieldsWithOne (.integer 1)) (fieldsWithOne (.real (.ofInt 1))) ∧
      Expr.eval (.ofFields (fieldsWithOne (.integer 1))) (.index (.ident "texts") (.ident "one")) =
        .ok (.string "q") ∧
      Expr.eval (.ofFields (fieldsWithOne (.real (.ofInt 1)))) (.index (.ident "texts") (.ident "one")) =
        .ok .null ∧
      Expr.eval (.ofFields (fieldsWithOne (.integer 1)))
        (.binary .strictEq (.ident "ones") (.ident "integers")) = .ok (.bool true) ∧
      Expr.eval (.ofFields (fieldsWithOne (.real (.ofInt 1))))
        (.binary .strictEq (.ident "ones") (.ident "integers")) = .ok (.bool false) :=
  ⟨alike_fieldsWithOne, rfl, rfl, rfl, rfl⟩

end LiveMarkup
