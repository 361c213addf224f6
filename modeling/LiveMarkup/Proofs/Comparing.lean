import LiveMarkup.Value.Operation
import Mathlib.Order.Compare
import Mathlib.Data.String.Basic

/-
This file shows that the equalities of values and their order fit together.
-/

namespace LiveMarkup

namespace Binary64

variable {first second third : Binary64} {rank other : Int}

theorem compare?_of_rank (found : first.rank = some rank) (against : second.rank = some other) :
    first.compare? second = some (compare rank other) := by
  simp only [compare?, found, against]

/-- Equal numbers have the same rank, and nan has none. -/
theorem equal_iff : first.equal second = true ↔ ∃ rank, first.rank = some rank ∧ second.rank = some rank := by
  unfold equal
  constructor
  · intro same
    unfold compare? at same
    split at same
    · rename_i rank other found against
      obtain rfl : rank = other := by simpa using same
      exact ⟨rank, found, against⟩
    · simp at same
  · rintro ⟨rank, found, against⟩
    rw [compare?_of_rank found against]
    simp

theorem exists_rank (number : first ≠ .nan) : ∃ rank, first.rank = some rank := by
  cases first with
  | nan => exact absurd rfl number
  | infinite negative => exact ⟨_, rfl⟩
  | finite negative units => exact ⟨_, rfl⟩

theorem equal_self (number : first ≠ .nan) : first.equal first = true := by
  obtain ⟨rank, found⟩ := exists_rank number
  exact equal_iff.mpr ⟨rank, found, found⟩

theorem equal_comm (first second : Binary64) : first.equal second = second.equal first := by
  apply Bool.eq_iff_iff.mpr
  simp only [equal_iff, and_comm]

theorem equal_trans (same : first.equal second = true) (next : second.equal third = true) :
    first.equal third = true := by
  obtain ⟨rank, found, between⟩ := equal_iff.mp same
  obtain ⟨other, again, last⟩ := equal_iff.mp next
  obtain rfl : rank = other := Option.some.inj (between.symm.trans again)
  exact equal_iff.mpr ⟨rank, found, last⟩

theorem ofInt_ne_nan (value : Int) : ofInt value ≠ .nan := by
  unfold ofInt ofUnits
  dsimp only
  split <;> exact Binary64.noConfusion

end Binary64

namespace Number

variable {first second third : Number}

/-- Stored numbers are integers, finite numbers or infinities, but not nan. -/
def Proper (number : Number) : Prop := number.toBinary ≠ .nan

theorem same_self (proper : first.Proper) : first.same first = true := by
  cases first with
  | integer value => exact beq_self_eq_true value
  | real value => exact Binary64.equal_self proper

theorem same_comm (first second : Number) : first.same second = second.same first := by
  cases first <;> cases second <;> simp [same, Binary64.equal_comm, BEq.comm]

theorem same_trans (same : first.same second = true) (next : second.same third = true) :
    first.same third = true := by
  cases first <;> cases second <;> cases third <;> simp_all [Number.same]
  exact Binary64.equal_trans same next

end Number

namespace Value

variable {first second third : Value}

mutual

/-- No number in a proper value is nan. -/
def Proper : Value → Prop
  | .number stored => stored.Proper
  | .array items => ProperItems items
  | .object fields => ProperFields fields
  | _ => True

def ProperItems : List Value → Prop
  | [] => True
  | item :: rest => item.Proper ∧ ProperItems rest

def ProperFields : List (String × Value) → Prop
  | [] => True
  | (_, field) :: rest => field.Proper ∧ ProperFields rest

end

/-! Structure. -/

mutual

theorem same_self : ∀ value : Value, value.Proper → value.same value = true
  | .null, _ => rfl
  | .bool value, _ => beq_self_eq_true value
  | .number _, proper => Number.same_self proper
  | .string value, _ => beq_self_eq_true value
  | .array items, proper => sameItems_self items proper
  | .object fields, proper => sameFields_self fields proper

theorem sameItems_self : ∀ items : List Value, ProperItems items → sameItems items items = true
  | [], _ => rfl
  | item :: rest, proper => by
      simp only [sameItems, same_self item proper.1, sameItems_self rest proper.2, Bool.and_self]

theorem sameFields_self : ∀ fields : List (String × Value), ProperFields fields →
    sameFields fields fields = true
  | [], _ => rfl
  | (key, field) :: rest, proper => by
      simp only [sameFields, same_self field proper.1, sameFields_self rest proper.2, beq_self_eq_true,
        Bool.and_self]

end

mutual

theorem same_comm : ∀ first second : Value, first.same second = second.same first
  | .null, second => by cases second <;> rfl
  | .bool _, second => by cases second <;> simp [same, BEq.comm]
  | .number value, second => by cases second <;> simp [same, Number.same_comm value]
  | .string _, second => by cases second <;> simp [same, BEq.comm]
  | .array items, second => by cases second <;> simp [same, sameItems_comm items]
  | .object fields, second => by cases second <;> simp [same, sameFields_comm fields]

theorem sameItems_comm : ∀ first second : List Value, sameItems first second = sameItems second first
  | [], second => by cases second <;> rfl
  | item :: rest, second => by
      cases second <;> simp [sameItems, same_comm item, sameItems_comm rest]

theorem sameFields_comm : ∀ first second : List (String × Value),
    sameFields first second = sameFields second first
  | [], second => by cases second <;> rfl
  | (key, field) :: rest, second => by
      cases second <;> simp [sameFields, same_comm field, sameFields_comm rest, BEq.comm]

end

mutual

theorem same_trans : ∀ first second third : Value, first.same second = true →
    second.same third = true → first.same third = true
  | .null, second, third => by cases second <;> cases third <;> simp [same]
  | .bool _, second, third => by cases second <;> cases third <;> simp_all [same]
  | .number _, second, third => by
      cases second <;> cases third <;> simp only [same, Bool.false_eq_true, false_implies, implies_true]
      exact Number.same_trans
  | .string _, second, third => by cases second <;> cases third <;> simp_all [same]
  | .array items, second, third => by
      cases second <;> cases third <;> simp only [same, Bool.false_eq_true, false_implies, implies_true]
      exact sameItems_trans items _ _
  | .object fields, second, third => by
      cases second <;> cases third <;> simp only [same, Bool.false_eq_true, false_implies, implies_true]
      exact sameFields_trans fields _ _
termination_by structural first => first

theorem sameItems_trans : ∀ first second third : List Value, sameItems first second = true →
    sameItems second third = true → sameItems first third = true
  | [], second, third => by cases second <;> cases third <;> simp [sameItems]
  | item :: rest, second, third => by
      cases second <;> cases third <;>
        simp only [sameItems, Bool.and_eq_true, Bool.false_eq_true, false_implies, implies_true]
      exact fun same next => ⟨same_trans item _ _ same.1 next.1, sameItems_trans rest _ _ same.2 next.2⟩
termination_by structural first => first

theorem sameFields_trans : ∀ first second third : List (String × Value), sameFields first second = true →
    sameFields second third = true → sameFields first third = true
  | [], second, third => by cases second <;> cases third <;> simp [sameFields]
  | (key, field) :: rest, second, third => by
      cases second <;> cases third <;>
        simp only [sameFields, Bool.and_eq_true, Bool.false_eq_true, false_implies, implies_true]
      rintro ⟨⟨key, same⟩, rest⟩ ⟨⟨other, next⟩, others⟩
      refine ⟨⟨?_, same_trans field _ _ same next⟩, sameFields_trans _ _ _ rest others⟩
      exact beq_iff_eq.mpr ((beq_iff_eq.mp key).trans (beq_iff_eq.mp other))
termination_by structural first => first

end

/-! Equality. -/

theorem kind_eq_of_same (same : first.same second = true) : first.kind = second.kind := by
  cases first <;> cases second <;> first | rfl | simp [Value.same] at same

/-- Only numbers are compared in another way than by structure. -/
theorem strictEquals_of_kind (other : first.kind ≠ .number) (second : Value) :
    first.strictEquals second = first.same second := by
  cases first with
  | number => exact absurd rfl other
  | _ => rfl

theorem number_strictEquals_iff {number : Number} : (Value.number number).strictEquals second = true ↔
    ∃ other, second = .number other ∧ number.toBinary.equal other.toBinary = true := by
  cases second <;> simp [strictEquals, same]

theorem strictEquals_self (proper : first.Proper) : first.strictEquals first = true := by
  cases first with
  | number => exact Binary64.equal_self proper
  | _ => exact same_self _ proper

theorem strictEquals_comm (first second : Value) : first.strictEquals second = second.strictEquals first := by
  cases first <;> cases second
  case number.number => exact Binary64.equal_comm _ _
  all_goals exact same_comm _ _

theorem strictEquals_trans (same : first.strictEquals second = true) (next : second.strictEquals third = true) :
    first.strictEquals third = true := by
  by_cases numeric : first.kind = .number
  · obtain ⟨number, rfl⟩ : ∃ number, first = .number number := by cases first <;> simp_all [kind]
    obtain ⟨other, rfl, equal⟩ := number_strictEquals_iff.mp same
    obtain ⟨last, rfl, again⟩ := number_strictEquals_iff.mp next
    exact Binary64.equal_trans equal again
  · rw [strictEquals_of_kind numeric] at same ⊢
    rw [strictEquals_of_kind (kind_eq_of_same same ▸ numeric)] at next
    exact same_trans first second third same next

/-- Two numbers agree when both are there and they are equal. -/
def agree : Option Binary64 → Option Binary64 → Bool
  | some first, some second => first.equal second
  | _, _ => false

theorem agree_comm (first second : Option Binary64) : agree first second = agree second first := by
  cases first <;> cases second <;> first | rfl | exact Binary64.equal_comm _ _

section

variable (present : first ≠ .null ∧ second ≠ .null)

include present

theorem looseEquals_of_collection (either : (first.isCollection || second.isCollection) = true) :
    first.looseEquals second = first.strictEquals second := by
  cases first <;> cases second <;> simp_all [looseEquals, isCollection]

theorem looseEquals_of_convertible (plain : (first.isCollection || second.isCollection) = false)
    (mixed : ¬ (first.isString ∧ second.isString)) :
    first.looseEquals second = agree first.toNumber? second.toNumber? := by
  cases first <;> cases second <;> simp_all [looseEquals, isCollection, isString] <;> rfl

end

theorem looseEquals_comm (first second : Value) : first.looseEquals second = second.looseEquals first := by
  by_cases present : first ≠ .null ∧ second ≠ .null
  · by_cases texts : first.isString ∧ second.isString
    · cases first <;> cases second <;> simp_all [isString, looseEquals, BEq.comm]
    · cases either : first.isCollection || second.isCollection with
      | false =>
          rw [looseEquals_of_convertible present either texts, looseEquals_of_convertible present.symm
            (Bool.or_comm _ _ ▸ either) fun swapped => texts swapped.symm, agree_comm]
      | true =>
          rw [looseEquals_of_collection present either,
            looseEquals_of_collection present.symm (Bool.or_comm _ _ ▸ either), strictEquals_comm]
  · cases first <;> cases second <;> simp_all [looseEquals]

theorem toNumber?_ne_nan {number : Binary64} (proper : first.Proper) (converts : first.toNumber? = some number) :
    number ≠ .nan := by
  rintro rfl
  cases first with
  | null => simp [toNumber?, Binary64.zero] at converts
  | bool value => cases value <;> simp [toNumber?, Binary64.zero, Binary64.one, Binary64.ofInt_ne_nan] at converts
  | number => exact proper (Option.some.inj converts)
  | string text =>
      simp only [toNumber?, textToNumber?] at converts
      split at converts
      · simp [Binary64.zero] at converts
      · exact absurd (Option.filter_eq_some_iff.mp converts).2 (by decide)
  | array | object => simp [toNumber?] at converts

/-- Values that are equal by structure are loosely equal: texts as texts, all others as numbers or by structure. -/
theorem looseEquals_of_strictEquals (same : first.strictEquals second = true) :
    first.looseEquals second = true := by
  cases first with
  | number =>
      obtain ⟨other, rfl, equal⟩ := number_strictEquals_iff.mp same
      exact equal
  | bool value =>
      cases second <;> simp [strictEquals, Value.same] at same
      subst same
      cases value with
      | false => exact Binary64.equal_self (show Binary64.zero ≠ .nan by decide)
      | true => exact Binary64.equal_self (Binary64.ofInt_ne_nan 1)
  | _ => cases second <;> simp_all [strictEquals, Value.same, looseEquals, isCollection]

/-! Order. -/

/-- Two values can be compared if both are texts, or if neither is null and both read as numbers. -/
def Comparable (first second : Value) : Prop :=
  (first.isString ∧ second.isString) ∨
    (first ≠ .null ∧ second ≠ .null) ∧ first.toNumber?.isSome ∧ second.toNumber?.isSome

/-- An operator answers with true. -/
def Holds (operator : BinaryOperator) (first second : Value) : Prop :=
  applyBinary operator first second = .ok (.bool true)

theorem order?_of_convertible (mixed : ¬ (first.isString ∧ second.isString)) {a b : Binary64}
    (left : first.toNumber? = some a) (right : second.toNumber? = some b) :
    first.order? second = a.compare? b := by
  cases first <;> cases second <;> simp_all [order?, isString]

/-- Comparable values stand in one order, which is the opposite one from the other side, and they are equal
when it tells them not apart. -/
theorem exists_order (firstProper : first.Proper) (secondProper : second.Proper)
    (comparable : Comparable first second) :
    ∃ order, first.order? second = some order ∧ second.order? first = some order.swap ∧
      first.looseEquals second = (order == .eq) := by
  by_cases texts : first.isString ∧ second.isString
  · obtain ⟨left, rfl⟩ : ∃ left, first = .string left := by cases first <;> simp_all [isString]
    obtain ⟨right, rfl⟩ : ∃ right, second = .string right := by cases second <;> simp_all [isString]
    refine ⟨compare left right, rfl, congrArg some Std.OrientedCmp.eq_swap, ?_⟩
    apply Bool.eq_iff_iff.mpr
    simp [looseEquals]
  · obtain ⟨present, left, right⟩ := comparable.resolve_left texts
    obtain ⟨a, left⟩ := Option.isSome_iff_exists.mp left
    obtain ⟨b, right⟩ := Option.isSome_iff_exists.mp right
    have plain : (first.isCollection || second.isCollection) = false := by
      cases first <;> cases second <;> simp_all [isCollection, toNumber?]
    obtain ⟨rank, found⟩ := Binary64.exists_rank (toNumber?_ne_nan firstProper left)
    obtain ⟨other, against⟩ := Binary64.exists_rank (toNumber?_ne_nan secondProper right)
    refine ⟨compare rank other, ?_, ?_, ?_⟩
    · rw [order?_of_convertible texts left right, Binary64.compare?_of_rank found against]
    · rw [order?_of_convertible (fun swapped => texts swapped.symm) right left,
        Binary64.compare?_of_rank against found]
      exact congrArg some Std.OrientedCmp.eq_swap
    · rw [looseEquals_of_convertible present plain texts, left, right]
      show a.equal b = _
      unfold Binary64.equal
      rw [Binary64.compare?_of_rank found against]
      rfl

theorem proper_ofBinary {number : Binary64} (computed : ofBinary number = .ok first) : first.Proper := by
  unfold ofBinary at computed
  split at computed
  · obtain rfl := Except.ok.inj computed
    exact Binary64.ofInt_ne_nan _
  · split at computed
    · rename_i finite
      obtain rfl := Except.ok.inj computed
      rintro rfl
      exact absurd finite (by decide)
    · exact nomatch computed

/-- Operators make proper values out of proper values. -/
theorem proper_applyBinary {operator : BinaryOperator} (firstProper : first.Proper) (secondProper : second.Proper)
    (computed : applyBinary operator first second = .ok third) : third.Proper := by
  have arithmetic : ∀ {operator compute}, arithmetic operator compute first second = .ok third → third.Proper := by
    intro operator compute computed
    unfold Value.arithmetic at computed
    split at computed
    · exact proper_ofBinary computed
    · exact nomatch computed
  cases operator with
  | add =>
      unfold applyBinary at computed
      dsimp only at computed
      split at computed
      · obtain rfl := Except.ok.inj computed
        trivial
      · exact arithmetic computed
  | sub | mul | div | rem => exact arithmetic computed
  | and | or =>
      obtain rfl := Except.ok.inj computed
      split <;> assumption
  | _ =>
      obtain rfl := Except.ok.inj computed
      trivial

/-- Strict equality is an equivalence of values. Loose equality is reflexive and symmetric, and weaker. Of two
comparable values exactly one of less, equal and greater holds, and the other two operators agree with them. -/
theorem equality_agrees_with_order :
    Equivalence (fun first second : { value : Value // value.Proper } => first.val.strictEquals second.val = true) ∧
    (∀ first second : Value, (first.Proper → first.looseEquals first = true) ∧
      first.looseEquals second = second.looseEquals first ∧
      (first.strictEquals second = true → first.looseEquals second = true)) ∧
    ∀ first second : Value, first.Proper → second.Proper →
      (∀ operator result, applyBinary operator first second = .ok result → result.Proper) ∧
      (Comparable first second →
        (∀ operator ∈ [BinaryOperator.lt, .le, .gt, .ge, .eq], ∃ answer,
          applyBinary operator first second = .ok (.bool answer)) ∧
        ((Holds .lt first second ∧ ¬ Holds .eq first second ∧ ¬ Holds .gt first second) ∨
          (¬ Holds .lt first second ∧ Holds .eq first second ∧ ¬ Holds .gt first second) ∨
          (¬ Holds .lt first second ∧ ¬ Holds .eq first second ∧ Holds .gt first second)) ∧
        (Holds .le first second ↔ Holds .lt first second ∨ Holds .eq first second) ∧
        (Holds .ge first second ↔ Holds .le second first)) := by
  refine ⟨⟨fun value => strictEquals_self value.property, fun {first second} same => ?_, strictEquals_trans⟩,
    fun first second => ⟨fun proper => looseEquals_of_strictEquals (strictEquals_self proper),
      looseEquals_comm first second, looseEquals_of_strictEquals⟩, ?_⟩
  · exact strictEquals_comm second.val first.val ▸ same
  intro first second firstProper secondProper
  refine ⟨fun operator result => proper_applyBinary firstProper secondProper, fun comparable => ?_⟩
  obtain ⟨order, forth, back, equal⟩ := exists_order firstProper secondProper comparable
  refine ⟨?_, ?_⟩
  · intro operator member
    simp only [List.mem_cons, List.not_mem_nil, or_false] at member
    rcases member with rfl | rfl | rfl | rfl | rfl <;> exact ⟨_, rfl⟩
  · simp only [Holds, applyBinary, forth, back, equal, Option.any_some, Except.ok.injEq, Value.bool.injEq]
    cases order <;> decide

/-- A text with blanks and an exponent is equal to a number, so it is neither less nor greater. -/
theorem text_equals_number :
    let text := Value.string " 1e1 "
    let number := Value.integer 10
    (text.Proper ∧ number.Proper ∧ Comparable text number) ∧ Holds .eq text number ∧
      (¬ Holds .lt text number ∧ ¬ Holds .gt text number) ∧ Holds .le text number ∧
      (Holds .ge text number ↔ Holds .le number text) := by
  intro text number
  have reads : text.toNumber?.isSome = true := by decide +kernel
  have comparable : Comparable text number := Or.inr ⟨⟨nofun, nofun⟩, reads, rfl⟩
  have proper : number.Proper := Binary64.ofInt_ne_nan 10
  have agrees : text.looseEquals number = true := by decide +kernel
  have equal : Holds .eq text number := by
    show Except.ok (Value.bool (text.looseEquals number)) = _
    rw [agrees]
  obtain ⟨-, one, less, greater⟩ := (equality_agrees_with_order.2.2 text number trivial proper).2 comparable
  refine ⟨⟨trivial, proper, comparable⟩, equal, ?_, less.mpr (Or.inr equal), greater⟩
  rcases one with ⟨-, differs, -⟩ | ⟨notLess, -, notGreater⟩ | ⟨-, differs, -⟩
  · exact absurd equal differs
  · exact ⟨notLess, notGreater⟩
  · exact absurd equal differs

end Value

end LiveMarkup
