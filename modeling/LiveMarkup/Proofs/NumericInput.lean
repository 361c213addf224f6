import LiveMarkup.Proofs.Comparing
import LiveMarkup.Proofs.Fields
import LiveMarkup.Proofs.Numerals

/-
This file shows that numeric inputs read the same numbers as operators do.
-/

namespace LiveMarkup

namespace Binary64

variable {number : Binary64}

theorem equal_finite {first second : Bool} {units other : Nat}
    (same : signedUnits first units = signedUnits second other) :
    (finite first units).equal (finite second other) = true :=
  equal_iff.mpr ⟨_, congrArg some same, rfl⟩

theorem natAbs_signedUnits (negative : Bool) (units : Nat) : (signedUnits negative units).natAbs = units := by
  cases negative <;> simp [signedUnits]

/-- A small integral number is the integer that is left when its fraction is dropped. A zero loses its sign. -/
theorem ofInt_truncate (integral : number.isIntegral = true) (small : number.isBelow (2 ^ 53) = true) :
    (ofInt number.truncate).isFinite = true ∧ (ofInt number.truncate).equal number = true := by
  cases number with
  | nan => exact absurd integral Bool.false_ne_true
  | infinite negative => exact absurd integral Bool.false_ne_true
  | finite negative units =>
      have divides : units % unitsPerOne = 0 := by simpa [isIntegral] using integral
      obtain ⟨whole, rfl⟩ : ∃ whole, whole * unitsPerOne = units :=
        ⟨_, Nat.div_mul_cancel (Nat.dvd_of_mod_eq_zero divides)⟩
      have less : whole < 2 ^ 53 := Nat.lt_of_mul_lt_mul_right ((isBelow_iff negative _ _).mp small)
      have dropped : (finite negative (whole * unitsPerOne)).truncate = signedUnits negative whole := by
        unfold truncate
        dsimp only
        rw [Nat.mul_div_cancel whole unitsPerOne_pos]
      have size := natAbs_signedUnits negative whole
      have exact : nearestWhole whole = whole := nearestWhole_of_isWhole (isWhole_of_le (Nat.le_of_lt less))
      have rounded : ofInt (signedUnits negative whole) =
          finite (signedUnits negative whole < 0) (whole * unitsPerOne) := by
        rw [ofInt_of_le (by rw [size, exact]; omega), size, exact]
      rw [dropped, rounded]
      refine ⟨rfl, equal_finite ?_⟩
      have none : whole = 0 → whole * unitsPerOne = 0 := fun zero => by rw [zero, Nat.zero_mul]
      generalize whole * unitsPerOne = units at none
      cases negative with
      | false => simp [signedUnits]
      | true =>
          rcases Nat.eq_zero_or_pos whole with zero | positive
          · rw [none zero]
            simp [signedUnits]
          · simp [signedUnits, positive]

end Binary64

namespace Value

variable {number : Binary64} {raw : String}

/-- Every finite number becomes a value, which is a finite number again and equal to it. -/
theorem exists_ofBinary (finite : number.isFinite = true) :
    ∃ held : Number, ofBinary number = .ok (.number held) ∧ held.toBinary.isFinite = true ∧
      held.toBinary.equal number = true := by
  unfold ofBinary
  by_cases small : number.isIntegral ∧ number.isBelow (9 * powerOfTen 15)
  · have below : number.isBelow (2 ^ 53) = true := by
      cases number with
      | nan => exact small.2
      | infinite negative => exact small.2
      | finite negative units =>
          have less := (Binary64.isBelow_iff negative _ _).mp small.2
          have bound : 9 * powerOfTen 15 ≤ 2 ^ 53 := by decide
          exact (Binary64.isBelow_iff negative _ _).mpr
            (Nat.lt_of_lt_of_le less (Nat.mul_le_mul_right _ bound))
    rw [if_pos small]
    exact ⟨_, rfl, Binary64.ofInt_truncate small.1 below⟩
  · rw [if_neg small, if_pos finite]
    refine ⟨_, rfl, finite, Binary64.equal_self ?_⟩
    rintro rfl
    cases finite

theorem ofBinary_of_not_finite (infinite : number.isFinite = false) :
    ∃ fault, ofBinary number = .error fault := by
  cases number with
  | finite => cases infinite
  | nan | infinite => exact ⟨_, rfl⟩

/-- Text is blank if nothing is left of it when it is trimmed. -/
def Blank (raw : String) : Prop := Text.trim raw.toList = []

instance : DecidablePred Blank := fun raw => inferInstanceAs (Decidable (Text.trim raw.toList = []))

/-- A numeric input takes a text for the number that operators take it for, unless it is blank. -/
theorem ofNumericInput_of_converts (present : ¬ Blank raw) (converts : (Value.string raw).toNumber? = some number) :
    number.isFinite = true ∧ ofBinary number = .ok (ofNumericInput raw) := by
  have visible : (Text.trim raw.toList).isEmpty = false := by simpa [Blank] using present
  simp only [toNumber?, textToNumber?, visible, Bool.false_eq_true, if_false] at converts
  obtain ⟨read, finite⟩ := Option.filter_eq_some_iff.mp converts
  obtain ⟨held, computed, -⟩ := exists_ofBinary finite
  refine ⟨finite, ?_⟩
  simp only [ofNumericInput, visible, read, computed, Option.map_some, Bool.false_eq_true, if_false]

theorem ofNumericInput_of_not_converts (refused : Blank raw ∨ (Value.string raw).toNumber? = none) :
    ofNumericInput raw = .string raw := by
  unfold ofNumericInput
  dsimp only
  split
  · rfl
  · rename_i visible
    have none := refused.resolve_left fun blank => visible (List.isEmpty_iff.mpr blank)
    simp only [toNumber?, textToNumber?, visible, Bool.false_eq_true, if_false] at none
    cases read : Binary64.read? (Text.trim raw.toList) with
    | none => rfl
    | some number =>
        rw [read] at none
        have infinite : number.isFinite = false := by
          by_contra finite
          simp [Option.filter, finite] at none
        obtain ⟨fault, failed⟩ := ofBinary_of_not_finite infinite
        rw [Option.map_some, failed]

/-- A number that a numeric input holds is finite and equal to what was typed. -/
theorem ofNumericInput_cases (raw : String) :
    (∃ number held, ¬ Blank raw ∧ (Value.string raw).toNumber? = some number ∧
      ofBinary number = .ok (ofNumericInput raw) ∧ ofNumericInput raw = .number held ∧
      held.toBinary.isFinite = true ∧ held.toBinary.equal number = true) ∨
    (Blank raw ∨ (Value.string raw).toNumber? = none) ∧ ofNumericInput raw = .string raw := by
  by_cases blank : Blank raw
  · exact Or.inr ⟨Or.inl blank, ofNumericInput_of_not_converts (Or.inl blank)⟩
  · cases converts : (Value.string raw).toNumber? with
    | none => exact Or.inr ⟨Or.inr rfl, ofNumericInput_of_not_converts (Or.inr converts)⟩
    | some number =>
        obtain ⟨finite, computed⟩ := ofNumericInput_of_converts blank converts
        obtain ⟨held, same, bounded, equal⟩ := exists_ofBinary finite
        exact Or.inl ⟨number, held, blank, rfl, computed, Except.ok.inj (computed.symm.trans same), bounded, equal⟩

end Value

/-- A numeric input writes what its text is taken for. -/
theorem Live.storeInput_numeric (run : Runner) (state : TargetId) (key : String) (node : NodeId) (world : World) :
    storeInput run state key true node world =
      whileAlive state (untracked (writeValue run state key (.ofNumericInput (world.forest.value node)))) world := by
  obtain ⟨holds, held⟩ := World.hold_eq (.state state) world
  unfold storeInput whileAlive
  rw [get_bind, get_bind]
  split
  · unfold operation ending
    rw [bind_of_ok held, bind_of_ok held, get_bind]
    rfl
  · rfl

/-- A numeric input takes a text for a number if it is not blank and operators take it for one, and then for the
same number. Otherwise it keeps the text. What it writes is loosely equal to the text and never infinite or nan. -/
theorem numeric_input_reads_as_operators_do :
    (∀ raw : String,
      ((∃ held, Value.ofNumericInput raw = .number held) ↔
        ¬ Value.Blank raw ∧ ∃ number, (Value.string raw).toNumber? = some number) ∧
      (∀ number, ¬ Value.Blank raw → (Value.string raw).toNumber? = some number →
        Value.ofBinary number = .ok (Value.ofNumericInput raw)) ∧
      ((¬ ∃ held, Value.ofNumericInput raw = .number held) → Value.ofNumericInput raw = .string raw) ∧
      (Value.ofNumericInput raw).looseEquals (.string raw) = true ∧
      ∀ held, Value.ofNumericInput raw = .number held → held.toBinary.isFinite = true) ∧
    ∀ run state key node world,
      Live.storeInput run state key true node world =
        Live.whileAlive state (Live.untracked (Live.writeValue run state key
          (.ofNumericInput (world.forest.value node)))) world := by
  refine ⟨fun raw => ?_, Live.storeInput_numeric⟩
  refine ⟨?_, fun number present converts => (Value.ofNumericInput_of_converts present converts).2, ?_⟩
  · constructor
    · rintro ⟨held, same⟩
      rcases Value.ofNumericInput_cases raw with ⟨number, -, present, converts, -⟩ | ⟨-, kept⟩
      · exact ⟨present, number, converts⟩
      · exact absurd (same.symm.trans kept) nofun
    · rintro ⟨present, number, converts⟩
      rcases Value.ofNumericInput_cases raw with ⟨-, held, -, -, -, same, -⟩ | ⟨refused, -⟩
      · exact ⟨held, same⟩
      · exact absurd (converts.symm.trans (refused.resolve_left present)) nofun
  · rcases Value.ofNumericInput_cases raw with ⟨number, held, -, converts, -, same, finite, equal⟩ | ⟨-, kept⟩
    · rw [same]
      refine ⟨fun none => absurd ⟨held, rfl⟩ none, ?_, ?_⟩
      · have present : Value.number held ≠ .null ∧ Value.string raw ≠ .null := ⟨nofun, nofun⟩
        rw [Value.looseEquals_of_convertible present rfl nofun, converts]
        exact equal
      · rintro _ ⟨⟩
        exact finite
    · rw [kept]
      exact ⟨fun _ => rfl, Value.looseEquals_of_strictEquals (Value.strictEquals_self trivial), nofun⟩

/-- A sign, a point and an exponent may stand in the text, and blanks around it. -/
theorem numeric_input_reads_spelling :
    ¬ Value.Blank " +1.5e1 " ∧ (Value.string " +1.5e1 ").toNumber? = some (.ofInt 15) ∧
      Value.ofBinary (.ofInt 15) = .ok (Value.ofNumericInput " +1.5e1 ") := by
  have present : ¬ Value.Blank " +1.5e1 " := by decide
  have converts : (Value.string " +1.5e1 ").toNumber? = some (.ofInt 15) := by decide +kernel
  exact ⟨present, converts, (numeric_input_reads_as_operators_do.1 _).2.1 _ present converts⟩

end LiveMarkup
