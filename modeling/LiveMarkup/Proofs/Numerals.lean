import LiveMarkup.Proofs.Rounding
import LiveMarkup.Value.Coercion

/-
This file says which digits integers are shown with.
-/

namespace LiveMarkup

namespace Decimal

/-- Zeros at the end of the digits go into the exponent. -/
theorem exists_strip (limit digits exponent : Nat) (positive : 0 < digits) :
    ∃ fewer more : Nat, strip limit ⟨digits, exponent⟩ = ⟨fewer, more⟩ ∧ 0 < fewer ∧
      fewer * 10 ^ more = digits * 10 ^ exponent := by
  induction limit generalizing digits exponent with
  | zero => exact ⟨digits, exponent, rfl, positive, rfl⟩
  | succ limit inductionHypothesis =>
      unfold strip
      split
      · rename_i zero
        have whole : digits / 10 * 10 = digits := Nat.div_mul_cancel (Nat.dvd_of_mod_eq_zero zero.2)
        have rest : 0 < digits / 10 := by omega
        obtain ⟨fewer, more, stripped, present, same⟩ := inductionHypothesis (digits / 10) (exponent + 1) rest
        refine ⟨fewer, more, stripped, present, same.trans ?_⟩
        rw [Nat.pow_succ', ← Nat.mul_assoc, whole]
      · exact ⟨digits, exponent, rfl, positive, rfl⟩

theorem toDigits_mul_pow (digits exponent : Nat) (positive : 0 < digits) :
    Nat.toDigits 10 (digits * 10 ^ exponent) = Nat.toDigits 10 digits ++ zeros exponent := by
  induction exponent with
  | zero => simp [zeros]
  | succ exponent inductionHypothesis =>
      have product : 0 < digits * 10 ^ exponent := Nat.mul_pos positive (Nat.pow_pos (by decide))
      have shifted := Nat.toDigits_append_toDigits (b := 10) (d := 0) (by decide) product (by decide)
      have next : digits * 10 ^ (exponent + 1) = 10 * (digits * 10 ^ exponent) + 0 := by ring
      rw [next, ← shifted, inductionHypothesis, List.append_assoc]
      congr 1
      exact (List.replicate_succ' ..).symm

/-- A decimal without places after the point is written as an integer. -/
theorem positional_natCast (digits exponent : Nat) (positive : 0 < digits) :
    positional ⟨digits, exponent⟩ = Nat.toDigits 10 (digits * 10 ^ exponent) := by
  have nonnegative : (0 : Int) ≤ exponent := Int.natCast_nonneg exponent
  rw [positional, if_pos nonnegative, toDigits_mul_pow digits exponent positive,
    Nat.toString_eq_ofList_toDigits, String.toList_ofList, Int.toNat_natCast]

end Decimal

namespace Binary64

variable {tie : TieRule} {interval : RoundingInterval} {exponent point whole : Nat}

/-- Of two neighbours one is taken if one is inside. -/
theorem choice_cases (tie : TieRule) (inside : Nat → Prop) [DecidablePred inside] (twice centre below above : Nat) :
    let choice := if inside below then
        if inside above then
          if twice < centre then some below
          else if centre < twice then some above
          else match tie with
            | .up => some above
            | .toEven => some (if below % 2 = 0 then below else above)
        else some below
      else if inside above then some above else none
    (∃ point, choice = some point ∧ inside point) ∨ choice = none ∧ ¬ inside below ∧ ¬ inside above := by
  intro choice
  by_cases insideBelow : inside below
  · refine Or.inl ?_
    by_cases insideAbove : inside above
    · have either : choice = some below ∨ choice = some above := by
        simp only [choice, insideBelow, insideAbove, if_true]
        split
        · exact Or.inl rfl
        · split
          · exact Or.inr rfl
          · cases tie with
            | up => exact Or.inr rfl
            | toEven =>
                by_cases even : below % 2 = 0
                · exact Or.inl (congrArg some (if_pos even))
                · exact Or.inr (congrArg some (if_neg even))
      rcases either with taken | taken
      · exact ⟨below, taken, insideBelow⟩
      · exact ⟨above, taken, insideAbove⟩
    · exact ⟨below, by simp [choice, insideBelow, insideAbove], insideBelow⟩
  · by_cases insideAbove : inside above
    · exact Or.inl ⟨above, by simp [choice, insideBelow, insideAbove], insideAbove⟩
    · exact Or.inr ⟨by simp [choice, insideBelow, insideAbove], insideBelow, insideAbove⟩

/-- On a grid of integers a point in the interval is found if one next to the middle is there. -/
theorem gridPoint_cases (tie : TieRule) (interval : RoundingInterval) (exponent : Nat) {grid : Nat}
    (size : grid = 4 * unitsPerOne * powerOfTen exponent) :
    (∃ point, gridPoint tie interval exponent = some point ∧ interval.Contains 1 (point * grid)) ∨
      gridPoint tie interval exponent = none ∧ ¬ interval.Contains 1 (interval.middle / grid * grid) ∧
        ¬ interval.Contains 1 ((interval.middle / grid + 1) * grid) := by
  have one : powerOfTen (-(exponent : Int)).toNat = 1 := by
    have nothing : (-(exponent : Int)).toNat = 0 := by omega
    rw [nothing]
    rfl
  have found : ∀ scale, powerOfTen (-(exponent : Int)).toNat = scale →
      (∃ point, gridPoint tie interval exponent = some point ∧ interval.Contains scale (point * grid)) ∨
        gridPoint tie interval exponent = none ∧
          ¬ interval.Contains scale (interval.middle * scale / grid * grid) ∧
          ¬ interval.Contains scale ((interval.middle * scale / grid + 1) * grid) := by
    rintro _ rfl
    rw [size]
    exact choice_cases tie (fun point => interval.Contains (powerOfTen (-(exponent : Int)).toNat)
      (point * (4 * unitsPerOne * powerOfTen exponent))) _ _ _ _
  simpa only [Nat.mul_one] using found 1 one

/-- A search that comes to a grid with a point ends there or earlier. -/
theorem exists_searchGrids (left past target : Nat) (enough : past < left)
    (found : ∃ point, gridPoint tie interval target = some point) :
    ∃ point exponent : Nat, searchGrids tie interval left ((target + past : Nat) : Int) = ⟨point, exponent⟩ ∧
      gridPoint tie interval exponent = some point := by
  induction past generalizing left with
  | zero =>
      obtain ⟨rest, rfl⟩ := Nat.exists_eq_succ_of_ne_zero (Nat.ne_of_gt enough)
      obtain ⟨point, here⟩ := found
      refine ⟨point, target, ?_, here⟩
      rw [Nat.add_zero, searchGrids, here]
  | succ past inductionHypothesis =>
      have present : left ≠ 0 := Nat.ne_of_gt (Nat.lt_of_le_of_lt (Nat.zero_le _) enough)
      obtain ⟨rest, rfl⟩ := Nat.exists_eq_succ_of_ne_zero present
      unfold searchGrids
      cases here : gridPoint tie interval ((target + (past + 1) : Nat) : Int) with
      | some point => exact ⟨point, target + (past + 1), rfl, here⟩
      | none =>
          have next : ((target + (past + 1) : Nat) : Int) - 1 = ((target + past : Nat) : Int) := by omega
          dsimp only
          rw [next]
          exact inductionHypothesis rest (Nat.lt_of_succ_lt_succ enough)

theorem contains_middle {units : Nat} (positive : 0 < units) :
    (roundingInterval units).Contains 1 (4 * units) := by
  have step := powerOfTwo_pos (spacing units)
  exact contains_of_lt rfl (by omega) (by omega) (by omega) fun _ => by omega

/-- A power of ten is finer than the distance of neighbours with sixteen digits more. -/
theorem exists_finer {target : Nat} (least : 1 ≤ target) (most : target ≤ 3) :
    ∃ exponent, 10 ^ target < 2 ^ exponent ∧ 2 ^ (52 + exponent) < 10 ^ (target + 16) := by
  obtain rfl | rfl | rfl : target = 1 ∨ target = 2 ∨ target = 3 := by omega
  · exact ⟨4, by decide, by decide⟩
  · exact ⟨7, by decide, by decide⟩
  · exact ⟨11, by decide, by decide⟩

/-- On a grid that is finer than the distance of neighbours one of two points is inside. -/
theorem contains_either {grid size : Nat} (positive : 0 < grid) (large : grid ≤ whole)
    (step : powerOfTwo (spacing (whole * unitsPerOne)) = size * unitsPerOne) (fine : grid < size)
    (lowest : whole = 2 ^ 52 * size → 2 * grid < size) :
    (roundingInterval (whole * unitsPerOne)).Contains 1 (whole / grid * (4 * unitsPerOne * grid)) ∨
      (roundingInterval (whole * unitsPerOne)).Contains 1 ((whole / grid + 1) * (4 * unitsPerOne * grid)) := by
  have split := Nat.div_add_mod' whole grid
  have less := Nat.mod_lt whole positive
  have present : 0 < whole / grid := Nat.div_pos large positive
  have units := unitsPerOne_pos
  generalize whole / grid = quotient at split present ⊢
  generalize whole % grid = rest at split less
  have bottom : whole * unitsPerOne = powerOfTwo 52 * (size * unitsPerOne) → whole = 2 ^ 52 * size := by
    intro same
    rw [← Nat.mul_assoc] at same
    exact Nat.eq_of_mul_eq_mul_right units same
  have scaled : ∀ {first second : Nat}, first < second → first * unitsPerOne < second * unitsPerOne :=
    fun less => Nat.mul_lt_mul_of_pos_right less units
  by_cases nearer : 2 * rest ≤ grid
  · refine Or.inl (contains_of_lt step ?_ ?_ ?_ fun same => ?_)
    · exact Nat.mul_pos present (Nat.mul_pos (Nat.mul_pos (by decide) units) positive)
    · have key : 4 * whole < 4 * (quotient * grid) + 2 * size := by omega
      linarith [scaled key]
    · have key : 4 * (quotient * grid) < 4 * whole + 2 * size := by omega
      linarith [scaled key]
    · have key : 4 * whole < 4 * (quotient * grid) + size := by
        have narrow := lowest (bottom same)
        omega
      linarith [scaled key]
  · have next : (quotient + 1) * grid = quotient * grid + grid := Nat.succ_mul _ _
    refine Or.inr (contains_of_lt step ?_ ?_ ?_ fun same => ?_)
    · exact Nat.mul_pos (Nat.succ_pos _) (Nat.mul_pos (Nat.mul_pos (by decide) units) positive)
    · have key : 4 * whole < 4 * ((quotient + 1) * grid) + 2 * size := by omega
      linarith [scaled key]
    · have key : 4 * ((quotient + 1) * grid) < 4 * whole + 2 * size := by omega
      linarith [scaled key]
    · have key : 4 * whole < 4 * ((quotient + 1) * grid) + size := by omega
      linarith [scaled key]

theorem middle_div_grid (whole grid : Nat) :
    (roundingInterval (whole * unitsPerOne)).middle / (4 * unitsPerOne * grid) = whole / grid := by
  have middle : (roundingInterval (whole * unitsPerOne)).middle = whole * (4 * unitsPerOne) :=
    Nat.mul_left_comm 4 whole unitsPerOne
  rw [middle, Nat.mul_comm (4 * unitsPerOne) grid]
  exact Nat.mul_div_mul_right _ _ (Nat.mul_pos (by decide) unitsPerOne_pos)

/-- The seventeenth digit of a large integer is always found. -/
theorem exists_gridPoint_of_large {target : Nat} (least : 1 ≤ target) (most : target ≤ 3)
    (large : 10 ^ (target + 16) ≤ whole) :
    ∃ point, gridPoint tie (roundingInterval (whole * unitsPerOne)) target = some point := by
  obtain ⟨exponent, fine, less⟩ := exists_finer least most
  have beyond : 2 ^ (52 + exponent) < whole := Nat.lt_of_lt_of_le less large
  have positive : 0 < whole := Nat.lt_of_le_of_lt (Nat.zero_le _) beyond
  have bits : 52 + exponent ≤ whole.log2 :=
    (Nat.le_log2 (Nat.pos_iff_ne_zero.mp positive)).mpr (Nat.le_of_lt beyond)
  obtain ⟨-, step⟩ := (step_cases positive).resolve_right fun finer => by omega
  have coarse : exponent ≤ coarseness whole := Nat.le_sub_of_add_le (by omega)
  have reach : 10 ^ target ≤ whole :=
    Nat.le_trans (Nat.pow_le_pow_right (by decide) (Nat.le_add_right target 16)) large
  have either := contains_either (Nat.pow_pos (by decide)) reach step
    (Nat.lt_of_lt_of_le fine (Nat.pow_le_pow_right (by decide) coarse)) (by
      intro bottom
      rw [bottom, ← Nat.pow_add] at beyond
      have deeper : exponent + 1 ≤ coarseness whole := by
        have exponents := (Nat.pow_lt_pow_iff_right (by decide : 1 < 2)).mp beyond
        omega
      have double : 2 ^ (exponent + 1) ≤ 2 ^ coarseness whole := Nat.pow_le_pow_right (by decide) deeper
      rw [Nat.pow_succ] at double
      omega)
  rcases gridPoint_cases tie (roundingInterval (whole * unitsPerOne)) target rfl with
    ⟨point, found, -⟩ | ⟨-, below, above⟩
  · exact ⟨point, found⟩
  · rw [middle_div_grid] at below above
    exact (either.elim below above).elim

theorem exists_gridPoint_zero (positive : 0 < whole) :
    ∃ point, gridPoint tie (roundingInterval (whole * unitsPerOne)) ((0 : Nat) : Int) = some point := by
  have units : 4 * (whole * unitsPerOne) = whole * (4 * unitsPerOne * 1) := by ring
  have middle := contains_middle (Nat.mul_pos positive unitsPerOne_pos)
  rcases gridPoint_cases tie (roundingInterval (whole * unitsPerOne)) 0 rfl with
    ⟨point, found, -⟩ | ⟨-, below, -⟩
  · exact ⟨point, found⟩
  · rw [middle_div_grid] at below
    rw [units] at middle
    rw [show powerOfTen 0 = 1 from rfl, Nat.div_one] at below
    exact absurd middle below

theorem decade_mul_unitsPerOne (positive : 0 < whole) :
    decade (whole * unitsPerOne) = ((Nat.toDigits 10 whole).length : Int) := by
  have large : unitsPerOne ≤ whole * unitsPerOne := Nat.le_mul_of_pos_left _ positive
  rw [decade, if_pos large, Nat.mul_div_cancel whole unitsPerOne_pos, Nat.toString_eq_ofList_toDigits,
    String.length_ofList]

/-- The search for the digits of an integer ends on a grid of integers. -/
theorem exists_search (tie : TieRule) (positive : 0 < whole) (bound : whole ≤ 2 ^ 64) :
    ∃ point exponent : Nat, searchGrids tie (roundingInterval (whole * unitsPerOne)) 17
        (decade (whole * unitsPerOne) - 1) = ⟨point, exponent⟩ ∧
      gridPoint tie (roundingInterval (whole * unitsPerOne)) exponent = some point := by
  rw [decade_mul_unitsPerOne positive]
  have nonempty : 0 < (Nat.toDigits 10 whole).length := List.length_pos_iff.mpr Nat.toDigits_ne_nil
  rcases Nat.lt_or_ge 17 (Nat.toDigits 10 whole).length with long | short
  · have most : (Nat.toDigits 10 whole).length ≤ 20 :=
      (Nat.length_toDigits_le_iff (by decide) (by decide)).mpr (Nat.lt_of_le_of_lt bound (by decide))
    have large : 10 ^ ((Nat.toDigits 10 whole).length - 1) ≤ whole := by
      refine Nat.not_lt.mp fun less => ?_
      have fewer := (Nat.length_toDigits_le_iff (by decide) (by omega)).mpr less
      omega
    generalize (Nat.toDigits 10 whole).length = length at long most large
    obtain ⟨target, rfl⟩ := Nat.exists_eq_add_of_lt long
    have start : ((17 + target + 1 : Nat) : Int) - 1 = ((target + 1 + 16 : Nat) : Int) := by omega
    rw [start]
    have shift : 17 + target + 1 - 1 = target + 1 + 16 := by omega
    rw [shift] at large
    exact exists_searchGrids 17 16 (target + 1) (by decide)
      (exists_gridPoint_of_large (Nat.le_add_left 1 target) (by omega) large)
  · have start : ((Nat.toDigits 10 whole).length : Int) - 1 =
        ((0 + ((Nat.toDigits 10 whole).length - 1) : Nat) : Int) := by omega
    rw [start]
    exact exists_searchGrids 17 _ 0 (by omega) (exists_gridPoint_zero positive)

/-- The shortest decimal of an integer is an integer that is rounded to it. -/
theorem exists_shortest (tie : TieRule) (positive : 0 < whole) (isWhole : IsWhole whole) (bound : whole ≤ 2 ^ 64) :
    ∃ digits exponent : Nat, shortest tie (whole * unitsPerOne) = ⟨digits, exponent⟩ ∧ 0 < digits ∧
      nearestWhole (digits * 10 ^ exponent) = whole := by
  obtain ⟨point, exponent, searched, found⟩ := exists_search tie positive bound
  have contains : (roundingInterval (whole * unitsPerOne)).Contains 1
      (point * (4 * unitsPerOne * powerOfTen exponent)) := by
    rcases gridPoint_cases tie (roundingInterval (whole * unitsPerOne)) exponent rfl with
      ⟨other, same, contains⟩ | ⟨nothing, -, -⟩
    · cases found.symm.trans same
      exact contains
    · cases found.symm.trans nothing
  have shift : point * (4 * unitsPerOne * powerOfTen exponent) = point * 10 ^ exponent * (4 * unitsPerOne) := by
    rw [show powerOfTen exponent = 10 ^ exponent from rfl]
    ring
  rw [shift] at contains
  have rounds := nearestWhole_of_contains positive isWhole contains
  have present : 0 < point := by
    refine Nat.pos_iff_ne_zero.mpr fun zero => ?_
    rw [zero, Nat.zero_mul, nearestWhole_zero] at rounds
    exact Nat.ne_of_lt positive rounds
  obtain ⟨digits, more, stripped, nonzero, same⟩ := Decimal.exists_strip 20 point exponent present
  refine ⟨digits, more, ?_, nonzero, ?_⟩
  · rw [shortest, if_neg (Nat.ne_of_gt (Nat.mul_pos positive unitsPerOne_pos)), searched, stripped]
  · rw [same, rounds]

/-! An integer is shown with the digits of an integer. -/

theorem ofInt_of_le {value : Int} (bound : nearestWhole value.natAbs ≤ 2 ^ 64) :
    ofInt value = .finite (value < 0) (nearestWhole value.natAbs * unitsPerOne) := by
  have small : nearestWhole value.natAbs * unitsPerOne < overflowUnits := by
    have large : overflowUnits = powerOfTwo 1024 * unitsPerOne := by
      unfold overflowUnits unitsPerOne
      rw [← powerOfTwo_add]
    have less : 2 ^ 64 < powerOfTwo 65 := by decide
    have less : 2 ^ 64 < powerOfTwo 1024 := Nat.lt_of_lt_of_le less (powerOfTwo_le (by decide))
    rw [large]
    exact Nat.mul_lt_mul_of_pos_right (Nat.lt_of_le_of_lt bound less) unitsPerOne_pos
  unfold ofInt ofUnits
  rw [roundUnits_mul_unitsPerOne]
  exact if_pos small

/-- The text of an integer starts with a minus sign if it is negative. -/
theorem toList_toString (value : Int) :
    (toString value).toList =
      if 0 ≤ value then Nat.toDigits 10 value.natAbs else '-' :: Nat.toDigits 10 value.natAbs := by
  rw [Int.toString_eq_repr, Int.repr_eq_if]
  split
  · rename_i nonnegative
    have same : value.toNat = value.natAbs := by omega
    rw [same, Nat.repr_eq_ofList_toDigits, String.toList_ofList]
  · have same : (-value).toNat = value.natAbs := by omega
    rw [same, Nat.repr_eq_ofList_toDigits, String.toList_append, String.toList_ofList, String.toList_ofList]
    rfl

theorem toString_injective {first second : Int} (same : toString first = toString second) : first = second := by
  have texts := congrArg String.toList same
  rw [toList_toString, toList_toString] at texts
  have digits : ∀ {one other : Nat}, Nat.toDigits 10 one = Nat.toDigits 10 other → one = other := by
    intro one other equal
    rw [← Nat.ofDigitChars_toDigits (b := 10) (n := one) (by decide) (by decide), equal,
      Nat.ofDigitChars_toDigits (by decide) (by decide)]
  have unsigned : ∀ (one : Nat) (rest : List Char), Nat.toDigits 10 one ≠ '-' :: rest := by
    intro one rest equal
    have digit := Nat.isDigit_of_mem_toDigits (by decide) (by decide) (equal ▸ List.mem_cons_self)
    exact absurd digit (by decide)
  split at texts
  · split at texts
    · have equal := digits texts
      omega
    · exact absurd texts (unsigned _ _)
  · split at texts
    · exact absurd texts.symm (unsigned _ _)
    · have equal := digits (List.cons.inj texts).2
      omega

theorem isBelow_iff (negative : Bool) (units bound : Nat) :
    (finite negative units).isBelow bound = true ↔ units < bound * unitsPerOne := by
  simp [isBelow]

theorem display_of_small {negative : Bool} (small : whole < powerOfTen 15) :
    (finite negative (whole * unitsPerOne)).display = toString (signedUnits negative whole) := by
  have integral : (finite negative (whole * unitsPerOne)).isIntegral = true := by simp [isIntegral]
  have below := (isBelow_iff negative _ _).mpr (Nat.mul_lt_mul_of_pos_right small unitsPerOne_pos)
  unfold display
  dsimp only
  rw [if_pos ⟨integral, below⟩]
  unfold truncate
  dsimp only
  rw [Nat.mul_div_cancel whole unitsPerOne_pos]

theorem display_of_large {negative : Bool} {digits : Nat} (large : ¬ whole < powerOfTen 15)
    (decimal : shortest .up (whole * unitsPerOne) = ⟨digits, exponent⟩) (positive : 0 < digits) :
    (finite negative (whole * unitsPerOne)).display =
      toString (signedUnits negative (digits * 10 ^ exponent)) := by
  have above : ¬ ((finite negative (whole * unitsPerOne)).isIntegral ∧
      (finite negative (whole * unitsPerOne)).isBelow (powerOfTen 15)) :=
    fun both => large (Nat.lt_of_mul_lt_mul_right ((isBelow_iff negative _ _).mp both.2))
  have product : 0 < digits * 10 ^ exponent := Nat.mul_pos positive (Nat.pow_pos (by decide))
  apply String.toList_injective
  unfold display
  dsimp only
  rw [if_neg above, decimal, Decimal.positional_natCast digits exponent positive, signed,
    String.toList_ofList, toList_toString]
  generalize digits * 10 ^ exponent = shown at product ⊢
  cases negative with
  | false => simp [signedUnits]
  | true =>
      have less : ¬ shown = 0 := Nat.pos_iff_ne_zero.mp product
      simp [signedUnits, less]

theorem signedUnits_natAbs (value : Int) : signedUnits (value < 0) value.natAbs = value := by
  unfold signedUnits
  split
  · rename_i negative
    have less := of_decide_eq_true negative
    omega
  · rename_i positive
    have more := of_decide_eq_false (Bool.eq_false_iff.mpr positive)
    omega

/-- An integer of the range is shown with the digits of an integer that is rounded like it. -/
theorem exists_display {value : Int} (bound : value.natAbs < 2 ^ 64) :
    ∃ shown : Int, (ofInt value).display = toString shown ∧ ofInt shown = ofInt value ∧
      (value.natAbs < 2 ^ 53 → shown = value) := by
  have limit := nearestWhole_le value.natAbs 11 bound
  have number := ofInt_of_le limit
  have isWhole := isWhole_nearestWhole value.natAbs
  by_cases small : nearestWhole value.natAbs < powerOfTen 15
  · have fine : coarseness value.natAbs = 0 := by
      by_contra coarse
      exact absurd (Nat.lt_of_le_of_lt (le_nearestWhole coarse) small) (by decide)
    refine ⟨value, ?_, rfl, fun _ => rfl⟩
    rw [number, display_of_small small, nearestWhole_of_coarseness_eq_zero fine, signedUnits_natAbs]
  · have positive : 0 < nearestWhole value.natAbs := Nat.lt_of_lt_of_le (by decide) (Nat.not_lt.mp small)
    obtain ⟨digits, exponent, decimal, present, rounds⟩ := exists_shortest .up positive isWhole limit
    have product : 0 < digits * 10 ^ exponent := Nat.mul_pos present (Nat.pow_pos (by decide))
    have shape : (signedUnits (value < 0) (digits * 10 ^ exponent)).natAbs = digits * 10 ^ exponent ∧
        (signedUnits (value < 0) (digits * 10 ^ exponent) < 0 ↔ value < 0) := by
      unfold signedUnits
      generalize digits * 10 ^ exponent = shown at product
      by_cases negative : value < 0
      · simp [negative, product]
      · simp [negative]
    refine ⟨signedUnits (value < 0) (digits * 10 ^ exponent), ?_, ?_, fun less => ?_⟩
    · rw [number, display_of_large small decimal present]
    · rw [number, ofInt_of_le (by rw [shape.1, rounds]; exact limit), shape.1, rounds]
      simp only [shape.2]
    · have fine : coarseness (digits * 10 ^ exponent) = 0 := by
        by_contra coarse
        have more := le_nearestWhole coarse
        rw [rounds, nearestWhole_of_isWhole (isWhole_of_le (Nat.le_of_lt less))] at more
        omega
      rw [nearestWhole_of_coarseness_eq_zero fine,
        nearestWhole_of_isWhole (isWhole_of_le (Nat.le_of_lt less))] at rounds
      rw [rounds, signedUnits_natAbs]

end Binary64

end LiveMarkup
