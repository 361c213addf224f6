import LiveMarkup.Number.Shortest
import Mathlib.Tactic.Linarith
import Mathlib.Tactic.Ring

/-
This file rounds integers to binary64 numbers, and says which integers round to a given one.
-/

namespace LiveMarkup.Binary64

variable {numerator denominator quotient value whole point : Nat}

/-- An integer is nearest to a quotient. Of two that are equally near it is the even one. -/
structure RoundsTo (numerator denominator quotient : Nat) : Prop where
  low : 2 * (quotient * denominator) ≤ 2 * numerator + denominator
  high : 2 * numerator ≤ 2 * (quotient * denominator) + denominator
  even : 2 * (quotient * denominator) = 2 * numerator + denominator ∨
    2 * numerator = 2 * (quotient * denominator) + denominator → quotient % 2 = 0

theorem roundsTo_roundQuotient (numerator : Nat) (positive : 0 < denominator) :
    RoundsTo numerator denominator (roundQuotient numerator denominator) := by
  have whole := Nat.div_add_mod' numerator denominator
  have less := Nat.mod_lt numerator positive
  unfold roundQuotient
  dsimp only
  generalize numerator / denominator = quotient at whole ⊢
  generalize numerator % denominator = remainder at whole less ⊢
  have next : (quotient + 1) * denominator = quotient * denominator + denominator := Nat.succ_mul _ _
  split
  · constructor <;> omega
  · split
    · constructor <;> omega
    · constructor <;> omega

/-- Only one integer is nearest. -/
theorem RoundsTo.eq (positive : 0 < denominator) (rounds : RoundsTo numerator denominator quotient) :
    roundQuotient numerator denominator = quotient := by
  obtain ⟨low, high, even⟩ := rounds
  have other := roundsTo_roundQuotient numerator positive
  generalize roundQuotient numerator denominator = found at other
  obtain ⟨lowFound, highFound, evenFound⟩ := other
  rcases Nat.lt_trichotomy found quotient with less | same | more
  · have step : (found + 1) * denominator ≤ quotient * denominator := Nat.mul_le_mul_right _ less
    have next : (found + 1) * denominator = found * denominator + denominator := Nat.succ_mul _ _
    have tight : quotient * denominator = (found + 1) * denominator := by omega
    have equal := Nat.eq_of_mul_eq_mul_right positive tight
    omega
  · exact same
  · have step : (quotient + 1) * denominator ≤ found * denominator := Nat.mul_le_mul_right _ more
    have next : (quotient + 1) * denominator = quotient * denominator + denominator := Nat.succ_mul _ _
    have tight : found * denominator = (quotient + 1) * denominator := by omega
    have equal := Nat.eq_of_mul_eq_mul_right positive tight
    omega

theorem roundQuotient_mul (positive : 0 < denominator) (quotient : Nat) :
    roundQuotient (quotient * denominator) denominator = quotient :=
  RoundsTo.eq positive ⟨by omega, by omega, by omega⟩

/-- Common factors do not matter. -/
theorem roundQuotient_mul_mul (numerator : Nat) (positive : 0 < denominator) {factor : Nat} (present : 0 < factor) :
    roundQuotient (numerator * factor) (denominator * factor) = roundQuotient numerator denominator := by
  apply RoundsTo.eq (Nat.mul_pos positive present)
  obtain ⟨low, high, even⟩ := roundsTo_roundQuotient numerator positive
  generalize roundQuotient numerator denominator = quotient at low high even
  have scaled : ∀ {first second : Nat}, first * factor = second * factor ↔ first = second :=
    Nat.mul_left_inj (Nat.pos_iff_ne_zero.mp present)
  constructor
  · calc 2 * (quotient * (denominator * factor)) = 2 * (quotient * denominator) * factor := by ring
      _ ≤ (2 * numerator + denominator) * factor := Nat.mul_le_mul_right _ low
      _ = 2 * (numerator * factor) + denominator * factor := by ring
  · calc 2 * (numerator * factor) = 2 * numerator * factor := by ring
      _ ≤ (2 * (quotient * denominator) + denominator) * factor := Nat.mul_le_mul_right _ high
      _ = 2 * (quotient * (denominator * factor)) + denominator * factor := by ring
  · rintro (tie | tie)
    · refine even (Or.inl (scaled.mp ?_))
      linarith
    · refine even (Or.inr (scaled.mp ?_))
      linarith

/-! Integers are whole counts of units. -/

/-- The last of 53 significant bits of an integer counts for `2 ^ coarseness`. -/
def coarseness (value : Nat) : Nat := value.log2 - 52

/-- This is the integer to which an integer is rounded. -/
def nearestWhole (value : Nat) : Nat :=
  roundQuotient value (2 ^ coarseness value) * 2 ^ coarseness value

theorem powerOfTwo_pos (exponent : Nat) : 0 < powerOfTwo exponent := Nat.two_pow_pos exponent

theorem powerOfTwo_add (first second : Nat) :
    powerOfTwo (first + second) = powerOfTwo first * powerOfTwo second := Nat.pow_add 2 first second

theorem powerOfTwo_le {first second : Nat} (less : first ≤ second) : powerOfTwo first ≤ powerOfTwo second :=
  Nat.pow_le_pow_right (by decide) less

theorem unitsPerOne_pos : 0 < unitsPerOne := powerOfTwo_pos 1074

theorem log2_mul_powerOfTwo (positive : 0 < value) (exponent : Nat) :
    (value * powerOfTwo exponent).log2 = value.log2 + exponent := by
  have present : value ≠ 0 := Nat.pos_iff_ne_zero.mp positive
  have product : value * powerOfTwo exponent ≠ 0 :=
    Nat.mul_ne_zero present (Nat.pos_iff_ne_zero.mp (powerOfTwo_pos exponent))
  obtain ⟨low, high⟩ := (Nat.log2_eq_iff present).mp rfl
  refine (Nat.log2_eq_iff product).mpr ⟨?_, ?_⟩
  · rw [Nat.pow_add]
    exact Nat.mul_le_mul_right _ low
  · rw [Nat.add_right_comm, Nat.pow_add]
    exact Nat.mul_lt_mul_of_pos_right high (powerOfTwo_pos exponent)

theorem spacing_mul_unitsPerOne (positive : 0 < value) :
    spacing (value * unitsPerOne) = value.log2 + 1022 := by
  have large : ¬ value * unitsPerOne < powerOfTwo 53 := by
    have bound : powerOfTwo 53 ≤ unitsPerOne := powerOfTwo_le (by decide)
    exact Nat.not_lt.mpr (Nat.le_trans bound (Nat.le_mul_of_pos_left _ positive))
  rw [spacing, if_neg large, unitsPerOne, log2_mul_powerOfTwo positive]
  rfl

/-- The neighbours of an integer are at a distance that divides one, or that is a power of two. -/
theorem step_cases (positive : 0 < value) :
    (52 ≤ value.log2 ∧ powerOfTwo (spacing (value * unitsPerOne)) = 2 ^ coarseness value * unitsPerOne) ∨
      value.log2 < 52 ∧ coarseness value = 0 ∧
        powerOfTwo (spacing (value * unitsPerOne)) * 2 ^ (52 - value.log2) = unitsPerOne := by
  rw [spacing_mul_unitsPerOne positive]
  unfold coarseness
  rcases Nat.lt_or_ge value.log2 52 with small | large
  · refine Or.inr ⟨small, Nat.sub_eq_zero_of_le (Nat.le_of_lt small), ?_⟩
    calc powerOfTwo (value.log2 + 1022) * 2 ^ (52 - value.log2)
        = powerOfTwo (value.log2 + 1022 + (52 - value.log2)) := (powerOfTwo_add _ _).symm
      _ = unitsPerOne := congrArg powerOfTwo (by omega)
  · refine Or.inl ⟨large, ?_⟩
    calc powerOfTwo (value.log2 + 1022) = powerOfTwo (value.log2 - 52 + 1074) := congrArg powerOfTwo (by omega)
      _ = 2 ^ (value.log2 - 52) * unitsPerOne := powerOfTwo_add _ _

theorem nearestWhole_of_coarseness_eq_zero (fine : coarseness value = 0) : nearestWhole value = value := by
  have exactly := roundQuotient_mul Nat.one_pos value
  rw [Nat.mul_one] at exactly
  rw [nearestWhole, fine, Nat.pow_zero, exactly, Nat.mul_one]

theorem nearestWhole_zero : nearestWhole 0 = 0 := nearestWhole_of_coarseness_eq_zero rfl

/-- An integer is rounded to an integer. -/
theorem roundUnits_mul_unitsPerOne (value : Nat) :
    roundUnits (value * unitsPerOne) 1 = nearestWhole value * unitsPerOne := by
  unfold roundUnits
  dsimp only
  rw [Nat.div_one, Nat.one_mul]
  rcases Nat.eq_zero_or_pos value with rfl | positive
  · have nothing := roundQuotient_mul (powerOfTwo_pos (spacing (0 * unitsPerOne))) 0
    rw [nearestWhole_zero, Nat.zero_mul]
    rw [Nat.zero_mul, Nat.zero_mul] at nothing
    rw [nothing, Nat.zero_mul]
  · rcases step_cases positive with ⟨-, step⟩ | ⟨-, fine, step⟩
    · rw [step, roundQuotient_mul_mul value (Nat.two_pow_pos _) unitsPerOne_pos, nearestWhole, Nat.mul_assoc]
    · rw [nearestWhole_of_coarseness_eq_zero fine]
      generalize powerOfTwo (spacing (value * unitsPerOne)) = size at step
      have present : 0 < size := Nat.pos_of_mul_pos_right (step ▸ unitsPerOne_pos)
      have whole : value * unitsPerOne = value * 2 ^ (52 - value.log2) * size := by
        rw [← step, Nat.mul_comm size, Nat.mul_assoc]
      rw [whole, roundQuotient_mul present]

/-! An integer that is rounded has 53 significant bits. -/

theorem coarseness_eq {exponent : Nat} (low : 2 ^ 52 * 2 ^ exponent ≤ value)
    (high : value < 2 ^ 53 * 2 ^ exponent) : coarseness value = exponent := by
  have positive : 0 < 2 ^ 52 * 2 ^ exponent := Nat.mul_pos (by decide) (Nat.two_pow_pos exponent)
  have bits : value.log2 = 52 + exponent := by
    refine (Nat.log2_eq_iff (Nat.ne_of_gt (Nat.lt_of_lt_of_le positive low))).mpr ⟨?_, ?_⟩
    · rwa [Nat.pow_add]
    · rwa [Nat.add_right_comm, Nat.pow_add]
  rw [coarseness, bits, Nat.add_sub_cancel_left]

theorem nearestWhole_eq {exponent : Nat} (low : 2 ^ 52 * 2 ^ exponent ≤ value)
    (high : value < 2 ^ 53 * 2 ^ exponent) (rounds : RoundsTo value (2 ^ exponent) quotient) :
    nearestWhole value = quotient * 2 ^ exponent := by
  rw [nearestWhole, coarseness_eq low high, rounds.eq (Nat.two_pow_pos exponent)]

/-- An integer that is coarse lies between powers of two. -/
theorem bounds_of_coarse (coarse : coarseness value ≠ 0) :
    2 ^ 52 * 2 ^ coarseness value ≤ value ∧ value < 2 ^ 53 * 2 ^ coarseness value := by
  have bits : value.log2 = 52 + coarseness value := by
    unfold coarseness at coarse ⊢
    omega
  have present : value ≠ 0 := by
    rintro rfl
    exact coarse rfl
  obtain ⟨low, high⟩ := (Nat.log2_eq_iff present).mp bits
  rw [Nat.pow_add] at low
  rw [Nat.add_right_comm, Nat.pow_add] at high
  exact ⟨low, high⟩

theorem bits_bounds (coarse : coarseness value ≠ 0) :
    2 ^ 52 ≤ roundQuotient value (2 ^ coarseness value) ∧
      roundQuotient value (2 ^ coarseness value) ≤ 2 ^ 53 := by
  obtain ⟨low, high⟩ := bounds_of_coarse coarse
  have rounds := roundsTo_roundQuotient value (Nat.two_pow_pos (coarseness value))
  generalize coarseness value = exponent at low high rounds ⊢
  generalize roundQuotient value (2 ^ exponent) = bits at rounds ⊢
  constructor
  · have scaled : 2 ^ 53 * 2 ^ exponent ≤ (2 * bits + 1) * 2 ^ exponent := by linarith [rounds.high]
    have bound := Nat.le_of_mul_le_mul_right scaled (Nat.two_pow_pos exponent)
    omega
  · have scaled : 2 * bits * 2 ^ exponent < (2 ^ 54 + 1) * 2 ^ exponent := by linarith [rounds.low]
    have bound := Nat.lt_of_mul_lt_mul_right scaled
    omega

/-- An integer is fine, or it has 53 bits and as many zeros as it is coarse. -/
def IsWhole (value : Nat) : Prop :=
  coarseness value = 0 ∨ ∃ bits, 2 ^ 52 ≤ bits ∧ bits < 2 ^ 53 ∧ value = bits * 2 ^ coarseness value

theorem isWhole_nearestWhole (value : Nat) : IsWhole (nearestWhole value) := by
  by_cases coarse : coarseness value = 0
  · rw [nearestWhole_of_coarseness_eq_zero coarse]
    exact Or.inl coarse
  · obtain ⟨least, most⟩ := bits_bounds coarse
    unfold nearestWhole
    generalize coarseness value = exponent at least most ⊢
    generalize roundQuotient value (2 ^ exponent) = bits at least most ⊢
    rcases Nat.lt_or_eq_of_le most with less | rfl
    · have same := coarseness_eq (Nat.mul_le_mul_right (2 ^ exponent) least)
        (Nat.mul_lt_mul_of_pos_right less (Nat.two_pow_pos exponent))
      refine Or.inr ⟨bits, least, less, ?_⟩
      rw [same]
    · have carried : 2 ^ 53 * 2 ^ exponent = 2 ^ 52 * 2 ^ (exponent + 1) := by ring
      have same : coarseness (2 ^ 52 * 2 ^ (exponent + 1)) = exponent + 1 :=
        coarseness_eq (Nat.le_refl _) (Nat.mul_lt_mul_of_pos_right (by decide) (Nat.two_pow_pos _))
      refine Or.inr ⟨2 ^ 52, Nat.le_refl _, by decide, ?_⟩
      rw [carried, same]

theorem nearestWhole_of_isWhole (isWhole : IsWhole value) : nearestWhole value = value := by
  by_cases fine : coarseness value = 0
  · exact nearestWhole_of_coarseness_eq_zero fine
  · obtain ⟨bits, -, -, same⟩ := isWhole.resolve_left fine
    have exactly := roundQuotient_mul (Nat.two_pow_pos (coarseness value)) bits
    rw [← same] at exactly
    rw [nearestWhole, exactly, ← same]

/-- An integer of at most 53 bits is not rounded, nor is the next one. -/
theorem isWhole_of_le (small : value ≤ 2 ^ 53) : IsWhole value := by
  rcases Nat.lt_or_eq_of_le small with less | rfl
  · refine Or.inl (Nat.sub_eq_zero_of_le ?_)
    rcases Nat.eq_zero_or_pos value with rfl | positive
    · decide
    · exact Nat.le_of_lt_succ ((Nat.log2_lt (Nat.pos_iff_ne_zero.mp positive)).mpr less)
  · have coarse : coarseness (2 ^ 53) = 1 := coarseness_eq (by decide) (by decide)
    refine Or.inr ⟨2 ^ 52, by decide, by decide, ?_⟩
    rw [coarse]
    rfl

/-- An integer that is rounded at all is larger than `2 ^ 53`, and stays so. -/
theorem le_nearestWhole (coarse : coarseness value ≠ 0) : 2 ^ 53 ≤ nearestWhole value := by
  obtain ⟨least, -⟩ := bits_bounds coarse
  have double : 2 ^ 1 ≤ 2 ^ coarseness value := Nat.pow_le_pow_right (by decide) (Nat.pos_iff_ne_zero.mpr coarse)
  exact Nat.mul_le_mul least double

theorem nearestWhole_le (value exponent : Nat) (bound : value < 2 ^ (53 + exponent)) :
    nearestWhole value ≤ 2 ^ (53 + exponent) := by
  by_cases coarse : coarseness value = 0
  · rw [nearestWhole_of_coarseness_eq_zero coarse]
    exact Nat.le_of_lt bound
  · obtain ⟨-, most⟩ := bits_bounds coarse
    have present : value ≠ 0 := by
      rintro rfl
      exact coarse rfl
    have bits := (Nat.log2_lt present).mpr bound
    have shallow : coarseness value ≤ exponent := by
      unfold coarseness
      omega
    rw [Nat.pow_add]
    exact Nat.mul_le_mul most (Nat.pow_le_pow_right (by decide) shallow)

/-! What lies in a rounding interval is rounded to its middle. -/

/-- The ends of a closed interval belong to it. A point may be counted on a finer scale. -/
def RoundingInterval.Contains (interval : RoundingInterval) (scale point : Nat) : Prop :=
  if interval.closed then interval.low * scale ≤ point ∧ point ≤ interval.high * scale
  else interval.low * scale < point ∧ point < interval.high * scale

instance (interval : RoundingInterval) (scale point : Nat) : Decidable (interval.Contains scale point) :=
  inferInstanceAs (Decidable (if interval.closed then _ else _))

/-- Points of a rounding interval are no more than half a step away, and below a power of two a quarter of it. -/
structure Near (units step point : Nat) : Prop where
  low : 4 * units ≤ point + 2 * step
  high : point ≤ 4 * units + 2 * step
  lowest : units = powerOfTwo 52 * step → 1 < step → 4 * units ≤ point + step
  even : 4 * units = point + 2 * step ∨ point = 4 * units + 2 * step → units / step % 2 = 0

theorem near_of_contains {units : Nat} (contains : (roundingInterval units).Contains 1 point) :
    Near units (powerOfTwo (spacing units)) point := by
  have positive := powerOfTwo_pos (spacing units)
  unfold RoundingInterval.Contains roundingInterval at contains
  simp only [Nat.mul_one] at contains
  generalize powerOfTwo (spacing units) = step at contains positive ⊢
  by_cases lowest : units = powerOfTwo 52 * step ∧ 1 < step
  · rw [if_pos lowest] at contains
    split at contains
    · rename_i closed
      have even := of_decide_eq_true closed
      exact ⟨by omega, by omega, fun _ _ => by omega, fun _ => even⟩
    · exact ⟨by omega, by omega, fun _ _ => by omega, fun _ => by omega⟩
  · rw [if_neg lowest] at contains
    split at contains
    · rename_i closed
      have even := of_decide_eq_true closed
      exact ⟨by omega, by omega, fun bottom large => absurd ⟨bottom, large⟩ lowest, fun _ => even⟩
    · exact ⟨by omega, by omega, fun bottom large => absurd ⟨bottom, large⟩ lowest, fun _ => by omega⟩

theorem contains_of_lt {units step : Nat} (size : powerOfTwo (spacing units) = step) (present : 0 < point)
    (low : 4 * units < point + 2 * step) (high : point < 4 * units + 2 * step)
    (lowest : units = powerOfTwo 52 * step → 4 * units < point + step) :
    (roundingInterval units).Contains 1 point := by
  unfold RoundingInterval.Contains roundingInterval
  simp only [Nat.mul_one, size]
  by_cases bottom : units = powerOfTwo 52 * step ∧ 1 < step
  · rw [if_pos bottom]
    have less := lowest bottom.1
    split
    · omega
    · omega
  · rw [if_neg bottom]
    split
    · omega
    · omega

theorem Near.of_mul {units step factor : Nat} (positive : 0 < factor)
    (near : Near (units * factor) (step * factor) (point * factor)) : Near units step point := by
  have scaled : ∀ {first second : Nat}, first * factor ≤ second * factor → first ≤ second :=
    fun less => Nat.le_of_mul_le_mul_right less positive
  constructor
  · exact scaled (by linarith [near.low])
  · exact scaled (by linarith [near.high])
  · intro bottom large
    have product : 1 < step * factor := Nat.lt_of_lt_of_le large (Nat.le_mul_of_pos_right step positive)
    exact scaled (by linarith [near.lowest (by rw [bottom, Nat.mul_assoc]) product])
  · intro ends
    rw [← Nat.mul_div_mul_right units step positive]
    exact near.even (ends.imp (fun same => by linarith [congrArg (· * factor) same])
      fun same => by linarith [congrArg (· * factor) same])

theorem nearestWhole_of_near {bits exponent : Nat} (least : 2 ^ 52 ≤ bits) (less : bits < 2 ^ 53)
    (coarse : exponent ≠ 0) (near : Near (bits * 2 ^ exponent) (2 ^ exponent) (4 * value)) :
    nearestWhole value = bits * 2 ^ exponent := by
  have present := Nat.two_pow_pos exponent
  by_cases below : bits = 2 ^ 52 ∧ value < bits * 2 ^ exponent
  · -- Below a power of two the neighbours are at half the distance.
    obtain ⟨rfl, under⟩ := below
    obtain ⟨finer, rfl⟩ := Nat.exists_eq_succ_of_ne_zero coarse
    have double : 2 ^ (finer + 1) = 2 * 2 ^ finer := by ring
    have positive := Nat.two_pow_pos finer
    have lowest := near.lowest rfl (by omega)
    rw [double] at lowest under ⊢
    have rounds : RoundsTo value (2 ^ finer) (2 ^ 53) := ⟨by linarith, by linarith, fun _ => rfl⟩
    rw [nearestWhole_eq (by linarith) (by linarith) rounds]
    ring
  · have low : 2 ^ 52 * 2 ^ exponent ≤ value := by
      rcases Nat.lt_or_eq_of_le least with more | same
      · have next : (2 ^ 52 + 1) * 2 ^ exponent ≤ bits * 2 ^ exponent := Nat.mul_le_mul_right _ more
        linarith [near.low]
      · exact same ▸ Nat.not_lt.mp fun under => below ⟨same.symm, under⟩
    have high : value < 2 ^ 53 * 2 ^ exponent := by
      have next : (bits + 1) * 2 ^ exponent ≤ 2 ^ 53 * 2 ^ exponent := Nat.mul_le_mul_right _ less
      linarith [near.high]
    refine nearestWhole_eq low high ⟨by linarith [near.low], by linarith [near.high], fun tie => ?_⟩
    have even := near.even (tie.imp (fun same => by linarith) fun same => by linarith)
    rwa [Nat.mul_div_cancel bits present] at even

/-- An integer in the rounding interval of another one is rounded to it. -/
theorem nearestWhole_of_contains (positive : 0 < whole) (isWhole : IsWhole whole)
    (contains : (roundingInterval (whole * unitsPerOne)).Contains 1 (value * (4 * unitsPerOne))) :
    nearestWhole value = whole := by
  have near := near_of_contains contains
  have shift : value * (4 * unitsPerOne) = 4 * value * unitsPerOne := by ring
  rw [shift] at near
  by_cases fine : coarseness whole = 0
  · have narrow : powerOfTwo (spacing (whole * unitsPerOne)) ≤ unitsPerOne := by
      rcases step_cases positive with ⟨-, step⟩ | ⟨-, -, step⟩
      · rw [step, fine, Nat.pow_zero, Nat.one_mul]
      · exact Nat.le_trans (Nat.le_mul_of_pos_right _ (Nat.two_pow_pos _)) (Nat.le_of_eq step)
    have low : 4 * whole * unitsPerOne ≤ (4 * value + 2) * unitsPerOne := by linarith [near.low]
    have high : 4 * value * unitsPerOne ≤ (4 * whole + 2) * unitsPerOne := by linarith [near.high]
    have equal : value = whole := by
      have first := Nat.le_of_mul_le_mul_right low unitsPerOne_pos
      have second := Nat.le_of_mul_le_mul_right high unitsPerOne_pos
      omega
    rw [equal, nearestWhole_of_coarseness_eq_zero fine]
  · obtain ⟨bits, least, less, same⟩ := isWhole.resolve_left fine
    obtain ⟨-, step⟩ := (step_cases positive).resolve_right fun finer => fine finer.2.1
    rw [step] at near
    have scaled := near.of_mul unitsPerOne_pos
    generalize coarseness whole = exponent at fine same scaled
    subst same
    exact nearestWhole_of_near least less fine scaled

end LiveMarkup.Binary64
