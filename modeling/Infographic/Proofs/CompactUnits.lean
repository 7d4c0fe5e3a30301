/-
# Infographic.Proofs.CompactUnits -- abbreviated numbers and their units

The unit of an abbreviated number is picked by its size and corrected by what the number is rounded
to.  A number of at most a power of ten has no numeral beyond that power (`value_significant_le`), so
a number of less than a thousand units is written with at most a thousand of them, and if it is a
thousand the next unit is taken, whose numeral is at most one (`abbreviate_spec`).  Below the first
unit nothing is corrected: there a number can be rounded up to a thousand and stays without a unit.
-/
import Infographic.Proofs.RoundedNumerals

namespace Infographic

set_option autoImplicit false

namespace NumberFormat

open Number

variable {x : Float}

/-! ## One unit -/

/-- Four powers of a thousand are exact. -/
theorem power_thousand {k : ℕ} (few : k ≤ 4) :
    (power 10.0 (3 * k)).isFinite = true ∧ toRat (power 10.0 (3 * k)) = 10 ^ (3 * k) := by
  have all : ∀ k ≤ 4, (power 10.0 (3 * k)).isFinite = true := by decide +kernel
  have finite := all k few
  exact ⟨finite, (power_ten (by omega) finite).1 (by omega)⟩

/-- A number below a power of a thousand of units. -/
theorem toRat_quotient_le (finite : x.isFinite = true) (nonneg : 0 ≤ toRat x) {k j : ℕ} (few : k ≤ 4)
    (few' : j ≤ 3) (most : toRat x ≤ 10 ^ (3 * k + j)) :
    let y := x / power 10.0 (3 * k)
    y.isFinite = true ∧ 0 ≤ toRat y ∧ toRat y ≤ 10 ^ j := by
  obtain ⟨scale, ten⟩ := power_thousand few
  have above : (0 : ℚ) < 10 ^ (3 * k) := by positivity
  have rounds := rounds_div finite scale nonneg (ten ▸ above)
  rw [ten] at rounds
  have quotient : 0 ≤ toRat x / 10 ^ (3 * k) := div_nonneg nonneg above.le
  have bound : nearest (toRat x / 10 ^ (3 * k)) ≤ 10 ^ j := by
    refine (nearest_mono quotient ?_).trans_eq (nearest_pow_ten (by omega))
    rwa [div_le_iff₀ above, ← pow_add, add_comm]
  have inside : (10 : ℚ) ^ j < 2 ^ 1024 := by
    calc (10 : ℚ) ^ j ≤ 10 ^ 3 := pow_le_pow_right₀ (by norm_num) few'
      _ < 2 ^ 10 := by norm_num
      _ ≤ 2 ^ 1024 := pow_le_pow_right₀ (by norm_num) (by decide)
  obtain ⟨finite', same⟩ := rounds.near (bound.trans_lt inside)
  refine ⟨finite', ?_, ?_⟩
  · rw [same]
    exact nearest_nonneg quotient
  · rw [same]
    exact bound

theorem value_compactNumeral_le (f : NumberFormat) (finite : x.isFinite = true)
    (nonneg : 0 ≤ toRat x) {k : ℕ} (few : k ≤ 21) (most : toRat x ≤ 10 ^ k) :
    (f.compactNumeral x).value ≤ 10 ^ k := by
  unfold compactNumeral
  split
  · exact value_significant_le finite nonneg _ few most
  · split
    · exact value_significant_le finite nonneg _ few most
    · exact value_fixed_le finite nonneg few most

/-! ## Carrying -/

/-- What is less than a thousand by more than half a step is not rounded up to it. -/
theorem nearest_lt_thousand {v : ℚ} (nonneg : 0 ≤ v) (less : v + 2 ^ (-44 : ℤ) < 1000) :
    nearest v < 1000 := by
  rcases nonneg.eq_or_lt with rfl | positive
  · rw [nearest_zero]
    norm_num
  have step := step_pos (-44)
  have fine : grid v ≤ -43 := grid_le positive (by norm_num; linarith) (by norm_num)
  have half : (2 : ℚ) ^ grid v / 2 ≤ 2 ^ (-44 : ℤ) := by
    rw [div_le_iff₀ two_pos, ← zpow_add_one₀ two_ne_zero]
    exact zpow_le_zpow_right₀ (by norm_num) fine
  have near := (abs_le.1 (abs_nearest_sub_le v)).2.trans half
  linarith

/-- Below a thousand there is a largest float. -/
theorem toRat_le_of_lt_thousand {z : Float} (finite : z.isFinite = true)
    (less : |toRat z| < 1000) : |toRat z| ≤ 1000 - 2 ^ (-43 : ℤ) := by
  obtain ⟨d, decoded⟩ := isFinite_iff.1 finite
  have size := abs_toRat decoded
  rw [Dyadic.numerator_div_denominator] at size
  rw [size] at less ⊢
  have step := step_pos (-43)
  rcases Int.lt_or_le d.exponent (-43) with fine | coarse
  · have small : (d.mantissa * 2 ^ d.exponent : ℚ) ≤ 2 ^ 53 * 2 ^ (-44 : ℤ) := by
      refine mul_le_mul ?_ (zpow_le_zpow_right₀ (by norm_num) (by omega)) (step_pos _).le
        (by norm_num)
      exact_mod_cast (mantissa_lt decoded).le
    norm_num at small ⊢
    linarith
  · obtain ⟨j, multiple⟩ := exists_mul_step coarse
    rw [multiple, ← mul_assoc] at less ⊢
    have below : (d.mantissa * j : ℚ) < 1000 * 2 ^ 43 := by
      norm_num at less ⊢
      linarith
    have whole : (d.mantissa * j : ℤ) ≤ 1000 * 2 ^ 43 - 1 := Int.le_sub_one_of_lt (by exact_mod_cast below)
    have cast : (d.mantissa * j : ℚ) ≤ 1000 * 2 ^ 43 - 1 := by exact_mod_cast whole
    have bound := mul_le_mul_of_nonneg_right cast step.le
    norm_num at bound ⊢
    linarith

/-- A rounded numeral below a thousand is not read as a thousand. -/
theorem nearest_roundedNumeral_lt (finite : x.isFinite = true) {places : ℤ}
    (less : (roundedNumeral x places).value < 1000) :
    nearest (roundedNumeral x places).value < 1000 := by
  refine nearest_lt_thousand (Numeral.value_nonneg _) ?_
  obtain ⟨z, finite', -, -, -, value⟩ := value_roundedNumeral finite places
  rw [value] at less ⊢
  generalize places.toNat = p at less
  have above : (0 : ℚ) < 10 ^ p := by positivity
  rw [div_lt_iff₀ above] at less
  rcases Nat.lt_or_ge p 14 with few | many
  · -- few places: the numeral is at least one unit of the last place below
    have whole : halfEven (|toRat z| * 10 ^ p) ≤ 1000 * 10 ^ p - 1 :=
      Int.le_sub_one_of_lt (by exact_mod_cast less)
    have cast : (halfEven (|toRat z| * 10 ^ p) : ℚ) ≤ 1000 * 10 ^ p - 1 := by exact_mod_cast whole
    have unit : (10 : ℚ) ^ p ≤ 10 ^ 13 := pow_le_pow_right₀ (by norm_num) (by omega)
    rw [← lt_sub_iff_add_lt, div_lt_iff₀ above]
    norm_num at *
    linarith
  · -- many places: the number itself is a step of the floats below
    have small : |toRat z| < 1000 := by
      by_contra large
      have most : ((1000 * 10 ^ p : ℤ) : ℚ) ≤ |toRat z| * 10 ^ p := by
        push_cast
        exact mul_le_mul_of_nonneg_right (not_lt.1 large) above.le
      have whole : ((1000 * 10 ^ p : ℤ) : ℚ) ≤ halfEven (|toRat z| * 10 ^ p) :=
        Int.cast_le.2 (le_halfEven most)
      push_cast at whole
      exact absurd less (not_lt.2 whole)
    have bound := toRat_le_of_lt_thousand finite' small
    have near := (abs_le.1 (abs_halfEven_sub_le (|toRat z| * 10 ^ p))).2
    have unit : (10 : ℚ) ^ 14 ≤ 10 ^ p := pow_le_pow_right₀ (by norm_num) many
    have scaled := mul_le_mul_of_nonneg_right bound above.le
    have step : (2 : ℚ) ^ (-43 : ℤ) = 2 * 2 ^ (-44 : ℤ) := by norm_num
    have half : (1 : ℚ) / 2 < 2 ^ (-44 : ℤ) * 10 ^ 14 := by norm_num
    have rest := mul_le_mul_of_nonneg_left unit (step_pos (-44)).le
    rw [← lt_sub_iff_add_lt, div_lt_iff₀ above]
    rw [step] at scaled
    generalize (2 : ℚ) ^ (-44 : ℤ) = s, (10 : ℚ) ^ p = t at scaled half rest near
    linarith

theorem toRat_thousand : (1000.0 : Float).isFinite = true ∧ toRat 1000.0 = 1000 := by
  have value : units (1000.0 : Float).toModel.unpack = 1000 * 2 ^ 1074 := by decide +kernel
  refine ⟨by decide +kernel, ?_⟩
  rw [toRat, rat, value, Int.cast_mul, Int.cast_pow, Int.cast_ofNat, Int.cast_ofNat]
  exact mul_div_cancel_right₀ _ (by positivity)

/-- A compact numeral is the rounded numeral of some places, or zero. -/
theorem compactNumeral_cases (f : NumberFormat) (finite : x.isFinite = true) (nonneg : 0 ≤ toRat x) :
    (f.compactNumeral x).value = 0 ∨
      ∃ places, (f.compactNumeral x).value = (roundedNumeral x places).value := by
  have digits (count : ℕ) : (significant x count).value = 0 ∨
      ∃ places, (significant x count).value = (roundedNumeral x places).value := by
    rcases nonneg.eq_or_lt with zero | positive
    · left
      rw [significant, if_pos ((beq_zero_iff finite nonneg).2 zero.symm)]
      simp [Numeral.value, digitsValue]
    · right
      exact ⟨_, by rw [significant_of_pos finite positive, Numeral.value_trim]⟩
  unfold compactNumeral
  split
  · exact digits _
  · split
    · exact digits _
    · exact .inr ⟨_, Numeral.value_trim _ _⟩

/-- **What carries is a thousand.** -/
theorem carries_iff (f : NumberFormat) {unit : String} (named : unit ≠ "")
    (finite : x.isFinite = true) (nonneg : 0 ≤ toRat x) (most : toRat x ≤ 1000) :
    carries (f.compactNumeral x, unit) = true ↔ (f.compactNumeral x).value = 1000 := by
  have bound := value_compactNumeral_le f finite nonneg (k := 3) (by decide) (by norm_num; exact most)
  have rounds := rounds_toFloat (f.compactNumeral x)
  obtain ⟨finite', thousand⟩ := toRat_thousand
  have exact_thousand := nearest_pow_ten (k := 3) (by decide)
  norm_num at bound exact_thousand
  have inside : nearest (f.compactNumeral x).value < 2 ^ 1024 := by
    refine ((nearest_mono (Numeral.value_nonneg _) bound).trans_eq exact_thousand).trans_lt ?_
    calc (1000 : ℚ) < 2 ^ 10 := by norm_num
      _ ≤ 2 ^ 1024 := pow_le_pow_right₀ (by norm_num) (by decide)
  obtain ⟨finite'', same⟩ := rounds.near inside
  have nonempty : (!unit.isEmpty) = true := by
    rw [Bool.not_eq_true', String.isEmpty_eq_false_iff]
    exact named
  rw [carries, nonempty, Bool.true_and, decide_eq_true_iff, le_iff_toRat finite' finite'', thousand,
    same]
  constructor
  · intro carried
    refine le_antisymm bound (not_lt.1 fun less => absurd carried (not_le.2 ?_))
    rcases f.compactNumeral_cases finite nonneg with none | ⟨places, rounded⟩
    · rw [none, nearest_zero]
      norm_num
    · rw [rounded] at less ⊢
      exact nearest_roundedNumeral_lt finite less
  · intro full
    rw [full, exact_thousand]

/-! ## Picking a unit -/

/-- Four words for the powers of a thousand. -/
structure Named (u : CompactUnits) : Prop where
  thousand : u.thousand ≠ ""
  million : u.million ≠ ""
  billion : u.billion ≠ ""
  trillion : u.trillion ≠ ""

theorem Named.unit {u : CompactUnits} (named : Named u) {level : ℕ} (reached : level ≠ 0) :
    u.unit level ≠ "" := by
  match level with
  | 0 => exact absurd rfl reached
  | 1 => exact named.thousand
  | 2 => exact named.million
  | 3 => exact named.billion
  | _ + 4 => exact named.trillion

theorem magnitudeOf_le (x : Float) : magnitudeOf x ≤ 4 :=
  (List.takeWhile_prefix _).length_le

theorem first_dropped {p : ℕ → Bool} (few : ([1, 2, 3, 4].takeWhile p).length < 4) :
    p (([1, 2, 3, 4].takeWhile p).length + 1) = false := by
  cases first : p 1 <;> cases second : p 2 <;> cases third : p 3 <;> cases fourth : p 4 <;>
    simp [List.takeWhile, first, second, third, fourth] at few ⊢

/-- The next power of a thousand is not reached. -/
theorem toRat_lt_of_magnitudeOf (finite : x.isFinite = true) (few : magnitudeOf x < 4) :
    toRat x < 10 ^ (3 * (magnitudeOf x + 1)) := by
  obtain ⟨scale, ten⟩ := power_thousand (k := magnitudeOf x + 1) (by omega)
  have dropped := first_dropped (p := fun k => decide (power 10.0 (3 * k) ≤ x)) few
  rw [decide_eq_false_iff_not] at dropped
  rw [← ten]
  exact not_le.1 (mt (le_iff_toRat scale finite).2 dropped)

/-- The loop takes a unit, or goes on to the next one. -/
theorem abbreviateFrom_of_lt (f : NumberFormat) {k : ℕ} (few : k < 4) :
    f.abbreviateFrom x (4 - k) =
      if carries (f.atLevel x k) then f.abbreviateFrom x (3 - k) else f.atLevel x k := by
  obtain ⟨left, rfl⟩ : ∃ left, k = 3 - left := ⟨3 - k, by omega⟩
  have count : 4 - (3 - left) = 3 - (3 - left) + 1 := by omega
  have level : 3 - (3 - (3 - left)) = 3 - left := by omega
  rw [count, abbreviateFrom, level]

/-- The loop stops at a unit that does not carry. -/
theorem abbreviateFrom_of_not_carries (f : NumberFormat) {k : ℕ} (few : k < 4)
    (stays : k < 3 → carries (f.atLevel x (k + 1)) = false) :
    f.abbreviateFrom x (3 - k) = f.atLevel x (k + 1) := by
  rcases Nat.lt_or_ge k 3 with low | top
  · have rest : 3 - k = 4 - (k + 1) := by omega
    rw [rest, f.abbreviateFrom_of_lt (by omega), stays low, if_neg Bool.false_ne_true]
  · obtain rfl : k = 3 := by omega
    rfl

section

variable (f : NumberFormat) (named : Named f.locale.units) (finite : x.isFinite = true)
  (nonneg : 0 ≤ toRat x)

include named finite nonneg

/-- A number below a power of a thousand, in units of the power before. -/
theorem carries_atLevel_iff {k j : ℕ} (reached : k ≠ 0) (few : k ≤ 4) (few' : j ≤ 3)
    (most : toRat x ≤ 10 ^ (3 * k + j)) :
    (f.atLevel x k).1.value ≤ 10 ^ j ∧
      (carries (f.atLevel x k) = true ↔ (f.atLevel x k).1.value = 1000) := by
  have word := named.unit reached
  have unit : (f.locale.units.unit k).isEmpty = false := String.isEmpty_eq_false_iff.2 word
  obtain ⟨finite', nonneg', bound⟩ := toRat_quotient_le finite nonneg few few' most
  have thousand : toRat (x / power 10.0 (3 * k)) ≤ 1000 := by
    refine bound.trans ((pow_le_pow_right₀ (by norm_num) few').trans ?_)
    norm_num
  have made : f.atLevel x k =
      (f.compactNumeral (x / power 10.0 (3 * k)), f.locale.units.unit k) := by
    rw [atLevel, unit]
    rfl
  rw [made]
  exact ⟨value_compactNumeral_le f finite' nonneg' (by omega) bound,
    carries_iff f word finite' nonneg' thousand⟩

/-- **The unit that is picked.**  It is the one that the number reaches, or the next one if the
number is rounded up to a thousand units of it. -/
theorem abbreviate_spec :
    ∃ level ≤ 4, f.abbreviate x = f.atLevel x level ∧
      (level = magnitudeOf x ∨ level = magnitudeOf x + 1) ∧
      (level = magnitudeOf x + 1 ↔ magnitudeOf x ≠ 0 ∧ magnitudeOf x ≠ 4 ∧
        (f.atLevel x (magnitudeOf x)).1.value = 1000) ∧
      (level ≠ 0 → level ≠ 4 → (f.abbreviate x).1.value < 1000) ∧
      (level = 0 → (f.abbreviate x).1.value ≤ 1000) ∧
      (level = magnitudeOf x + 1 → (f.abbreviate x).1.value ≤ 1) := by
  have limit := magnitudeOf_le x
  have small := toRat_lt_of_magnitudeOf finite
  rw [abbreviate]
  generalize magnitudeOf x = k at limit small
  rcases limit.eq_or_lt with rfl | few
  · exact ⟨4, le_rfl, rfl, .inl rfl, by omega, fun _ other => absurd rfl other, by omega, by omega⟩
  have below := (small few).le
  by_cases carried : carries (f.atLevel x k) = true
  · have reached : k ≠ 0 := by
      rintro rfl
      exact Bool.false_ne_true carried
    have full := (carries_atLevel_iff f named finite nonneg reached (by omega) (j := 3)
      le_rfl below).2.1 carried
    obtain ⟨one, next⟩ := carries_atLevel_iff f named finite nonneg (k := k + 1) (j := 0)
      (by omega) (by omega) (by decide) below
    rw [pow_zero] at one
    have stays : carries (f.atLevel x (k + 1)) = false := Bool.eq_false_iff.2 fun again => by
      rw [next.1 again] at one
      norm_num at one
    have made : f.abbreviateFrom x (4 - k) = f.atLevel x (k + 1) := by
      rw [f.abbreviateFrom_of_lt few, if_pos carried, f.abbreviateFrom_of_not_carries few fun _ => stays]
    refine ⟨k + 1, few, made, .inr rfl, iff_of_true rfl ⟨reached, few.ne, full⟩, fun _ _ => ?_,
      by omega, fun _ => ?_⟩
    · rw [made]
      linarith
    · rwa [made]
  · have made : f.abbreviateFrom x (4 - k) = f.atLevel x k := by
      rw [f.abbreviateFrom_of_lt few, if_neg carried]
    rw [made]
    refine ⟨k, limit, rfl, .inl rfl, ?_, fun reached _ => ?_, ?_, by omega⟩
    · refine iff_of_false (by omega) fun ⟨reached, _, full⟩ => carried ?_
      exact (carries_atLevel_iff f named finite nonneg reached limit (j := 3) le_rfl below).2.2 full
    · obtain ⟨most, thousand⟩ := carries_atLevel_iff f named finite nonneg reached limit (j := 3)
        le_rfl below
      norm_num at most
      exact lt_of_le_of_ne most (mt thousand.2 carried)
    · rintro rfl
      have most := value_compactNumeral_le f finite nonneg (k := 3) (by decide) below
      norm_num at most
      exact most

end

/-! ## Written numbers -/

/-- The quantity that a format writes: a value, or a hundred times it. -/
def quantity (f : NumberFormat) (value : Float) : Float :=
  if f.style = .percent then value * 100.0 else value

theorem isNaN_quantity (f : NumberFormat) {value : Float} (finite : value.isFinite = true) :
    (f.quantity value).isNaN = false := by
  unfold quantity
  split
  · exact isNaN_mul finite (by decide +kernel)
  · exact isNaN_eq_false_of_isFinite finite

theorem isInf_eq_false (finite : x.isFinite = true) : x.isInf = false := by
  refine Bool.eq_false_iff.2 fun infinite => ?_
  obtain ⟨negative, decoded⟩ := isInf_iff.1 infinite
  obtain ⟨d, decoded'⟩ := isFinite_iff.1 finite
  rw [decoded] at decoded'
  cases decoded'

theorem isInf_of_not_isFinite (number : x.isNaN = false) (infinite : x.isFinite = false) :
    x.isInf = true := by
  change x.toModel.unpack.isNaN = false at number
  change x.toModel.unpack.isFinite = false at infinite
  change x.toModel.unpack.isInf = true
  generalize x.toModel.unpack = u at number infinite
  cases u with
  | notANumber => exact absurd number.symm Bool.false_ne_true
  | infinity sign => rfl
  | zero sign => exact absurd infinite.symm Bool.false_ne_true
  | finite sign m e h => exact absurd infinite.symm Bool.false_ne_true

/-- **Which unit an abbreviated number gets.**  A compact format of a locale with four words for the
powers of a thousand writes a value, or a hundred times it, as the infinity if that is not finite,
and otherwise with the numeral and the unit of some power of a thousand.  This is the one that the
size of the number reaches, or exactly if the numeral there is a thousand, the next one; but no unit
carries into the first one and the largest carries into none.  So the numeral before a unit is below
a thousand unless the unit is the largest, at most one where it carried, and at most a thousand where
there is no unit. -/
theorem compact_units {f : NumberFormat} (compact : f.compact = true)
    (named : Named f.locale.units) {value : Float} (finite : value.isFinite = true) :
    let x := (f.quantity value).abs
    let picked := magnitudeOf x
    ((f.quantity value).isFinite = false →
      f.write value = f.affixed (f.quantity value < 0.0) ['∞']) ∧
    ((f.quantity value).isFinite = true →
      ∃ level ≤ 4, ∃ numeral negative,
        f.write value = f.affixed negative
          (f.localized numeral ++ (f.locale.units.unit level).toList) ∧
        f.atLevel x level = (numeral, f.locale.units.unit level) ∧
        (level = picked ∨ level = picked + 1) ∧
        (level = picked + 1 ↔
          picked ≠ 0 ∧ picked ≠ 4 ∧ (f.atLevel x picked).1.value = 1000) ∧
        (level ≠ 0 → level ≠ 4 → numeral.value < 1000) ∧
        (level = 0 → numeral.value ≤ 1000) ∧
        (level = picked + 1 → numeral.value ≤ 1)) := by
  have number := f.isNaN_quantity finite
  have written : f.write value =
      if (f.quantity value).isNaN then f.affixed false "NaN".toList
      else if (f.quantity value).isInf then f.affixed (f.quantity value < 0.0) ['∞']
      else f.affixed (f.quantity value < 0.0 &&
        (f.body (f.quantity value).abs).any fun c => isDigit c && c != '0')
        (f.body (f.quantity value).abs) := rfl
  rw [number, if_neg Bool.false_ne_true] at written
  dsimp only
  refine ⟨fun infinite => ?_, fun finite => ?_⟩
  · rw [written, isInf_of_not_isFinite number infinite, if_pos rfl]
  · obtain ⟨finite', size⟩ := toRat_abs finite
    obtain ⟨level, few, made, picked, iff, below, most, one⟩ :=
      f.abbreviate_spec named finite' (size ▸ abs_nonneg _)
    have body : f.body (f.quantity value).abs =
        f.localized (f.atLevel (f.quantity value).abs level).1 ++
          (f.locale.units.unit level).toList := by
      rw [NumberFormat.body, compact, if_pos rfl, made]
      rfl
    rw [isInf_eq_false finite, if_neg Bool.false_ne_true, body] at written
    rw [made] at below most one
    exact ⟨level, few, _, _, written, rfl, picked, iff, below, most, one⟩

/-- The compact format of English. -/
def english : NumberFormat :=
  { locale := ⟨⟨"en", ".", ",", .threes⟩, false, "%", ⟨"K", "M", "B", "T"⟩⟩
    style := .decimal, minFraction := none, maxFraction := none, maxSignificant := none
    grouped := true, compact := true }

theorem named_english : Named english.locale.units := by
  constructor <;> decide

/-- The theorem at a number that carries into the second unit. -/
theorem compact_units_million :
    english.compact = true ∧ Named english.locale.units ∧ (999999.0 : Float).isFinite = true ∧
      (∃ level ≤ 4, ∃ numeral negative,
        english.write 999999.0 = english.affixed negative
          (english.localized numeral ++ (english.locale.units.unit level).toList) ∧
        (level ≠ 0 → level ≠ 4 → numeral.value < 1000)) ∧
      english.write 999999.0 = "1M".toList := by
  have finite : (999999.0 : Float).isFinite = true := by decide +kernel
  obtain ⟨level, few, numeral, negative, written, -, -, -, below, -⟩ :=
    (compact_units (f := english) rfl named_english finite).2 (by decide +kernel)
  exact ⟨rfl, named_english, finite, ⟨level, few, numeral, negative, written, below⟩,
    by decide +kernel⟩

/-- Without a unit a number can be rounded up to a thousand. -/
theorem not_compact_units :
    ¬ ∀ (f : NumberFormat) (value : Float), f.compact = true → Named f.locale.units →
      value.isFinite = true → (f.quantity value).isFinite = true →
        let written := f.abbreviate (f.quantity value).abs
        written.1.value < 1000 ∨ written.2 = f.locale.units.trillion := by
  intro all
  have written : english.abbreviate (english.quantity 999.6).abs =
      (⟨['1', '0', '0', '0'], []⟩, "") := by decide +kernel
  have stated := all english 999.6 rfl named_english (by decide +kernel) (by decide +kernel)
  dsimp only at stated
  have digits : digitsValue ['1', '0', '0', '0'] = 1000 := by decide
  have thousand : (⟨['1', '0', '0', '0'], []⟩ : Numeral).value = 1000 := by
    simp [Numeral.value, digits]
  rw [written, thousand] at stated
  exact stated.elim (lt_irrefl _) (by decide)

end NumberFormat

end Infographic
