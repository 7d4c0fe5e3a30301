/-
# Infographic.Proofs.Durations -- hours, minutes and seconds of a duration

A duration is rounded to whole seconds, and its fields are computed exactly: the hours by rounding
a quotient down, minutes and seconds from a remainder with the sign of the duration.  These two ways
of cutting agree, so that the fields give the duration back, exactly if it is not negative or
consists of full hours (`recomposes_iff`).  The fields of any other negative duration are too small
by an hour, and by another minute unless it consists of full minutes (`sum_of_negative`).
`durations_recompose` states this for the texts that are shown.
-/
import Infographic.Proofs.WholeNumbers
import Infographic.Table.DisplayFormat

namespace Infographic.DisplayFormat

set_option autoImplicit false

open Infographic.Number

variable {x : Float} {N h m s : ℤ}

/-! ## Whole seconds -/

theorem toRat_half : (0.5 : Float).isFinite = true ∧ toRat 0.5 = 1 / 2 := by
  have units : units (0.5 : Float).toModel.unpack = 2 ^ 1073 := by decide +kernel
  refine ⟨by decide +kernel, ?_⟩
  rw [toRat, rat, units, div_eq_div_iff (by positivity) two_ne_zero, Int.cast_pow, Int.cast_ofNat,
    one_mul]
  exact (pow_succ _ _).symm

/-- There is no float between the last two whole numbers of 53 binary digits. -/
theorem abs_toRat_le (finite : x.isFinite = true) (small : |toRat x| < 2 ^ 53) :
    |toRat x| ≤ 2 ^ 53 - 1 := by
  obtain ⟨d, decoded⟩ := isFinite_iff.1 finite
  have below (k : ℕ) (less : k < 2 ^ 53) : (k : ℚ) ≤ 2 ^ 53 - 1 := by
    have next : ((k + 1 : ℕ) : ℚ) ≤ (2 ^ 53 : ℕ) := Nat.cast_le.2 less
    push_cast at next
    linarith
  rw [abs_toRat decoded] at small ⊢
  by_cases fraction : d.exponent < 0
  · have numerator : d.numerator = d.mantissa := numerator_of_fraction fraction
    have one : (1 : ℚ) ≤ d.denominator := by
      exact_mod_cast Nat.one_le_iff_ne_zero.2 (Nat.two_pow_pos _).ne'
    exact (div_le_self (Nat.cast_nonneg _) one).trans
      (below _ (numerator ▸ mantissa_lt decoded))
  · have one := (roundMagnitude_of_whole (d := d) .down (by omega)).1
    rw [one, Nat.cast_one, div_one] at small ⊢
    exact below _ (by exact_mod_cast small)

/-- **A duration is rounded to a whole number of seconds beside it.** -/
theorem isInteger_roundSeconds (finite : x.isFinite = true) (small : |toRat x| < 2 ^ 53) :
    ∃ N : ℤ, IsInteger (roundSeconds x) N ∧ |N| ≤ 2 ^ 53 ∧
      ⌊toRat x + 1 / 2⌋ ≤ N ∧ N ≤ ⌈toRat x + 1 / 2⌉ := by
  obtain ⟨finite', half⟩ := toRat_half
  obtain ⟨low, high⟩ := abs_le.1 (abs_toRat_le finite small)
  set v := toRat x + 1 / 2 with sum
  have inside : |v| ≤ 2 ^ 53 := abs_le.2 ⟨by linarith, by linarith⟩
  have least : -2 ^ 53 ≤ ⌊v⌋ := Int.le_floor.2 (by push_cast; linarith)
  have most : ⌈v⌉ ≤ 2 ^ 53 := Int.ceil_le.2 (by push_cast; linarith)
  have order : ⌊v⌋ ≤ ⌈v⌉ := Int.floor_le_ceil v
  obtain ⟨added, value⟩ := toRat_add (x := x) (y := 0.5) finite finite'
    (by rw [half]; exact nearest_lt_of_le inside)
  rw [half, ← sum] at value
  have above : ⌊v⌋ ≤ ⌊toRat (x + 0.5)⌋ := by
    rw [value, Int.le_floor,
      ← nearestSigned_intCast (abs_le.2 ⟨least, order.trans most⟩)]
    exact nearestSigned_mono (Int.floor_le v)
  have below : ⌊toRat (x + 0.5)⌋ ≤ ⌈v⌉ := by
    rw [value, ← Int.floor_intCast (R := ℚ) ⌈v⌉,
      ← nearestSigned_intCast (abs_le.2 ⟨least.trans order, most⟩)]
    exact Int.floor_le_floor (nearestSigned_mono (Int.le_ceil v))
  exact ⟨⌊toRat (x + 0.5)⌋, isInteger_floor added,
    abs_le.2 ⟨least.trans above, below.trans most⟩, above, below⟩

/-! ## Fields -/

theorem isInteger_hour : IsInteger 3600.0 (3600 : ℕ) :=
  .of_units (by decide +kernel) (by decide +kernel)

theorem isInteger_minute : IsInteger 60.0 (60 : ℕ) :=
  .of_units (by decide +kernel) (by decide +kernel)

/-- The hours, minutes and seconds of a whole number of seconds, as they are computed. -/
def fields (N : ℤ) : ℤ × ℤ × ℤ :=
  let rest := N.tmod 3600
  (N / 3600, rest / 60, rest.tmod 60)

/-- **The fields of a clock are computed exactly.** -/
theorem isInteger_clock (seconds : IsInteger (roundSeconds x) N) (small : |N| ≤ 2 ^ 53) :
    IsInteger (clock x).1 (fields N).1 ∧ IsInteger (clock x).2.1 (fields N).2.1 ∧
      IsInteger (clock x).2.2 (fields N).2.2 := by
  have rest := seconds.remainder (k := 3600) (by norm_num) (by norm_num)
  have few : |N.tmod 3600| ≤ 2 ^ 53 := by
    have less := Nat.mod_le N.natAbs (Int.natAbs 3600)
    rw [Int.abs_eq_natAbs] at small ⊢
    rw [Int.natAbs_tmod]
    omega
  have hours := seconds.floor_div (j := 11) small isInteger_hour (by norm_num) (by norm_num)
    (by norm_num)
  have minutes := rest.floor_div (j := 5) few isInteger_minute (by norm_num) (by norm_num)
    (by norm_num)
  exact ⟨hours, minutes, (rest.remainder (k := 60) (by norm_num) (by norm_num)).ceil⟩

/-- The minutes of a duration, hours included, are computed exactly. -/
theorem isInteger_minutes (seconds : IsInteger (roundSeconds x) N) (small : |N| ≤ 2 ^ 53) :
    IsInteger (floor (roundSeconds x / 60.0)) (N / 60) :=
  seconds.floor_div (j := 5) small isInteger_minute (by norm_num) (by norm_num) (by norm_num)

/-- Fields give a number of seconds back, and none of them is out of range. -/
structure Recomposes (N h m s : ℤ) : Prop where
  sum : 3600 * h + 60 * m + s = N
  minutes : 0 ≤ m ∧ m < 60
  seconds : 0 ≤ s ∧ s < 60

theorem fields_of_nonneg (nonneg : 0 ≤ N) :
    fields N = (N / 3600, N % 3600 / 60, N % 3600 % 60) := by
  have rest : 0 ≤ N % 3600 := Int.emod_nonneg N (by norm_num)
  rw [fields, Int.tmod_eq_emod_of_nonneg nonneg, Int.tmod_eq_emod_of_nonneg rest]

theorem fields_of_neg (negative : N < 0) :
    fields N = (N / 3600, -(-N % 3600) / 60, -(-N % 3600 % 60)) := by
  have opposite : N.tmod 3600 = -(-N % 3600) := by
    rw [← Int.tmod_eq_emod_of_nonneg (by omega), Int.neg_tmod, neg_neg]
  have rest : 0 ≤ -N % 3600 := Int.emod_nonneg _ (by norm_num)
  rw [fields, opposite, Int.neg_tmod, Int.tmod_eq_emod_of_nonneg rest]

/-- **The fields give the seconds back exactly if these are not negative or full hours.** -/
theorem recomposes_iff :
    Recomposes N (fields N).1 (fields N).2.1 (fields N).2.2 ↔ 0 ≤ N ∨ 3600 ∣ N := by
  by_cases nonneg : 0 ≤ N
  · rw [fields_of_nonneg nonneg]
    refine iff_of_true ⟨?_, ?_, ?_⟩ (.inl nonneg) <;> dsimp only <;> omega
  · rw [fields_of_neg (by omega)]
    constructor
    · rintro ⟨sum, -, -⟩
      dsimp only at sum
      omega
    · rintro (positive | full)
      · exact absurd positive nonneg
      · refine ⟨?_, ?_, ?_⟩ <;> dsimp only <;> omega

/-- Minutes with hours agree with the fields in the same cases. -/
theorem minutes_iff : N / 60 = 60 * (fields N).1 + (fields N).2.1 ↔ 0 ≤ N ∨ 3600 ∣ N := by
  by_cases nonneg : 0 ≤ N
  · rw [fields_of_nonneg nonneg]
    refine iff_of_true ?_ (.inl nonneg)
    dsimp only
    omega
  · rw [fields_of_neg (by omega)]
    dsimp only
    omega

/-- **The fields of other negative durations miss an hour, and a minute beside it.** -/
theorem sum_of_negative (negative : N < 0) (broken : ¬3600 ∣ N) :
    3600 * (fields N).1 + 60 * (fields N).2.1 + (fields N).2.2 =
        N - 3600 - (if 60 ∣ N then 0 else 60) ∧
      (-60 ≤ (fields N).2.1 ∧ (fields N).2.1 < 0) ∧
      (-60 < (fields N).2.2 ∧ (fields N).2.2 ≤ 0) := by
  rw [fields_of_neg negative]
  dsimp only
  refine ⟨?_, ?_, ?_⟩
  · split <;> omega
  · omega
  · omega

/-! ## Texts -/

/-- A whole number in at least two characters. -/
def shown (N : ℤ) : List Char :=
  List.replicate (2 - (textOfWhole N).length) '0' ++ textOfWhole N

theorem pad2_eq_shown (integer : IsInteger x N) (short : N.natAbs < 10 ^ 21) :
    pad2 x = shown N := by
  rw [pad2, integer.plain short]
  rfl

theorem natAbs_fields_lt (small : |N| ≤ 2 ^ 53) :
    (fields N).1.natAbs < 10 ^ 21 ∧ (fields N).2.1.natAbs < 10 ^ 21 ∧
      (fields N).2.2.natAbs < 10 ^ 21 ∧ (N / 60).natAbs < 10 ^ 21 := by
  obtain ⟨low, high⟩ := abs_le.1 small
  by_cases nonneg : 0 ≤ N
  · rw [fields_of_nonneg nonneg]
    dsimp only
    omega
  · rw [fields_of_neg (by omega)]
    dsimp only
    omega

/-- **Durations.**  Every duration of up to 53 binary digits is rounded to a whole number of
seconds, and its texts show the exact fields of that number: a clock shows hours, minutes and
seconds, or hours and minutes alone, or all minutes with the same seconds.  The fields give the number back, and
all minutes are those of the hours and minutes, if and only if the number is not negative or a
multiple of an hour.  The fields of any other number are an hour too small, and a minute beside it
unless the number is a multiple of a minute. -/
theorem durations_recompose (finite : x.isFinite = true) (small : |toRat x| < 2 ^ 53) :
    ∃ N h m s : ℤ, toRat (roundSeconds x) = N ∧
      (⌊toRat x + 1 / 2⌋ ≤ N ∧ N ≤ ⌈toRat x + 1 / 2⌉) ∧
      (toRat (clock x).1 = h ∧ toRat (clock x).2.1 = m ∧ toRat (clock x).2.2 = s) ∧
      write .time (.number x) =
        String.ofList (shown h ++ ':' :: (shown m ++ ':' :: shown s)) ∧
      write .hoursMinutes (.number x) = String.ofList (shown h ++ ':' :: shown m) ∧
      write .minutesSeconds (.number x) = String.ofList (shown (N / 60) ++ ':' :: shown s) ∧
      (Recomposes N h m s ↔ 0 ≤ N ∨ 3600 ∣ N) ∧
      (N / 60 = 60 * h + m ↔ 0 ≤ N ∨ 3600 ∣ N) ∧
      (N < 0 → ¬3600 ∣ N →
        3600 * h + 60 * m + s = N - 3600 - (if 60 ∣ N then 0 else 60) ∧
        (-60 ≤ m ∧ m < 0) ∧ (-60 < s ∧ s ≤ 0)) := by
  obtain ⟨N, seconds, few, beside⟩ := isInteger_roundSeconds finite small
  obtain ⟨hours, minutes, rest⟩ := isInteger_clock seconds few
  obtain ⟨hoursShort, minutesShort, restShort, totalShort⟩ := natAbs_fields_lt few
  have total := isInteger_minutes seconds few
  have hourText := pad2_eq_shown hours hoursShort
  have minuteText := pad2_eq_shown minutes minutesShort
  have secondText := pad2_eq_shown rest restShort
  refine ⟨N, (fields N).1, (fields N).2.1, (fields N).2.2, seconds.value, beside,
    ⟨hours.value, minutes.value, rest.value⟩, ?_, ?_, ?_, recomposes_iff, minutes_iff,
    sum_of_negative⟩
  · rw [← hourText, ← minuteText, ← secondText]
    rfl
  · rw [← hourText, ← minuteText]
    rfl
  · rw [← pad2_eq_shown total totalShort, ← secondText]
    rfl

/-- The theorem at a duration of an hour, two minutes and five seconds. -/
theorem durations_recompose_hour :
    (3725.0 : Float).isFinite = true ∧ |toRat 3725.0| < 2 ^ 53 ∧
      ∃ h m s : ℤ, Recomposes 3725 h m s ∧ 60 * h + m = 62 ∧
        write .time (.number 3725.0) =
          String.ofList (shown h ++ ':' :: (shown m ++ ':' :: shown s)) ∧
        write .minutesSeconds (.number 3725.0) = String.ofList (shown 62 ++ ':' :: shown s) := by
  have given : IsInteger 3725.0 3725 := .of_units (by decide +kernel) (by decide +kernel)
  have small : |toRat 3725.0| < 2 ^ 53 := by
    rw [given.value]
    norm_num
  obtain ⟨N, h, m, s, seconds, -, -, clock, -, minutes, whole, total, -⟩ :=
    durations_recompose given.finite small
  have same : N = 3725 := by
    have rounded : IsInteger (roundSeconds 3725.0) 3725 :=
      .of_units (by decide +kernel) (by decide +kernel)
    exact_mod_cast seconds.symm.trans rounded.value
  subst same
  have sums := total.2 (.inl (by norm_num))
  exact ⟨given.finite, small, h, m, s, whole.2 (.inl (by norm_num)), sums.symm, clock, minutes⟩

/-- The fields of a negative duration need not give it back: the minutes that are shown for a second
before the start are less than none. -/
theorem durations_recompose_negative :
    ¬∀ x : Float, x.isFinite = true → |toRat x| < 2 ^ 53 →
      ∃ N h m s : ℤ, toRat (roundSeconds x) = N ∧
        (toRat (clock x).1 = h ∧ toRat (clock x).2.1 = m ∧ toRat (clock x).2.2 = s) ∧
        Recomposes N h m s := by
  intro all
  have given : IsInteger (-1.0) (-1) := .of_units (by decide +kernel) (by decide +kernel)
  obtain ⟨N, h, m, s, -, ⟨-, minutes, -⟩, whole⟩ :=
    all (-1.0) given.finite (by rw [given.value]; norm_num)
  have found : IsInteger (clock (-1.0)).2.1 (-1) :=
    .of_units (by decide +kernel) (by decide +kernel)
  have below : m = -1 := by exact_mod_cast minutes.symm.trans found.value
  have range := whole.minutes.1
  omega

end Infographic.DisplayFormat
