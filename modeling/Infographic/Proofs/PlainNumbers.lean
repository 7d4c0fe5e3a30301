/-
# Infographic.Proofs.PlainNumbers -- the plain text of a number is a decimal

The text that is written for a finite number is a sign, whole digits that begin with a zero
only where that is all of them, and digits behind a point.  Such a decimal is read from the
front of a text, up to the first character that cannot belong to it.  What is written for a
number that is not finite is no number at all.
-/
import Infographic.Json.Number
import Infographic.Number.Numeral
import Mathlib.Data.List.Basic
import Mathlib.Data.List.TakeWhile

namespace Infographic

set_option autoImplicit false

namespace Number

variable {ds es : List Char}

/-! ## Digits -/

/-- Nothing but digits. -/
def AllDigits (ds : List Char) : Prop := ∀ c ∈ ds, isDigit c = true

theorem allDigits_digitsOf (n : Nat) : AllDigits (digitsOf n) :=
  fun _ member => Nat.isDigit_of_mem_toDigits (by decide) (by decide) member

theorem allDigits_replicate (n : Nat) : AllDigits (List.replicate n '0') := by
  intro c member
  rw [List.eq_of_mem_replicate member]
  decide

theorem AllDigits.append (first : AllDigits ds) (second : AllDigits es) :
    AllDigits (ds ++ es) := fun c member =>
  (List.mem_append.1 member).elim (first c) (second c)

theorem AllDigits.of_subset (all : AllDigits ds) (part : es ⊆ ds) : AllDigits es :=
  fun c member => all c (part member)

theorem digitChar_ne_zero {n : Nat} (small : n < 10) (positive : 0 < n) : n.digitChar ≠ '0' := by
  revert n
  decide

theorem digitsOf_ne_nil (n : Nat) : digitsOf n ≠ [] := Nat.toDigits_ne_nil

theorem head?_digitsOf {n : Nat} (positive : 0 < n) : (digitsOf n).head? ≠ some '0' := by
  induction n using Nat.strongRecOn with
  | ind n ih =>
      rw [digitsOf, Nat.toDigits_eq_if (by decide)]
      split
      · rename_i small
        simpa using digitChar_ne_zero small positive
      · rename_i large
        rw [List.head?_append_of_ne_nil _ Nat.toDigits_ne_nil]
        exact ih (n / 10) (by omega) (by omega)

/-! ## Decimals -/

/-- Whole digits of a decimal: a zero stands in front only by itself. -/
structure IsWhole (ds : List Char) : Prop where
  digits : AllDigits ds
  nonempty : ds ≠ []
  zero : ds.head? = some '0' → ds = ['0']

theorem isWhole_digitsOf (n : Nat) : IsWhole (digitsOf n) := by
  refine ⟨allDigits_digitsOf n, digitsOf_ne_nil n, fun zero => ?_⟩
  rcases Nat.eq_zero_or_pos n with rfl | positive
  · rfl
  · exact absurd zero (head?_digitsOf positive)

/-- Digits that do not begin with a zero. -/
structure IsLeading (ds : List Char) : Prop where
  digits : AllDigits ds
  nonempty : ds ≠ []
  first : ds.head? ≠ some '0'

theorem IsLeading.append (leading : IsLeading ds) (digits : AllDigits es) :
    IsLeading (ds ++ es) :=
  ⟨leading.digits.append digits, by simp [leading.nonempty],
    by rw [List.head?_append_of_ne_nil _ leading.nonempty]; exact leading.first⟩

theorem IsLeading.isWhole (leading : IsLeading ds) : IsWhole ds :=
  ⟨leading.digits, leading.nonempty, fun zero => absurd zero leading.first⟩

theorem IsLeading.take (leading : IsLeading ds) {n : Nat} (positive : 0 < n) :
    IsLeading (ds.take n) := by
  refine ⟨leading.digits.of_subset (List.take_subset n ds), ?_, ?_⟩
  · simp [leading.nonempty, Nat.ne_of_gt positive]
  · rw [List.head?_take, if_neg (Nat.ne_of_gt positive)]
    exact leading.first

theorem stripZeros_initial (ds : List Char) : stripZeros ds <+: ds := by
  refine ⟨(ds.reverse.takeWhile (· == '0')).reverse, ?_⟩
  rw [stripZeros, ← List.reverse_append, List.takeWhile_append_dropWhile, List.reverse_reverse]

theorem IsLeading.stripZeros (leading : IsLeading ds) : IsLeading (stripZeros ds) := by
  have nonempty : Number.stripZeros ds ≠ [] := by
    intro empty
    rw [Number.stripZeros, List.reverse_eq_nil_iff, List.dropWhile_eq_nil_iff] at empty
    obtain ⟨c, rest, rfl⟩ := List.exists_cons_of_ne_nil leading.nonempty
    have zero : c = '0' := by simpa using empty c (by simp)
    exact leading.first (by simp [zero])
  obtain ⟨rest, whole⟩ := stripZeros_initial ds
  refine ⟨leading.digits.of_subset (stripZeros_initial ds).subset, nonempty, fun zero => ?_⟩
  refine leading.first ?_
  rw [← whole, List.head?_append_of_ne_nil _ nonempty]
  exact zero

/-- A decimal as it is written: a sign, whole digits, and digits behind a point. -/
structure Decimal where
  negative : Bool
  whole : List Char
  fraction : List Char

namespace Decimal

def magnitude (n : Decimal) : List Char :=
  n.whole ++ if n.fraction.isEmpty then [] else '.' :: n.fraction

def text (n : Decimal) : List Char :=
  if n.negative then '-' :: n.magnitude else n.magnitude

/-- Nothing but digits, with no superfluous zeros in front. -/
structure Proper (n : Decimal) : Prop where
  whole : IsWhole n.whole
  fraction : AllDigits n.fraction

end Decimal

/-! ## The plain text of a number -/

/-- A grid point in the rounding interval of a positive number is positive. -/
theorem pos_of_holds {d : Dyadic} (positive : 0 < d.mantissa) {k : Nat} {e : Int}
    (inside : (Basin.of d).holds k e = true) : 0 < k := by
  rcases Nat.eq_zero_or_pos k with rfl | found
  · have low : 0 < (Basin.of d).low := by
      simp only [Basin.of]
      split <;> exact Nat.mul_pos (by omega) (Nat.two_pow_pos _)
    have below : 0 < (Basin.of d).low * Nat.pow 10 (-e).toNat :=
      Nat.mul_pos low (Nat.pow_pos (by decide))
    have none (up : Nat) : 0 * up * (Basin.of d).den = 0 := by rw [Nat.zero_mul, Nat.zero_mul]
    simp only [Basin.holds, none] at inside
    split at inside <;> simp only [Bool.and_eq_true, decide_eq_true_eq] at inside <;> omega
  · exact found

theorem holds_of_nearest {b : Basin} {e : Int} {k : Nat} (found : b.nearest e = some k) :
    b.holds k e = true := by
  unfold Basin.nearest at found
  dsimp only at found
  split at found
  · cases found
    split <;> assumption
  · cases found
    assumption
  · cases found
    assumption
  · cases found

theorem holds_of_search {b : Basin} {point : Int} {fuel count : Nat} {found : Nat × Int}
    (search : b.search point fuel count = some found) : b.holds found.1 found.2 = true := by
  induction fuel generalizing count with
  | zero => cases search
  | succ fuel ih =>
      rw [Basin.search] at search
      split at search
      · rename_i k nearest
        cases search
        exact holds_of_nearest nearest
      · exact ih search

/-- The shortest digits of a positive number do not begin with a zero, unless none were
found. -/
theorem shortest_cases {d : Dyadic} (positive : 0 < d.mantissa) :
    IsLeading (shortest d).digits ∨ shortest d = ⟨['0'], 1⟩ := by
  rw [shortest]
  split
  · rename_i k e search
    have found := pos_of_holds positive (holds_of_search search)
    exact .inl (IsLeading.stripZeros
      ⟨allDigits_digitsOf k, digitsOf_ne_nil k, head?_digitsOf found⟩)
  · exact .inr rfl

theorem positional_eq_magnitude {d : Digits} (leading : IsLeading d.digits ∨ d = ⟨['0'], 1⟩) :
    ∃ n : Decimal, n.Proper ∧ d.positional = n.magnitude := by
  rcases leading with leading | rfl
  · unfold Digits.positional
    dsimp only
    split
    · refine ⟨⟨false, ['0'], List.replicate (-d.point).toNat '0' ++ d.digits⟩,
        ⟨isWhole_digitsOf 0, (allDigits_replicate _).append leading.digits⟩, ?_⟩
      simp [Decimal.magnitude, leading.nonempty]
    · rename_i positive
      split
      · rename_i inside
        refine ⟨⟨false, d.digits.take d.point.toNat, d.digits.drop d.point.toNat⟩,
          ⟨(leading.take (by omega)).isWhole,
            leading.digits.of_subset (List.drop_subset _ _)⟩, ?_⟩
        simp [Decimal.magnitude, Nat.not_le_of_lt inside]
      · refine ⟨⟨false, d.digits ++ List.replicate (d.point.toNat - d.digits.length) '0', []⟩,
          ⟨(leading.append (allDigits_replicate _)).isWhole, by simp [AllDigits]⟩, ?_⟩
        simp [Decimal.magnitude]
  · exact ⟨⟨false, ['0'], []⟩, ⟨isWhole_digitsOf 0, by simp [AllDigits]⟩, rfl⟩

/-- The plain text of a finite number is a decimal. -/
theorem plain_eq_text (d : Dyadic) : ∃ n : Decimal, n.Proper ∧ d.plain = n.text := by
  have magnitude : ∃ n : Decimal, n.Proper ∧
      (if d.numerator % d.denominator = 0 ∧ d.numerator / d.denominator < Nat.pow 10 21 then
          digitsOf (d.numerator / d.denominator)
        else (shortest d).positional) = n.magnitude := by
    split
    · exact ⟨⟨false, digitsOf (d.numerator / d.denominator), []⟩,
        ⟨isWhole_digitsOf _, by simp [AllDigits]⟩, by simp [Decimal.magnitude]⟩
    · rename_i fractional
      refine positional_eq_magnitude (shortest_cases ?_)
      rcases Nat.eq_zero_or_pos d.mantissa with zero | positive
      · exact absurd (by simp [Dyadic.numerator, zero]) fractional
      · exact positive
  obtain ⟨n, proper, same⟩ := magnitude
  refine ⟨⟨decide (d.negative ∧ d.mantissa ≠ 0), n.whole, n.fraction⟩,
    ⟨proper.whole, proper.fraction⟩, ?_⟩
  simp only [Dyadic.plain, same, Decimal.text, Decimal.magnitude, decide_eq_true_eq]

end Number

namespace Json.Lexeme

open Infographic.Number

/-! ## Reading decimals -/

/-- A text that begins with no character of a number. -/
def Stops (rest : List Char) : Prop :=
  ∀ c ∈ rest.head?, isDigit c = false ∧ c ≠ '.' ∧ c ≠ 'e' ∧ c ≠ 'E'

theorem stops_nil : Stops [] := by
  simp [Stops]

variable {ds rest : List Char}

theorem takeWhile_digits (digits : AllDigits ds)
    (stops : ∀ c ∈ rest.head?, isDigit c = false) :
    (ds ++ rest).takeWhile isDigit = ds ∧ (ds ++ rest).dropWhile isDigit = rest := by
  rw [List.takeWhile_append_of_pos digits, List.dropWhile_append_of_pos digits]
  cases rest with
  | nil => simp
  | cons c rest =>
      have other : isDigit c = false := stops c rfl
      simp [other]

theorem readWhole_append (whole : IsWhole ds) (stops : ∀ c ∈ rest.head?, isDigit c = false) :
    readWhole (ds ++ rest) = some (ds, rest) := by
  obtain ⟨c, more, rfl⟩ := List.exists_cons_of_ne_nil whole.nonempty
  by_cases zero : c = '0'
  · subst zero
    obtain ⟨rfl⟩ : more = [] := by simpa using whole.zero rfl
    cases rest with
    | nil => rfl
    | cons d rest =>
        have other : isDigit d = false := stops d rfl
        simp [readWhole, other]
  · obtain ⟨taken, dropped⟩ := takeWhile_digits whole.digits stops
    rw [List.cons_append] at taken dropped ⊢
    rw [readWhole.eq_3 _ (fun _ h => zero (List.cons.inj h).1)]
    simp [taken, dropped]

/-- Read a number behind its sign. -/
def readBehind (negative : Bool) (unsigned : List Char) : Option (Lexeme × List Char) := do
  let (whole, rest) ← readWhole unsigned
  let (fraction, rest) ← readFraction rest
  let (exponent, rest) ← readExponent rest
  return (⟨negative, whole, fraction, exponent⟩, rest)

theorem read_minus (cs : List Char) : read ('-' :: cs) = readBehind true cs := rfl

theorem read_of_unsigned {cs : List Char} (unsigned : cs.head? ≠ some '-') :
    read cs = readBehind false cs := by
  rw [read.eq_def]
  split
  rename_i sign
  split at sign
  · simp at unsigned
  · cases sign
    rfl

theorem readFraction_append {fraction : List Char} (digits : AllDigits fraction)
    (stops : Stops rest) :
    readFraction ((if fraction.isEmpty then [] else '.' :: fraction) ++ rest) =
      some (if fraction.isEmpty then none else some fraction, rest) := by
  have digit : ∀ c ∈ rest.head?, isDigit c = false := fun c first => (stops c first).1
  split
  · cases rest with
    | nil => rfl
    | cons c rest =>
        obtain ⟨-, point, -, -⟩ := stops c rfl
        rw [List.nil_append, readFraction.eq_2 _ fun _ h => point (List.cons.inj h).1]
  · rename_i nonempty
    obtain ⟨taken, dropped⟩ := takeWhile_digits digits digit
    rw [List.cons_append, readFraction, taken, dropped, if_neg nonempty]

theorem readExponent_of_stops (stops : Stops rest) : readExponent rest = some (none, rest) := by
  cases rest with
  | nil => rfl
  | cons c rest =>
      obtain ⟨-, -, small, capital⟩ := stops c rfl
      rw [readExponent.eq_3 _ (fun _ h => small (List.cons.inj h).1)
        (fun _ h => capital (List.cons.inj h).1)]

theorem readBehind_magnitude {n : Decimal} (proper : n.Proper) (stops : Stops rest)
    (negative : Bool) :
    readBehind negative (n.magnitude ++ rest) =
      some (⟨negative, n.whole, if n.fraction.isEmpty then none else some n.fraction, none⟩,
        rest) := by
  have digit : ∀ c ∈ ((if n.fraction.isEmpty then [] else '.' :: n.fraction) ++ rest).head?,
      isDigit c = false := by
    intro c first
    split at first
    · exact (stops c first).1
    · obtain rfl : '.' = c := by simpa using first
      decide
  rw [readBehind, Decimal.magnitude, List.append_assoc, readWhole_append proper.whole digit]
  simp only [Option.bind_eq_bind, Option.bind_some, readFraction_append proper.fraction stops,
    readExponent_of_stops stops]
  rfl

/-- A decimal is read from the front of a text. -/
theorem read_text {n : Decimal} (proper : n.Proper) (stops : Stops rest) :
    read (n.text ++ rest) =
      some (⟨n.negative, n.whole, if n.fraction.isEmpty then none else some n.fraction, none⟩,
        rest) := by
  rw [Decimal.text]
  split
  · rename_i negative
    rw [List.cons_append, read_minus, readBehind_magnitude proper stops, negative]
  · rename_i positive
    have unsigned : (n.magnitude ++ rest).head? ≠ some '-' := by
      obtain ⟨c, more, whole⟩ := List.exists_cons_of_ne_nil proper.whole.nonempty
      have digit : isDigit c = true := proper.whole.digits c (by simp [whole])
      rw [Decimal.magnitude, whole]
      rintro ⟨⟩
      exact absurd digit (by decide)
    rw [read_of_unsigned unsigned, readBehind_magnitude proper stops,
      Bool.eq_false_iff.2 positive]

/-- The plain text of a number is read from the front of a text as it is read by itself; what
is written for a number that is not finite is refused. -/
theorem read_plain (x : Float) (stops : Stops rest) :
    read (plain x ++ rest) = (read (plain x)).map fun found => (found.1, rest) := by
  rw [plain]
  split
  · rfl
  · split <;> rfl
  · rename_i d _
    obtain ⟨n, proper, written⟩ := plain_eq_text d
    have alone := read_text proper stops_nil
    rw [List.append_nil] at alone
    rw [written, read_text proper stops, alone, Option.map_some]

end Json.Lexeme

end Infographic
