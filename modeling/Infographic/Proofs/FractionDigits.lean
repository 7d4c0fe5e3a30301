/-
# Infographic.Proofs.FractionDigits -- fractions with a least and a most number of digits

A number is written with the most fraction digits it may have, and zeros are trimmed from the end
down to the fewest it must have.  Trimming keeps the whole digits and the number, and no numeral for
that number with enough fraction digits is shorter (`Numeral.length_fraction_trim_le_of_value`).
Done on the text it is a loop that steps back over zeros, not beyond a bound that may lie behind the
end of the text, and takes away a point with nothing behind it (`trimText_text`).
-/
import Infographic.Proofs.RoundedNumerals
import Infographic.Proofs.TextPieces

namespace Infographic.Number

set_option autoImplicit false

variable {cs : List Char} {least most keep stop : ℕ} {n m : Numeral} {x : Float}

/-! ## Trimmed numerals -/

theorem stripZeros_nil : stripZeros [] = [] := rfl

theorem stripZeros_concat_zero (ds : List Char) : stripZeros (ds ++ ['0']) = stripZeros ds := by
  rw [stripZeros, List.reverse_concat, List.dropWhile_cons_of_pos (by decide), stripZeros]

theorem stripZeros_concat {c : Char} (nonzero : c ≠ '0') (ds : List Char) :
    stripZeros (ds ++ [c]) = ds ++ [c] := by
  rw [stripZeros, List.reverse_concat, List.dropWhile_cons_of_neg (by simpa using nonzero),
    List.reverse_cons, List.reverse_reverse]

namespace Numeral

theorem fraction_trim_eq (least : ℕ) (n : Numeral) :
    (n.trim least).fraction = n.fraction.take least ++ stripZeros (n.fraction.drop least) := rfl

theorem length_fraction_trim_le (least : ℕ) (n : Numeral) :
    (n.trim least).fraction.length ≤ n.fraction.length := by
  obtain ⟨k, same⟩ := fraction_trim least n
  rw [same, List.length_append]
  exact Nat.le_add_right _ _

/-- The first digits of the fraction stay. -/
theorem le_length_fraction_trim (least : ℕ) (n : Numeral) :
    min least n.fraction.length ≤ (n.trim least).fraction.length := by
  rw [fraction_trim_eq, List.length_append, List.length_take]
  exact Nat.le_add_right _ _

/-- Behind them no zero is at the end. -/
theorem getLast?_fraction_trim (more : least < (n.trim least).fraction.length) :
    (n.trim least).fraction.getLast? ≠ some '0' := by
  have kept : stripZeros (n.fraction.drop least) ≠ [] := fun empty => by
    rw [fraction_trim_eq, empty, List.append_nil, List.length_take] at more
    omega
  rw [fraction_trim_eq, List.getLast?_append_of_ne_nil _ kept]
  exact getLast?_stripZeros _

/-- A digit at the end that is not zero is needed for the number. -/
theorem length_fraction_le_of_value (proper : n.Proper) (same : m.value = n.value)
    (last : n.fraction.getLast? ≠ some '0') : n.fraction.length ≤ m.fraction.length := by
  by_contra fewer
  obtain ⟨init, c, whole⟩ : ∃ init c, n.fraction = init ++ [c] :=
    List.eq_nil_or_concat' n.fraction |>.resolve_left fun empty => by
      rw [empty, List.length_nil] at fewer
      exact fewer (Nat.zero_le _)
  have digit : isDigit c = true := proper.fraction c (by simp [whole])
  have leading : IsLeading [c] := by
    refine ⟨by simpa [AllDigits] using digit, List.cons_ne_nil c [], fun zero => last ?_⟩
    rw [whole, List.getLast?_concat]
    exact zero
  have nonzero : 1 ≤ digitsValue [c] := leading.le_digitsValue
  have few := digitsValue_singleton_le digit
  obtain ⟨k, length⟩ : ∃ k, n.fraction.length = m.fraction.length + (k + 1) :=
    ⟨n.fraction.length - m.fraction.length - 1, by omega⟩
  -- all the digits are those of the shorter numeral with zeros behind them
  have tens : digitsValue (n.whole ++ n.fraction) =
      digitsValue (m.whole ++ m.fraction) * 10 ^ (k + 1) := by
    have places : (10 : ℚ) ^ m.fraction.length ≠ 0 := by positivity
    have places' : (10 : ℚ) ^ n.fraction.length ≠ 0 := by positivity
    rw [value, value, div_eq_div_iff places places', length, pow_add, mul_comm (10 ^ _) (10 ^ _),
      ← mul_assoc] at same
    exact_mod_cast (mul_right_cancel₀ places same).symm
  have split : digitsValue (n.whole ++ n.fraction) =
      digitsValue (n.whole ++ init) * 10 + digitsValue [c] := by
    rw [whole, ← List.append_assoc, digitsValue_append, List.length_singleton, Nat.pow_one]
  rw [split, Nat.pow_succ, ← Nat.mul_assoc] at tens
  omega

/-- **Trimming gives the shortest numeral.**  Of those for the same number, with as many fraction
digits as are to stay, none has fewer of them. -/
theorem length_fraction_trim_le_of_value (proper : n.Proper) (same : m.value = n.value)
    (enough : min least n.fraction.length ≤ m.fraction.length) :
    (n.trim least).fraction.length ≤ m.fraction.length := by
  have most := length_fraction_trim_le least n
  rcases Nat.lt_or_ge least (n.trim least).fraction.length with more | kept
  · exact length_fraction_le_of_value (proper.trim least) (same.trans (value_trim least n).symm)
      (getLast?_fraction_trim more)
  · omega

/-! ## Texts of numerals -/

theorem text_of_ne_nil (fraction : n.fraction ≠ []) : n.text = n.whole ++ '.' :: n.fraction := by
  unfold text
  split
  · rename_i none
    exact absurd none fraction
  · rfl

theorem text_of_eq_nil (none : n.fraction = []) : n.text = n.whole := by
  rw [text, none]

/-- The point stands between the parts of a numeral, if there are two of them. -/
theorem cutWhere_text (proper : n.Proper) :
    Text.cutWhere (· == '.') n.text =
      if n.fraction = [] then none else some (n.whole, n.fraction) := by
  have free : ∀ c ∈ n.whole, (c == '.') = false := fun c member => by
    refine beq_eq_false_iff_ne.2 fun point => ?_
    have digit := proper.whole c member
    rw [point] at digit
    exact absurd digit (by decide)
  split
  · rename_i none
    rw [text_of_eq_nil none]
    exact Text.cutWhere_eq_none_iff.2 free
  · rename_i fraction
    rw [text_of_ne_nil fraction]
    exact Text.cutWhere_append free (by decide)

/-- No point is at the end. -/
theorem getLast?_text (proper : n.Proper) : n.text.getLast? ≠ some '.' := by
  intro dangling
  have point : isDigit '.' ≠ true := by decide
  by_cases fraction : n.fraction = []
  · rw [text_of_eq_nil fraction] at dangling
    exact point (proper.whole _ (List.mem_of_getLast? dangling))
  · rw [text_of_ne_nil fraction, List.getLast?_append_of_ne_nil _ (List.cons_ne_nil _ _),
      List.getLast?_cons_of_ne_nil fraction] at dangling
    exact point (proper.fraction _ (List.mem_of_getLast? dangling))

end Numeral

/-! ## Trimming a text -/

/-- The end of a text when zeros in front of `stop` are dropped one by one, but none of the first
`keep` characters. -/
def stepBack (cs : List Char) (keep : ℕ) : ℕ → ℕ
  | 0 => 0
  | stop + 1 => if keep ≤ stop ∧ cs[stop]? = some '0' then stepBack cs keep stop else stop + 1

/-- Trim the text of a numeral: drop zeros from its end, down to `least` digits behind the point,
and the point too if nothing is left behind it.  A text without a point stays. -/
def trimText (least : ℕ) (cs : List Char) : List Char :=
  match Text.cutWhere (· == '.') cs with
  | none => cs
  | some (whole, _) =>
      let dot := whole.length
      let stop := stepBack cs (dot + 1 + least) cs.length
      cs.take (if stop = dot + 1 then dot else stop)

theorem stepBack_le (cs : List Char) (keep stop : ℕ) : stepBack cs keep stop ≤ stop := by
  induction stop with
  | zero => exact Nat.le_refl 0
  | succ stop ih =>
      rw [stepBack]
      split
      · exact Nat.le_succ_of_le ih
      · exact Nat.le_refl _

/-- Nothing is dropped in front of the bound, and the bound may lie behind the end. -/
theorem stepBack_of_le (cs : List Char) (inside : stop ≤ keep) : stepBack cs keep stop = stop := by
  cases stop with
  | zero => rfl
  | succ stop => rw [stepBack, if_neg fun zero => Nat.not_succ_le_self stop (inside.trans zero.1)]

/-- What stands behind is not looked at. -/
theorem stepBack_append (es : List Char) (inside : stop ≤ cs.length) :
    stepBack (cs ++ es) keep stop = stepBack cs keep stop := by
  induction stop with
  | zero => rfl
  | succ stop ih =>
      rw [stepBack, stepBack, List.getElem?_append_left inside, ih (Nat.le_of_succ_le inside)]

/-- **The loop strips the zeros behind its bound.** -/
theorem take_stepBack (cs : List Char) (keep : ℕ) :
    cs.take (stepBack cs keep cs.length) = cs.take keep ++ stripZeros (cs.drop keep) := by
  -- from the end of the text, as the loop runs: either the last character stays, or the loop goes
  -- on as it would on the text without it
  induction cs using List.reverseRecOn with
  | nil => rw [List.take_nil, List.take_nil, List.drop_nil, stripZeros_nil, List.append_nil]
  | append_singleton init c ih =>
      rcases Nat.lt_or_ge init.length keep with short | long
      · have all : (init ++ [c]).length ≤ keep := by rwa [List.length_append]
        rw [stepBack_of_le _ all, List.take_length, List.take_of_length_le all,
          List.drop_eq_nil_of_le all, stripZeros_nil, List.append_nil]
      · have here : (init ++ [c])[init.length]? = some c := List.getElem?_concat_length
        rw [List.length_append, List.length_singleton, stepBack, here,
          List.take_append_of_le_length long, List.drop_append_of_le_length long]
        by_cases zero : c = '0'
        · rw [if_pos ⟨long, congrArg some zero⟩, stepBack_append _ (Nat.le_refl _),
            List.take_append_of_le_length (stepBack_le _ _ _), ih, zero, stripZeros_concat_zero]
        · rw [if_neg fun stops => zero (Option.some.inj stops.2), stripZeros_concat zero,
            ← List.append_assoc, List.take_append_drop]
          exact List.take_of_length_le (by simp)

/-- The loop on the text of a numeral with a fraction stops where the trimmed fraction does. -/
theorem stepBack_text (least : ℕ) (n : Numeral) :
    let cs := n.whole ++ '.' :: n.fraction
    let stop := stepBack cs (n.whole.length + 1 + least) cs.length
    cs.take stop = n.whole ++ '.' :: (n.trim least).fraction ∧
      stop = n.whole.length + 1 + (n.trim least).fraction.length := by
  intro cs stop
  have kept := take_stepBack cs (n.whole.length + 1 + least)
  have bound : stop ≤ cs.length := stepBack_le cs _ _
  rw [Nat.add_assoc, List.take_length_add_append, List.drop_length_add_append, Nat.add_comm 1 least,
    List.take_succ_cons, List.drop_succ_cons, List.append_assoc, List.cons_append,
    ← Numeral.fraction_trim_eq, Nat.add_comm least 1, ← Nat.add_assoc] at kept
  have length := congrArg List.length kept
  rw [List.length_take, Nat.min_eq_left bound, List.length_append, List.length_cons] at length
  exact ⟨kept, by omega⟩

/-- **The loop on the text of a numeral trims the numeral.** -/
theorem trimText_text (proper : n.Proper) (least : ℕ) :
    trimText least n.text = (n.trim least).text := by
  rw [trimText, Numeral.cutWhere_text proper]
  by_cases none : n.fraction = []
  · have trimmed : (n.trim least).fraction = [] := by
      rw [Numeral.fraction_trim_eq, none, List.take_nil, List.drop_nil, stripZeros_nil,
        List.append_nil]
    rw [if_pos none, Numeral.text_of_eq_nil none, Numeral.text_of_eq_nil trimmed]
    rfl
  · obtain ⟨kept, stop⟩ := stepBack_text least n
    rw [if_neg none, Numeral.text_of_ne_nil none]
    dsimp only
    by_cases trimmed : (n.trim least).fraction = []
    · rw [if_pos (by rw [stop, trimmed, List.length_nil]), List.take_left,
        Numeral.text_of_eq_nil trimmed]
      rfl
    · have some := List.length_pos_iff.2 trimmed
      rw [if_neg (by omega), kept, Numeral.text_of_ne_nil trimmed]
      rfl

/-! ## Fixed fraction digits -/

theorem fixed_eq (x : Float) (least most : ℕ) :
    fixed x least most = (roundedNumeral x (min most 20 : ℕ)).trim least := by
  rw [fixed, Nat.cast_min]
  rfl

/-- **There are as many fraction digits as there must be, and no more than there may be.** -/
theorem length_fraction_fixed (finite : x.isFinite = true) (order : least ≤ most) :
    min least 20 ≤ (fixed x least most).fraction.length ∧
      (fixed x least most).fraction.length ≤ min most 20 := by
  obtain ⟨-, -, -, -, length, -⟩ := value_roundedNumeral finite (min most 20 : ℕ)
  rw [Int.toNat_natCast] at length
  have fewest := Numeral.le_length_fraction_trim least (roundedNumeral x (min most 20 : ℕ))
  have greatest := Numeral.length_fraction_trim_le least (roundedNumeral x (min most 20 : ℕ))
  rw [fixed_eq]
  omega

/-- What is rounded by scaling, or left as it is where that fails, stays finite and keeps its
sign. -/
theorem getD_roundTo_mem (finite : x.isFinite = true) (nonneg : 0 ≤ toRat x) {places : ℤ}
    (few : places.natAbs < 512) :
    ((roundTo x places).getD x).isFinite = true ∧ 0 ≤ toRat ((roundTo x places).getD x) := by
  cases rounded : roundTo x places with
  | none => exact ⟨finite, nonneg⟩
  | some y =>
      obtain ⟨least, -⟩ := roundTo_mono finite nonneg finite le_rfl few rounded rounded
      exact ⟨(eq_of_roundTo rounded).1, least⟩

/-- **Fixed fraction digits.**  A finite number that is not negative, rounded by scaling, is printed
with `most` fraction digits, or with 20 where `most` is larger.  What is written is that numeral
with its text trimmed: it has the same whole digits and stands for the same number, and at least
`least` of the fraction digits are left, or all 20 where `least` is larger.  Behind the first
`least` of them the fraction does not end in a zero, and the text never ends in a point.  No numeral
for the same number with enough fraction digits has fewer of them. -/
theorem fixed_fraction_digits (finite : x.isFinite = true) (nonneg : 0 ≤ toRat x)
    (order : least ≤ most) :
    let places := min most 20
    let written := fixed x least most
    ∃ y n, (roundTo x places).getD x = y ∧ 0 ≤ toRat y ∧ toPlaces? y places = some n ∧
      n.Proper ∧ n.fraction.length = places ∧
      n.value = halfEven (toRat y * 10 ^ places) / 10 ^ places ∧
      written.text = trimText least n.text ∧ written.Proper ∧
      written.whole = n.whole ∧ written.value = n.value ∧
      min least 20 ≤ written.fraction.length ∧ written.fraction.length ≤ places ∧
      (least < written.fraction.length → written.fraction.getLast? ≠ some '0') ∧
      written.text.getLast? ≠ some '.' ∧
      ∀ m : Numeral, m.value = n.value → min least 20 ≤ m.fraction.length →
        written.fraction.length ≤ m.fraction.length := by
  intro places written
  have few : (places : ℤ).natAbs < 512 := by omega
  obtain ⟨finite', nonneg'⟩ := getD_roundTo_mem finite nonneg few
  obtain ⟨n, printed, proper, length, value⟩ := value_toPlaces? finite' places
  rw [abs_of_nonneg nonneg'] at value
  have trimmed : written = n.trim least := by
    have rounded : roundedNumeral x places = n := by
      rw [roundedNumeral, Int.toNat_natCast, printed, Option.getD_some]
    rw [← rounded]
    exact fixed_eq x least most
  obtain ⟨fewest, greatest⟩ := length_fraction_fixed finite order
  refine ⟨_, n, rfl, nonneg', printed, proper, length, value, ?_, ?_, ?_, ?_, fewest, greatest,
    ?_, ?_, fun m same enough => ?_⟩
  · rw [trimmed, trimText_text proper]
  · rw [trimmed]
    exact proper.trim least
  · rw [trimmed]
    rfl
  · rw [trimmed, Numeral.value_trim]
  · rw [trimmed]
    exact Numeral.getLast?_fraction_trim
  · rw [trimmed]
    exact Numeral.getLast?_text (proper.trim least)
  · rw [trimmed]
    exact Numeral.length_fraction_trim_le_of_value proper same (by omega)

/-- The theorem at a number whose zeros are trimmed down to the second digit. -/
theorem fixed_fraction_digits_half :
    (2.5 : Float).isFinite = true ∧ 0 ≤ toRat 2.5 ∧ 2 ≤ 4294967295 ∧
      (∃ n : Numeral, n.fraction.length = 20 ∧
        (fixed 2.5 2 4294967295).text = trimText 2 n.text ∧
        (fixed 2.5 2 4294967295).whole = n.whole ∧
        (fixed 2.5 2 4294967295).value = n.value) ∧
      2 ≤ (fixed 2.5 2 4294967295).fraction.length ∧
      (fixed 2.5 2 4294967295).text = "2.50".toList := by
  have finite : (2.5 : Float).isFinite = true := by decide +kernel
  have nonneg : 0 ≤ toRat 2.5 := by
    have size : 0 ≤ units (2.5 : Float).toModel.unpack := by decide +kernel
    exact div_nonneg (Int.cast_nonneg size) (by positivity)
  have order : 2 ≤ 4294967295 := by decide
  obtain ⟨y, n, -, -, -, -, length, -, text, -, whole, value, fewest, -⟩ :=
    fixed_fraction_digits finite nonneg order
  exact ⟨finite, nonneg, order, ⟨n, length, text, whole, value⟩, fewest, by decide +kernel⟩

/-- Zeros in front of the point stay. -/
example : (fixed 100.0 0 3).text = "100".toList := by decide +kernel

/-- All the zeros there can be stay. -/
example : (fixed 100.0 4294967295 4294967295).text = "100.00000000000000000000".toList := by
  decide +kernel

end Infographic.Number
