/-
# Infographic.Proofs.GroupedDigits -- where the separators stand

A style of grouping says before how many last digits of a run a separator stands (`breaks`).  A run
below `2 ^ 128` has its separators there (`apply_eq`).  From a longer run the last 36 digits are cut
off until what is left is below that bound, and what was cut off is set in threes, whatever the style
(`groupFrom_eq`).  As 36 is a multiple of three, that makes no difference to threes; a run in any
other style that is long enough is not grouped as its style says (`group_uniform`).
-/
import Infographic.Locale.Grouping
import Infographic.Proofs.DigitValues

namespace Infographic.Grouping

set_option autoImplicit false

open Number (isDigit digitsValue AllDigits)

/-! ## Separators by position -/

/-- The style has a separator before the last `k` digits of a run. -/
def breaks : Grouping → Nat → Bool
  | .threes, k => k ≠ 0 ∧ k % 3 = 0
  | .threeThenTwos, k => 3 ≤ k ∧ k % 2 = 1
  | .none, _ => false

/-- The places of separators if 36 digits have been cut off some times: threes in what was cut off,
and the style in front of it. -/
def breaksBehind (style : Grouping) (cuts k : Nat) : Bool :=
  if k ≤ 36 * cuts then threes.breaks k else style.breaks (k - 36 * cuts)

/-- A run of digits with a separator before the last `k` of them wherever there is to be one. -/
def separatedAt (places : Nat → Bool) (sep : List Char) : List Char → List Char
  | [] => []
  | c :: rest => c :: ((if places rest.length then sep else []) ++ separatedAt places sep rest)

variable {places places' : Nat → Bool} {sep ds es : List Char}

theorem separatedAt_cons (places : Nat → Bool) (sep : List Char) (c : Char) (ds : List Char) :
    separatedAt places sep (c :: ds) =
      c :: ((if places ds.length then sep else []) ++ separatedAt places sep ds) := rfl

theorem separatedAt_congr (same : ∀ k < ds.length, places k = places' k) :
    separatedAt places sep ds = separatedAt places' sep ds := by
  induction ds with
  | nil => rfl
  | cons c rest ih =>
      rw [separatedAt_cons, separatedAt_cons, same rest.length (Nat.lt_succ_self _),
        ih fun k less => same k (Nat.lt_succ_of_lt less)]

/-- A run in two parts, the first of them with its places counted from its own end. -/
theorem separatedAt_append (nonempty : ds ≠ []) :
    separatedAt places sep (ds ++ es) =
      separatedAt (fun k => k ≠ 0 && places (k + es.length)) sep ds ++
        (if places es.length then sep else []) ++ separatedAt places sep es := by
  induction ds with
  | nil => exact absurd rfl nonempty
  | cons c rest ih =>
      cases rest with
      | nil => simp [separatedAt]
      | cons d more =>
          have first := ih (List.cons_ne_nil d more)
          rw [List.cons_append, separatedAt_cons, first, separatedAt_cons _ sep c (d :: more)]
          simp [List.append_assoc, Nat.add_right_comm _ 1]

/-- Separators without digits leave the digits as they are. -/
theorem filter_separatedAt (plain : ∀ c ∈ sep, isDigit c = false) (digits : AllDigits ds) :
    (separatedAt places sep ds).filter isDigit = ds := by
  have none : sep.filter isDigit = [] := List.filter_eq_nil_iff.2 fun c member => by
    rw [plain c member]
    exact Bool.false_ne_true
  induction ds with
  | nil => rfl
  | cons c rest ih =>
      have later := ih fun d member => digits d (List.mem_cons_of_mem c member)
      rw [separatedAt_cons, List.filter_cons_of_pos (digits c List.mem_cons_self), List.filter_append,
        later]
      split
      · rw [none, List.nil_append]
      · rfl

/-- Separators that begin with no digit show where they stand. -/
theorem places_eq_of_separatedAt_eq (nonempty : sep ≠ []) (plain : ∀ c ∈ sep, isDigit c = false)
    (digits : AllDigits ds) (same : separatedAt places sep ds = separatedAt places' sep ds) {k : Nat}
    (inside : k + 1 < ds.length) : places (k + 1) = places' (k + 1) := by
  induction ds with
  | nil => simp at inside
  | cons c rest ih =>
      obtain ⟨d, more, rfl⟩ : ∃ d more, rest = d :: more :=
        List.exists_cons_of_ne_nil fun empty => by simp [empty] at inside
      obtain ⟨s, others, rfl⟩ := List.exists_cons_of_ne_nil nonempty
      have digit : isDigit d = true := digits d (by simp)
      have apart : s ≠ d := fun equal => by
        rw [← equal, plain s List.mem_cons_self] at digit
        exact Bool.false_ne_true digit
      rw [separatedAt_cons _ _ c, separatedAt_cons _ _ c, List.cons.injEq] at same
      have here : places (d :: more).length = places' (d :: more).length := by
        cases first : places (d :: more).length <;> cases second : places' (d :: more).length <;>
          simp_all [separatedAt]
      rw [here] at same
      have later := List.append_cancel_left same.2
      rcases Nat.lt_or_ge (k + 1) (d :: more).length with less | most
      · exact ih (fun e member => digits e (List.mem_cons_of_mem c member)) later less
      · have last : k + 1 = (d :: more).length := by
          rw [List.length_cons] at inside
          omega
        rw [last, here]

/-! ## Grouping in a style -/

/-- Separating from the right puts a separator behind a first group, and then behind groups of one
size. -/
theorem separateReversed_append {size : Nat} (positive : 0 < size) (left : Nat)
    (regular : ∀ i, places (es.length + i) = decide (left ≤ i ∧ (i - left) % size = 0)) :
    (separateReversed sep size left ds).reverse ++ separatedAt places sep es =
      separatedAt places sep (ds.reverse ++ es) := by
  induction ds generalizing left es with
  | nil => simp [separateReversed]
  | cons c rest ih =>
      have here := regular 0
      rw [Nat.add_zero] at here
      rw [List.reverse_cons, List.append_assoc, List.singleton_append]
      cases left with
      | zero =>
          have later (i : Nat) : places ((c :: es).length + i) =
              decide (size - 1 ≤ i ∧ (i - (size - 1)) % size = 0) := by
            rw [List.length_cons, Nat.add_right_comm, Nat.add_assoc, regular (i + 1)]
            refine decide_eq_decide.2 ?_
            have wrapped : size - 1 ≤ i → (i + 1) % size = (i - (size - 1)) % size := fun full => by
              rw [show i + 1 = i - (size - 1) + size by omega, Nat.add_mod_right]
            refine ⟨fun ⟨_, whole⟩ => ?_, fun ⟨full, whole⟩ => ⟨Nat.zero_le _, ?_⟩⟩
            · have full : size - 1 ≤ i := by
                refine Nat.le_of_not_lt fun few => ?_
                rw [Nat.sub_zero, Nat.mod_eq_of_lt (by omega)] at whole
                exact Nat.succ_ne_zero i whole
              exact ⟨full, wrapped full ▸ whole⟩
            · exact (wrapped full).trans whole
          have next := ih (size - 1) later
          rw [← next, separateReversed, separatedAt_cons, if_pos (here.trans (by simp))]
          simp [List.append_assoc]
      | succ left =>
          have later (i : Nat) : places ((c :: es).length + i) =
              decide (left ≤ i ∧ (i - left) % size = 0) := by
            rw [List.length_cons, Nat.add_right_comm, Nat.add_assoc, regular (i + 1)]
            exact decide_eq_decide.2 (by rw [Nat.add_sub_add_right, Nat.add_le_add_iff_right])
          have next := ih left later
          rw [← next, separateReversed, separatedAt_cons, if_neg (by simp [here])]
          simp

theorem separate_eq {last size : Nat} (positive : 0 < size)
    (regular : ∀ i, places i = decide (last ≤ i ∧ (i - last) % size = 0)) :
    separate sep last size ds = separatedAt places sep ds := by
  have all : (separateReversed sep size last ds.reverse).reverse ++ separatedAt places sep [] =
      separatedAt places sep (ds.reverse.reverse ++ []) :=
    separateReversed_append positive last fun i => by rw [List.length_nil, Nat.zero_add, regular]
  rwa [separatedAt, List.append_nil, List.append_nil, List.reverse_reverse] at all

theorem separate_threes : separate sep 3 3 ds = separatedAt threes.breaks sep ds :=
  separate_eq (by decide) fun i => decide_eq_decide.2 (by omega)

/-- **A run has its separators where its style says.** -/
theorem apply_eq (style : Grouping) : style.apply sep ds = separatedAt style.breaks sep ds := by
  cases style with
  | threes => exact separate_threes
  | threeThenTwos => exact separate_eq (by decide) fun i => decide_eq_decide.2 (by omega)
  | none =>
      induction ds with
      | nil => rfl
      | cons c rest ih => exact congrArg (List.cons c) ih

/-! ## Long runs -/

/-- How often 36 digits are cut off a run: what is left behind the cuts is below `2 ^ 128`, and was
not before. -/
structure IsCutTimes (ds : List Char) (cuts : Nat) : Prop where
  enough : digitsValue (ds.take (ds.length - 36 * cuts)) < Nat.pow 2 128
  needed : ∀ fewer < cuts, Nat.pow 2 128 ≤ digitsValue (ds.take (ds.length - 36 * fewer))

theorem isCutTimes_zero (small : digitsValue ds < Nat.pow 2 128) : IsCutTimes ds 0 :=
  ⟨by rwa [Nat.mul_zero, Nat.sub_zero, List.take_length], fun _ less => absurd less (Nat.not_lt_zero _)⟩

theorem IsCutTimes.pos {cuts : Nat} (times : IsCutTimes ds cuts)
    (large : Nat.pow 2 128 ≤ digitsValue ds) : 0 < cuts := by
  refine Nat.pos_of_ne_zero fun none => ?_
  have enough := times.enough
  rw [none, Nat.mul_zero, Nat.sub_zero, List.take_length] at enough
  exact absurd enough (Nat.not_lt_of_le large)

/-- One more cut. -/
theorem IsCutTimes.succ {cuts : Nat} (large : Nat.pow 2 128 ≤ digitsValue ds)
    (times : IsCutTimes (ds.take (ds.length - 36)) cuts) : IsCutTimes ds (cuts + 1) := by
  have shorter (n : Nat) : (ds.take (ds.length - 36)).take
      ((ds.take (ds.length - 36)).length - 36 * n) = ds.take (ds.length - 36 * (n + 1)) := by
    rw [List.take_take, List.length_take]
    congr 1
    omega
  refine ⟨by rw [← shorter]; exact times.enough, fun fewer less => ?_⟩
  cases fewer with
  | zero => rwa [Nat.mul_zero, Nat.sub_zero, List.take_length]
  | succ n =>
      rw [← shorter]
      exact times.needed n (Nat.lt_of_succ_lt_succ less)

theorem breaksBehind_zero (style : Grouping) (k : Nat) :
    style.breaksBehind 0 k = style.breaks k := by
  rw [breaksBehind, Nat.mul_zero, Nat.sub_zero]
  split
  · rename_i none
    rw [Nat.le_zero.1 none]
    cases style <;> rfl
  · rfl

/-- Behind one more cut the places are those of what is left, and threes. -/
theorem breaksBehind_succ (style : Grouping) (cuts k : Nat) (nonzero : k ≠ 0) :
    style.breaksBehind (cuts + 1) (k + 36) = style.breaksBehind cuts k := by
  unfold breaksBehind
  by_cases inside : k ≤ 36 * cuts
  · rw [if_pos inside, if_pos (by omega)]
    exact decide_eq_decide.2 (by omega)
  · rw [if_neg inside, if_neg (by omega)]
    congr 1
    omega

/-- A run of digits that is not below `2 ^ 128` has more than 36 of them. -/
theorem length_of_large (digits : AllDigits ds) (large : Nat.pow 2 128 ≤ digitsValue ds) :
    38 < ds.length := by
  refine Nat.lt_of_not_le fun short => ?_
  have less := Number.digitsValue_lt digits
  have bound : 10 ^ ds.length ≤ 10 ^ 38 := Nat.pow_le_pow_right (by decide) short
  exact absurd (Nat.lt_of_lt_of_le less bound) (Nat.not_lt_of_le (Nat.le_trans (by decide) large))

/-- **A run has its separators where its style says in front of the cuts, and in threes behind
them.** -/
theorem groupFrom_eq (numbers : NumberConvention) {fuel : Nat} (digits : AllDigits ds)
    (enough : ds.length < fuel) :
    ∃ cuts, IsCutTimes ds cuts ∧ groupFrom numbers fuel ds =
      separatedAt (numbers.grouping.breaksBehind cuts) numbers.separator.toList ds := by
  induction fuel generalizing ds with
  | zero => exact absurd enough (Nat.not_lt_zero _)
  | succ fuel ih =>
      rw [groupFrom]
      dsimp only
      by_cases small : digitsValue ds < Nat.pow 2 128
      · refine ⟨0, isCutTimes_zero small, ?_⟩
        rw [if_pos small, apply_eq]
        exact separatedAt_congr fun k _ => (breaksBehind_zero _ k).symm
      · have large := Nat.le_of_not_lt small
        have long := length_of_large digits large
        have head : AllDigits (ds.take (ds.length - 36)) := digits.of_subset (List.take_subset _ _)
        have nonempty : ds.take (ds.length - 36) ≠ [] := by
          rw [Ne, List.take_eq_nil_iff, not_or]
          exact ⟨by omega, fun empty => by simp [empty] at long⟩
        have tail : (ds.drop (ds.length - 36)).length = 36 := by
          rw [List.length_drop]
          omega
        obtain ⟨cuts, times, grouped⟩ := ih head (by rw [List.length_take]; omega)
        refine ⟨cuts + 1, times.succ large, ?_⟩
        have behind (k : Nat) (inside : k ≤ 36) :
            numbers.grouping.breaksBehind (cuts + 1) k = threes.breaks k := if_pos (by omega)
        have whole : separatedAt (numbers.grouping.breaksBehind (cuts + 1))
            numbers.separator.toList (ds.take (ds.length - 36) ++ ds.drop (ds.length - 36)) = _ :=
          separatedAt_append nonempty
        rw [List.take_append_drop, tail, behind 36 (Nat.le_refl _), if_pos (by decide)] at whole
        rw [if_neg small, grouped, separate_threes, whole]
        congr 1
        · congr 1
          refine separatedAt_congr fun k _ => ?_
          cases k with
          | zero => simp [breaksBehind, breaks]
          | succ k => rw [breaksBehind_succ _ _ _ (Nat.succ_ne_zero k)]; simp
        · refine separatedAt_congr fun k less => (behind k ?_).symm
          omega

/-- Grouped as the style says: in threes whatever the length, in any other style only if nothing is
cut off. -/
theorem group_eq_iff {numbers : NumberConvention} (nonempty : numbers.separator.toList ≠ [])
    (plain : ∀ c ∈ numbers.separator.toList, isDigit c = false) (digits : AllDigits ds) :
    group numbers ds = separatedAt numbers.grouping.breaks numbers.separator.toList ds ↔
      numbers.grouping = threes ∨ digitsValue ds < Nat.pow 2 128 := by
  obtain ⟨cuts, times, grouped⟩ := groupFrom_eq numbers digits (Nat.lt_succ_self ds.length)
  have whole : group numbers ds = _ := grouped
  rw [whole]
  constructor
  · intro same
    refine Classical.or_iff_not_imp_right.2 fun large => ?_
    have large := Nat.le_of_not_lt large
    have cut := times.pos large
    have long := length_of_large digits large
    have placed (k : Nat) (few : k + 1 ≤ 36) :
        threes.breaks (k + 1) = numbers.grouping.breaks (k + 1) := by
      rw [← places_eq_of_separatedAt_eq nonempty plain digits same (by omega), breaksBehind,
        if_pos (by omega)]
    cases style : numbers.grouping with
    | threes => rfl
    | threeThenTwos =>
        have fifth := placed 4 (by decide)
        rw [style] at fifth
        exact absurd fifth (by decide)
    | none =>
        have third := placed 2 (by decide)
        rw [style] at third
        exact absurd third (by decide)
  · rintro (threes | small)
    · rw [threes]
      refine separatedAt_congr fun k _ => ?_
      rw [breaksBehind]
      split
      · rfl
      · exact decide_eq_decide.2 (by omega)
    · have none : cuts = 0 := Nat.le_zero.1 (Nat.le_of_not_lt fun cut => by
        have needed := times.needed 0 cut
        rw [Nat.mul_zero, Nat.sub_zero, List.take_length] at needed
        exact absurd small (Nat.not_lt_of_le needed))
      rw [none]
      exact separatedAt_congr fun k _ => breaksBehind_zero _ k

/-! ## Locales -/

/-- The conventions of a family of locales. -/
def Listed (numbers : NumberConvention) : Prop :=
  ∃ family ∈ NumberConvention.families, numbers.mark = family.mark ∧
    numbers.separator = family.separator ∧ numbers.grouping = family.grouping

theorem listed_of_find? {name : String} {numbers : NumberConvention}
    (found : NumberConvention.find? name = some numbers) : Listed numbers := by
  obtain ⟨family, has, rfl⟩ := Option.map_eq_some_iff.1 found
  exact ⟨family, List.mem_of_find?_eq_some has, rfl, rfl, rfl⟩

/-- The conventions of every locale are those of a family. -/
theorem listed_ofTag (tag : String) : Listed (Locale.ofTag tag).numbers := by
  have named (mark separator : String) (style : Grouping) (names : String)
      (member : ⟨mark, separator, style, names⟩ ∈ NumberConvention.families) (name : String) :
      Listed ⟨name, mark, separator, style⟩ := ⟨_, member, rfl, rfl, rfl⟩
  unfold Locale.ofTag
  dsimp only
  split
  · rename_i found
    exact listed_of_find? found
  · split
    · rename_i found
      exact listed_of_find? found
    · unfold Locale.ofLanguage
      split
      · exact named _ _ _ _ (List.mem_of_getElem? (i := 2) rfl) _
      · split
        · exact named _ _ _ _ (List.mem_of_getElem? (i := 1) rfl) _
        · exact named _ _ _ _ (List.mem_of_getElem? (i := 7) rfl) _

/-- The separators of all locales are there and hold no digits. -/
theorem Listed.separator {numbers : NumberConvention} (listed : Listed numbers) :
    numbers.separator.toList ≠ [] ∧ ∀ c ∈ numbers.separator.toList, isDigit c = false := by
  have all : ∀ family ∈ NumberConvention.families, family.separator.toList ≠ [] ∧
      family.separator.toList.any isDigit = false := by decide
  obtain ⟨family, member, -, same, -⟩ := listed
  obtain ⟨nonempty, none⟩ := all family member
  rw [same]
  exact ⟨nonempty, fun c inside => Bool.eq_false_iff.2 (List.any_eq_false.1 none c inside)⟩

/-- **Where the separators of a run of digits stand.**  In every locale (`listed_ofTag`) and for
every run of digits there is a number of cuts, each of 36 digits, that leaves less than `2 ^ 128` in
front and that no smaller number does; the separators stand in threes behind the cuts, and in front
of them where the locale's style has them.  All digits stay, in their order.  So the run is grouped
as the style says exactly if that groups in threes or the run is below `2 ^ 128`. -/
theorem group_uniform {numbers : NumberConvention} (listed : Listed numbers) {ds : List Char}
    (digits : AllDigits ds) :
    (∃ cuts, IsCutTimes ds cuts ∧ group numbers ds =
        separatedAt (numbers.grouping.breaksBehind cuts) numbers.separator.toList ds) ∧
      (group numbers ds).filter isDigit = ds ∧
      (group numbers ds = separatedAt numbers.grouping.breaks numbers.separator.toList ds ↔
        numbers.grouping = threes ∨ digitsValue ds < Nat.pow 2 128) := by
  obtain ⟨nonempty, plain⟩ := listed.separator
  obtain ⟨cuts, times, grouped⟩ := groupFrom_eq numbers digits (Nat.lt_succ_self ds.length)
  refine ⟨⟨cuts, times, grouped⟩, ?_, group_eq_iff nonempty plain digits⟩
  rw [group, grouped]
  exact filter_separatedAt plain digits

/-- The conventions of India. -/
def indian : NumberConvention := ⟨"en-IN", ".", ",", .threeThenTwos⟩

/-- The digits of the float nearest to `10 ^ 40`. -/
def longRun : List Char := "10000000000000000303786028427003666890752".toList

/-- The theorem at a run that is cut once, in a style with twos. -/
theorem group_uniform_long :
    Listed indian ∧ AllDigits longRun ∧ IsCutTimes longRun 1 ∧
      group indian longRun = "10,000,000,000,000,000,303,786,028,427,003,666,890,752".toList ∧
      (group indian longRun).filter isDigit = longRun ∧
      group indian longRun ≠ separatedAt threeThenTwos.breaks ",".toList longRun := by
  have listed : Listed indian := ⟨_, List.mem_of_getElem? (i := 5) rfl, rfl, rfl, rfl⟩
  have digits : AllDigits longRun := by decide +kernel
  obtain ⟨-, kept, style⟩ := group_uniform listed digits
  refine ⟨listed, digits, ⟨by decide +kernel, by decide +kernel⟩, by decide +kernel, kept,
    fun same => ?_⟩
  exact absurd (style.1 same) (by decide +kernel)

/-- Not every run without a leading zero is grouped as the style of its locale says. -/
theorem not_group_uniform :
    ¬ ∀ (numbers : NumberConvention) (ds : List Char), Listed numbers → AllDigits ds →
      ds.head? ≠ some '0' →
        group numbers ds = separatedAt numbers.grouping.breaks numbers.separator.toList ds := by
  intro all
  have grouped := all indian longRun ⟨_, List.mem_of_getElem? (i := 5) rfl, rfl, rfl, rfl⟩
    (by decide +kernel) (by decide +kernel)
  exact absurd grouped (by decide +kernel)

end Infographic.Grouping
