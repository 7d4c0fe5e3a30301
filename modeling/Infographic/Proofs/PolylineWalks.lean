/-
# Infographic.Proofs.PolylineWalks -- walking along straight lines

A path through some points is walked line by line (`Path.way_ofPoints`), and it has a point at every
value as soon as it has a line.  Without rounding, and with any lengths that are not negative, the
search stops at the first line that does not end before the place (`Stretch.reach_place`).  The
place lies within that line, at a part of it from zero to one, and a line without length is never
divided by (`Stretch.walk_eq`).  Repeated points make such lines; the search stops at one only at
the very start, where no part of it is asked for.
-/
import Mathlib.Algebra.Order.BigOperators.Group.Finset
import Mathlib.Algebra.Order.Field.Basic
import Infographic.Path.Outline
import Infographic.Proofs.ExactScalar
import Infographic.Proofs.GuidePoints
import Infographic.Proofs.RoundedArithmetic

namespace Infographic

set_option autoImplicit false

/-- Arithmetic without rounding in which a division by zero gives what is asked for. -/
abbrev Scalar.exactBut {K : Type} [Field K] [LinearOrder K] (atZero : K → K) : Scalar K :=
  { exact K with div := fun a b => if b = 0 then atZero a else a / b }

/-! ## Lines of given lengths -/

namespace Stretch

section

variable {α : Type} [Scalar α]

/-- The way along the lines from each point to the next, each line as long as is given. -/
def lines (length : Nat → α) (points : List (Point α)) : List (Stretch α) :=
  (points.zip points.tail).mapIdx fun i ends => .straight (length i) ends.1 ends.2

variable {length : Nat → α} {points : List (Point α)}

theorem length_lines : (lines length points).length = points.length - 1 := by
  simp [lines]

theorem getElem_lines {i : Nat} (inside : i < (lines length points).length)
    (more : i + 1 < points.length) :
    (lines length points)[i] = .straight (length i) points[i] points[i + 1] := by
  simp [lines]

end

end Stretch

/-! ## Paths through points -/

/-- A point with its coordinates read otherwise. -/
def Point.map {α β : Type} (value : α → β) (p : Point α) : Point β :=
  ⟨value p.x, value p.y⟩

namespace Path

variable {ps : List (Point Float)} {closed : Bool}

/-- The points on a run of lines: those given, and the first one again where a run is closed that
ends elsewhere. -/
def stops (ps : List (Point Float)) (closed : Bool) : List (Point Float) :=
  match ps with
  | [] => []
  | p :: rest =>
      p :: rest ++
        if closed && 2 < ps.length && !(rest.getLastD p == p) then [p] else []

/-- The length of a segment, by its place; zero beyond the last one. -/
def lengthAt (path : Path) (i : Nat) : Float :=
  (path.segments[i]?.map (Segment.length lengthTolerance)).getD 0.0

theorem zipWith_line_concat (p q : Point Float) (rest : List (Point Float)) :
    List.zipWith Segment.line (p :: (rest ++ [q])) (rest ++ [q]) =
      List.zipWith Segment.line (p :: rest) rest ++ [.line (rest.getLastD p) q] := by
  induction rest generalizing p with
  | nil => rfl
  | cons next rest ih =>
      rw [List.cons_append, List.zipWith_cons_cons, ih, List.zipWith_cons_cons,
        List.getLastD_cons, List.cons_append]

/-- Lines are drawn from point to point, and what follows goes on from the last one. -/
theorem segmentsFrom_lines (start here : Point Float) (rest : List (Point Float)) (later : Path) :
    segmentsFrom start here (rest.map PathElement.line ++ later) =
      List.zipWith Segment.line (here :: rest) rest ++
        segmentsFrom start (rest.getLastD here) later := by
  induction rest generalizing here with
  | nil => rfl
  | cons next rest ih =>
      rw [List.map_cons, List.cons_append, segmentsFrom, ih, List.zipWith_cons_cons,
        List.getLastD_cons, List.cons_append]

/-- **The segments of a path through points are the lines between its stops.** -/
theorem segments_ofPoints (ps : List (Point Float)) (closed : Bool) :
    (ofPoints ps closed).segments =
      List.zipWith .line (stops ps closed) (stops ps closed).tail := by
  cases ps with
  | nil => rfl
  | cons p rest =>
      show segmentsFrom p p (rest.map PathElement.line ++ _) = _
      rw [segmentsFrom_lines, stops]
      cases closing : closed && 2 < (p :: rest).length with
      | false => simp [segmentsFrom]
      | true =>
          rw [Bool.true_and, if_pos rfl, segmentsFrom]
          cases ended : rest.getLastD p == p with
          | true => simp [segmentsFrom]
          | false =>
              show _ = List.zipWith Segment.line (p :: (rest ++ [p])) (rest ++ [p])
              rw [zipWith_line_concat]
              rfl

theorem length_segments_ofPoints :
    (ofPoints ps closed).segments.length = (stops ps closed).length - 1 := by
  simp [segments_ofPoints]

/-- A path through points draws a line if there are two of them. -/
theorem segments_ofPoints_ne_nil : (ofPoints ps closed).segments ≠ [] ↔ 2 ≤ ps.length := by
  rw [← List.length_pos_iff, length_segments_ofPoints]
  rcases ps with - | ⟨p, - | ⟨q, rest⟩⟩ <;> simp [stops]

/-- **The way along a path through points**, every line with the length that was measured. -/
theorem way_ofPoints (ps : List (Point Float)) (closed : Bool) :
    (ofPoints ps closed).way =
      Stretch.lines (ofPoints ps closed).lengthAt (stops ps closed) := by
  refine List.ext_getElem ?_ fun i inside inside' => ?_
  · rw [way, List.length_map, length_segments_ofPoints, Stretch.length_lines]
  · simp only [way, List.length_map, Stretch.length_lines] at inside inside'
    have segment : (ofPoints ps closed).segments[i] =
        .line (stops ps closed)[i] (stops ps closed)[i + 1] := by
      simp [segments_ofPoints]
    have length : (ofPoints ps closed).lengthAt i =
        (ofPoints ps closed).segments[i].length lengthTolerance := by
      simp [lengthAt, inside]
    rw [Stretch.getElem_lines _ (by omega), length]
    simp only [way, List.getElem_map, segment]
    rfl

/-- A path has a point at every value if it has a segment, and else at none. -/
theorem isSome_pointAt?_iff (path : Path) (t : Float) :
    (path.pointAt? t).isSome = true ↔ path.segments ≠ [] := by
  constructor
  · intro reached none
    rw [pointAt?, way, none, List.map_nil, Stretch.pointAt?] at reached
    simp [Stretch.reach] at reached
  · intro drawn
    exact isSome_pointAt? (by simpa [isBlank] using drawn) t

end Path

/-! ## Lengths -/

section

variable {K : Type} [Field K] [LinearOrder K]

namespace Stretch

variable {length : Nat → K} {count i j : Nat} {target t u : K}

/-- The length of the first lines. -/
def upTo (length : Nat → K) (count : Nat) : K := ∑ i ∈ Finset.range count, length i

omit [LinearOrder K] in
theorem upTo_zero (length : Nat → K) : upTo length 0 = 0 := Finset.sum_range_zero length

omit [LinearOrder K] in
theorem upTo_succ (length : Nat → K) (i : Nat) : upTo length (i + 1) = upTo length i + length i :=
  Finset.sum_range_succ length i

omit [LinearOrder K] in
theorem upTo_succ' (length : Nat → K) (i : Nat) :
    upTo length (i + 1) = length 0 + upTo (fun i => length (i + 1)) i := by
  rw [upTo, Finset.sum_range_succ', add_comm]
  rfl

/-! ## Places -/

/-- A place on lines of given lengths: in which line it is, and how far along. -/
structure IsPlace (length : Nat → K) (count : Nat) (target : K) (i : Nat) (u : K) : Prop where
  inside : i < count
  /-- It is the first line that does not end before the place. -/
  first : ∀ j < count, upTo length (j + 1) < target ↔ j < i
  low : upTo length i ≤ target
  high : target ≤ upTo length (i + 1)
  part : 0 ≤ u ∧ u ≤ 1
  reached : upTo length i + u * length i = target
  still : length i = 0 → u = 0

section

variable [IsStrictOrderedRing K]

theorem upTo_mono (nonneg : ∀ i < count, 0 ≤ length i) (order : i ≤ j) (most : j ≤ count) :
    upTo length i ≤ upTo length j := by
  refine Finset.sum_le_sum_of_subset_of_nonneg (Finset.range_subset_range.2 order) ?_
  intro k member _
  exact nonneg k ((Finset.mem_range.1 member).trans_le most)

/-- A place within a line that has a length is at a part of it; a line without one is not divided
by. -/
theorem isPlace_of_between (nonneg : ∀ i < count, 0 ≤ length i) (inside : i < count)
    (first : ∀ j < count, upTo length (j + 1) < target ↔ j < i) (low : upTo length i ≤ target)
    (high : target ≤ upTo length (i + 1)) :
    IsPlace length count target i
      (if 0 < length i then (target - upTo length i) / length i else 0) := by
  have least : 0 ≤ target - upTo length i := sub_nonneg.2 low
  have most : target - upTo length i ≤ length i := by
    rw [upTo_succ] at high
    exact sub_left_le_of_le_add high
  split
  · rename_i long
    refine ⟨inside, first, low, high, ⟨div_nonneg least long.le, (div_le_one long).2 most⟩, ?_,
      fun none => absurd none long.ne'⟩
    rw [div_mul_cancel₀ _ long.ne', add_sub_cancel]
  · rename_i short
    have none : length i = 0 := le_antisymm (not_lt.1 short) (nonneg i inside)
    rw [none] at most
    refine ⟨inside, first, low, high, ⟨le_rfl, zero_le_one⟩, ?_, fun _ => rfl⟩
    rw [zero_mul, add_zero]
    exact (sub_eq_zero.1 (le_antisymm most least)).symm

theorem IsPlace.of_zero (nonneg : ∀ i < count, 0 ≤ length i)
    (place : IsPlace length count 0 i u) : i = 0 ∧ u = 0 := by
  obtain rfl : i = 0 := by
    by_contra later
    obtain ⟨k, rfl⟩ := Nat.exists_eq_succ_of_ne_zero later
    have short := (place.first k (Nat.lt_of_succ_lt place.inside)).2 (Nat.lt_succ_self k)
    have least := upTo_mono nonneg (Nat.zero_le (k + 1)) place.inside.le
    rw [upTo_zero] at least
    exact absurd least (not_le.2 short)
  have none : u * length 0 = 0 := by
    have reached := place.reached
    rwa [upTo_zero, zero_add] at reached
  exact ⟨rfl, (mul_eq_zero.1 none).elim id place.still⟩

/-- The whole length is reached at the end of the last line that has a length. -/
theorem IsPlace.of_total (nonneg : ∀ i < count, 0 ≤ length i) (positive : 0 < upTo length count)
    (place : IsPlace length count (upTo length count) i u) :
    0 < length i ∧ (∀ j < count, i < j → length j = 0) ∧ u = 1 := by
  have ended : upTo length (i + 1) = upTo length count :=
    le_antisymm (upTo_mono nonneg place.inside le_rfl) place.high
  have long : 0 < length i := by
    refine (nonneg i place.inside).lt_of_ne fun none => ?_
    have before : upTo length i = upTo length count := by
      rw [← ended, upTo_succ, ← none, add_zero]
    cases i with
    | zero => exact absurd (before.symm.trans (upTo_zero length)) positive.ne'
    | succ k =>
        have short := (place.first k (Nat.lt_of_succ_lt place.inside)).2 (Nat.lt_succ_self k)
        exact absurd before short.ne
  refine ⟨long, fun j known later => ?_, ?_⟩
  · have start := upTo_mono nonneg (Nat.succ_le_of_lt later) known.le
    have stop := upTo_mono nonneg (Nat.succ_le_of_lt known) le_rfl
    rw [Nat.succ_eq_add_one, ended] at start
    rw [Nat.succ_eq_add_one, upTo_succ] at stop
    exact le_antisymm ((add_le_iff_nonpos_right _).1 (stop.trans start)) (nonneg j known)
  · have reached := place.reached
    rw [← ended, upTo_succ, add_right_inj] at reached
    exact (mul_eq_right₀ long.ne').1 reached

end

attribute [local instance] Scalar.exact

open Scalar (clampUnit)

variable {way : List (Stretch K)} {points : List (Point K)}

/-! ## The search -/

/-- The length of a way, in sums of a field. -/
theorem total_eq (measured : ∀ i (inside : i < way.length), way[i].length = length i) :
    total way = upTo length way.length := by
  have run (way : List (Stretch K)) (length : Nat → K) (sum : K)
      (measured : ∀ i (inside : i < way.length), way[i].length = length i) :
      way.foldl (fun sum s => sum + s.length) sum = sum + upTo length way.length := by
    induction way generalizing length sum with
    | nil => rw [List.length_nil, upTo_zero, add_zero]; rfl
    | cons s rest ih =>
        have first : s.length = length 0 := measured 0 (Nat.zero_lt_succ _)
        have later := ih (fun i => length (i + 1)) (sum + s.length) fun i inside =>
          measured (i + 1) (Nat.succ_lt_succ inside)
        rw [List.foldl_cons, later, List.length_cons, upTo_succ', first, add_assoc]
  have whole : total way = ((0 : Nat) : K) + upTo length way.length := run way length _ measured
  rw [whole, Nat.cast_zero, zero_add]

/-- One step of the search. -/
theorem reach_cons_cons (target passed : K) (s next : Stretch K) (more : List (Stretch K)) :
    reach target passed (s :: next :: more) =
      if passed + s.length < target then reach target (passed + s.length) (next :: more)
      else some (s, target - passed) := by
  show (if Scalar.below _ _ then _ else _) = _
  simp only [Scalar.below_exact]

/-- **Where the search stops.**  All stretches before that one end short of the place, and it does
not itself unless it is the last one; what is left is measured from its start. -/
theorem reach_eq (drawn : way ≠ [])
    (measured : ∀ i (inside : i < way.length), way[i].length = length i) (target passed : K) :
    ∃ i, ∃ inside : i < way.length,
      reach target passed way = some (way[i], target - (passed + upTo length i)) ∧
      (∀ j < i, passed + upTo length (j + 1) < target) ∧
      (i + 1 < way.length → target ≤ passed + upTo length (i + 1)) := by
  induction way generalizing length passed with
  | nil => contradiction
  | cons s rest ih =>
      have first : s.length = length 0 := measured 0 (Nat.zero_lt_succ _)
      cases rest with
      | nil =>
          refine ⟨0, Nat.zero_lt_one, ?_, fun j before => absurd before (Nat.not_lt_zero j),
            fun more => absurd more (Nat.lt_irrefl 1)⟩
          rw [upTo_zero, add_zero]
          rfl
      | cons next more =>
          rw [reach_cons_cons, first]
          split
          · obtain ⟨i, inside, reached, before, after⟩ := ih (List.cons_ne_nil _ _)
              (fun i inside => measured (i + 1) (Nat.succ_lt_succ inside)) (passed + length 0)
            refine ⟨i + 1, Nat.succ_lt_succ inside, ?_, fun j earlier => ?_, fun more => ?_⟩
            · rw [upTo_succ', ← add_assoc]
              exact reached
            · cases j with
              | zero => rwa [upTo_succ', upTo_zero, add_zero]
              | succ j =>
                  rw [upTo_succ', ← add_assoc]
                  exact before j (Nat.lt_of_succ_lt_succ earlier)
            · rw [upTo_succ', ← add_assoc]
              exact after (Nat.lt_of_succ_lt_succ more)
          · rename_i enough
            refine ⟨0, Nat.zero_lt_succ _, ?_, fun j before => absurd before (Nat.not_lt_zero j),
              fun _ => ?_⟩
            · rw [upTo_zero, add_zero]
              rfl
            · rw [upTo_succ', upTo_zero, add_zero]
              exact not_lt.1 enough

/-- **The search comes to a place** if that is not beyond the whole length. -/
theorem reach_place [IsStrictOrderedRing K] (drawn : way ≠ [])
    (measured : ∀ i (inside : i < way.length), way[i].length = length i)
    (nonneg : ∀ i < way.length, 0 ≤ length i) (least : 0 ≤ target)
    (most : target ≤ upTo length way.length) :
    ∃ i, ∃ inside : i < way.length, reach target 0 way = some (way[i], target - upTo length i) ∧
      IsPlace length way.length target i
        (if 0 < length i then (target - upTo length i) / length i else 0) := by
  obtain ⟨i, inside, reached, before, after⟩ := reach_eq drawn measured target 0
  simp only [zero_add] at reached before after
  have low : upTo length i ≤ target := by
    cases i with
    | zero => rwa [upTo_zero]
    | succ i => exact (before i (Nat.lt_succ_self i)).le
  have high : target ≤ upTo length (i + 1) := by
    rcases Nat.lt_or_eq_of_le (Nat.succ_le_of_lt inside) with more | last
    · exact after more
    · rw [Nat.succ_eq_add_one] at last
      rwa [last]
  have first (j : Nat) (known : j < way.length) : upTo length (j + 1) < target ↔ j < i := by
    refine ⟨fun short => ?_, before j⟩
    by_contra later
    have mono := upTo_mono nonneg (Nat.succ_le_succ (Nat.not_lt.1 later)) known
    exact absurd (high.trans mono) (not_le.2 short)
  exact ⟨i, inside, reached, isPlace_of_between nonneg inside first low high⟩

/-! ## Points of walks -/

theorem towards_zero (p q : Point K) : p.towards q 0 = p := by
  show Point.mk (p.x + 0 * (q.x - p.x)) (p.y + 0 * (q.y - p.y)) = p
  simp only [zero_mul, add_zero]

theorem towards_one (p q : Point K) : p.towards q 1 = q := by
  show Point.mk (p.x + 1 * (q.x - p.x)) (p.y + 1 * (q.y - p.y)) = q
  simp only [one_mul, add_sub_cancel]

omit [Field K] [LinearOrder K] in
/-- Points between lines that go nowhere are all the same. -/
theorem getElem?_eq_last (still : ∀ j < count, i < j → points[j]? = points[j + 1]?)
    (inside : i < count) : points[i + 1]? = points[count]? := by
  induction count, inside using Nat.le_induction with
  | base => rfl
  | succ count more ih =>
      rw [ih fun j known later => still j (Nat.lt_succ_of_lt known) later]
      exact still count (Nat.lt_succ_self count) more

theorem along_straight (size : K) (p q : Point K) (distance : K) :
    (straight size p q).along distance =
      p.towards q (if 0 < size then distance / size else 0) := by
  have zero : (Scalar.whole 0 : K) = 0 := Nat.cast_zero
  show p.towards q (if Scalar.below (Scalar.whole 0) size then _ else _) = _
  rw [zero]
  simp only [Scalar.below_exact]

theorem pointAt?_of_pos (positive : 0 < total way) (t : K) :
    pointAt? way t =
      (reach (clampUnit t * total way) 0 way).map fun (s, distance) => s.along distance := by
  have long : Scalar.below (Scalar.whole 0) (total way) = true := by
    rw [Scalar.below_exact]
    exact Nat.cast_zero.trans_lt positive
  have zero : (Scalar.whole 0 : K) = 0 := Nat.cast_zero
  rw [pointAt?]
  dsimp only
  rw [long, zero]
  rfl

/-- **A walk along lines comes to a place.** -/
theorem pointAt?_lines [IsStrictOrderedRing K] (nonneg : ∀ i < count, 0 ≤ length i)
    (all : points.length = count + 1) (positive : 0 < upTo length count) (t : K) :
    ∃ i u p q, IsPlace length count (clampUnit t * upTo length count) i u ∧
      points[i]? = some p ∧ points[i + 1]? = some q ∧
      pointAt? (lines length points) t = some (p.towards q u) := by
  have size : (lines length points).length = count := by
    rw [length_lines, all, Nat.add_sub_cancel]
  have measured (i : Nat) (inside : i < (lines length points).length) :
      (lines length points)[i].length = length i := by
    rw [size] at inside
    rw [getElem_lines _ (by omega)]
    rfl
  have whole : total (lines length points) = upTo length count := by
    rw [total_eq measured, size]
  have drawn : lines length points ≠ [] := by
    intro none
    rw [none, List.length_nil] at size
    rw [← size, upTo_zero] at positive
    exact lt_irrefl 0 positive
  obtain ⟨from0, to1⟩ := Scalar.clampUnit_mem t
  obtain ⟨i, inside, reached, place⟩ := reach_place drawn measured (by rwa [size])
    (mul_nonneg from0 positive.le) (by rw [size]; exact mul_le_of_le_one_left positive.le to1)
  rw [size] at inside place
  refine ⟨i, _, points[i], points[i + 1], place, List.getElem?_eq_getElem _,
    List.getElem?_eq_getElem _, ?_⟩
  rw [pointAt?_of_pos (whole.symm ▸ positive), whole, reached, getElem_lines _ (by omega)]
  exact congrArg some (along_straight _ _ _ _)

/-! ## Division by zero -/

/-- A walk along lines without rounding, but with any values for divisions by zero. -/
def walk (atZero : K → K) (length : Nat → K) (points : List (Point K)) (t : K) :
    Option (Point K) :=
  letI := Scalar.exactBut atZero
  pointAt? (lines length points) t

/-- **No length of zero is divided by**: a walk does not depend on what that would give. -/
theorem walk_eq (atZero : K → K) (length : Nat → K) (points : List (Point K)) (t : K) :
    walk atZero length points t = pointAt? (lines length points) t := by
  have same (size : K) (p q : Point K) :
      @straight K (.exactBut atZero) size p q = straight size p q := by
    refine congrArg (Stretch.mk size _) (funext fun distance => ?_)
    show p.towards q (if Scalar.below (Scalar.whole 0) size then
        if size = 0 then atZero distance else distance / size else Scalar.whole 0) =
      p.towards q (if Scalar.below (Scalar.whole 0) size then distance / size else Scalar.whole 0)
    congr 1
    split
    · rename_i long
      rw [Scalar.below_exact] at long
      exact if_neg (Nat.cast_zero.symm.trans_lt long).ne'
    · rfl
  have ways : @lines K (.exactBut atZero) length points = lines length points := by
    unfold lines
    simp only [same]
  have search (way : List (Stretch K)) (target passed : K) :
      @reach K (.exactBut atZero) target passed way = reach target passed way := by
    induction way generalizing passed with
    | nil => rfl
    | cons s rest ih =>
        cases rest with
        | nil => rfl
        | cons next more =>
            exact congrArg (fun later => if Scalar.below (passed + s.length) target then later
              else some (s, target - passed)) (ih (passed + s.length))
  show @pointAt? K (.exactBut atZero) (@lines K (.exactBut atZero) length points) t = _
  rw [ways, @pointAt?.eq_1 K (.exactBut atZero), search, pointAt?]
  rfl

end Stretch

/-! ## Walks along paths -/

namespace Path

open Scalar (clampUnit)
open Stretch (upTo walk IsPlace)

attribute [local instance] Scalar.exact

variable [IsStrictOrderedRing K]

/-- **Walking along straight lines.**  A path through points has a point at every value if it draws a
line, that is if there are two points, and else at none; its way is made of the lines between its
stops.  Without rounding, whatever the lengths of the lines, if not all of them are zero: the walk
comes to the first line that does not end before the part of the whole length asked for, and the
place is within that line; nothing is divided by zero; up to zero the walk stays at the start, and
from one on it is at the end of the last line that has a length.  That is the end of the path if
lines without length go nowhere. -/
theorem polyline_walks (ps : List (Point Float)) (closed : Bool) :
    (∀ t, ((ofPoints ps closed).pointAt? t).isSome = true ↔ (ofPoints ps closed).segments ≠ []) ∧
    ((ofPoints ps closed).segments ≠ [] ↔ 2 ≤ ps.length) ∧
    (ofPoints ps closed).segments =
      List.zipWith .line (stops ps closed) (stops ps closed).tail ∧
    (ofPoints ps closed).way = Stretch.lines (ofPoints ps closed).lengthAt (stops ps closed) ∧
    ∀ (value : Float → K) (length : Nat → K) (atZero : K → K) (t : K),
      let count := (ofPoints ps closed).segments.length
      let points := (stops ps closed).map (Point.map value)
      let walked := walk atZero length points t
      (∀ i < count, 0 ≤ length i) → 0 < upTo length count →
        (∃ i u p q, IsPlace length count (clampUnit t * upTo length count) i u ∧
          points[i]? = some p ∧ points[i + 1]? = some q ∧ walked = some (p.towards q u)) ∧
        (t ≤ 0 → walked = points.head?) ∧
        (1 ≤ t → (∃ i < count, 0 < length i ∧ (∀ j < count, i < j → length j = 0) ∧
          walked = points[i + 1]?) ∧
          ((∀ i < count, length i = 0 → points[i]? = points[i + 1]?) →
            walked = points.getLast?)) := by
  refine ⟨isSome_pointAt?_iff _, segments_ofPoints_ne_nil, segments_ofPoints ps closed,
    way_ofPoints ps closed, fun value length atZero t => ?_⟩
  intro count points walked nonneg positive
  have drawn : 0 < count := by
    refine Nat.pos_of_ne_zero fun none => ?_
    rw [none, Stretch.upTo_zero] at positive
    exact lt_irrefl 0 positive
  have all : points.length = count + 1 := by
    have counted : count = (stops ps closed).length - 1 := length_segments_ofPoints
    have same : points.length = (stops ps closed).length := List.length_map _
    omega
  obtain ⟨i, u, p, q, place, here, next, reached⟩ :=
    Stretch.pointAt?_lines nonneg all positive t
  rw [← Stretch.walk_eq atZero] at reached
  refine ⟨⟨i, u, p, q, place, here, next, reached⟩, fun early => ?_, fun late => ?_⟩
  · rw [Scalar.clampUnit_of_nonpos early, zero_mul] at place
    obtain ⟨rfl, rfl⟩ := place.of_zero nonneg
    rw [Stretch.towards_zero] at reached
    rw [List.head?_eq_getElem?, here]
    exact reached
  · rw [Scalar.clampUnit_of_one_le late, one_mul] at place
    obtain ⟨long, rest, rfl⟩ := place.of_total nonneg positive
    rw [Stretch.towards_one] at reached
    refine ⟨⟨i, place.inside, long, rest, reached.trans next.symm⟩, fun still => ?_⟩
    have last : points.getLast? = points[count]? := by
      rw [List.getLast?_eq_getElem?, all, Nat.add_sub_cancel]
    have ended : points[i + 1]? = points[count]? :=
      Stretch.getElem?_eq_last (fun j known later => still j known (rest j known later))
        place.inside
    rw [last, ← ended, next]
    exact reached

/-- A triangle in which every corner is given twice. -/
def doubledCorners : List (Point Float) :=
  [⟨0.0, 0.0⟩, ⟨0.0, 0.0⟩, ⟨3.0, 4.0⟩, ⟨3.0, 4.0⟩, ⟨3.0, 0.0⟩, ⟨3.0, 0.0⟩]

/-- The lengths of its sides, with the closing one last. -/
def doubledLengths (i : Nat) : ℚ := [0, 5, 0, 4, 0, 3].getD i 0

/-- The theorem at this triangle, before its start, at a joint and beyond its end. -/
theorem polyline_walks_doubled :
    let points := (stops doubledCorners true).map (Point.map Number.toRat)
    (∀ i < 6, 0 ≤ doubledLengths i) ∧ 0 < upTo doubledLengths 6 ∧
      (∀ i < 6, doubledLengths i = 0 → points[i]? = points[i + 1]?) ∧
      walk (fun _ => 1) doubledLengths points (-1) = points[0]? ∧
      walk (fun _ => 1) doubledLengths points (3 / 4) = points[4]? ∧
      walk (fun _ => 1) doubledLengths points 2 = points[6]? := by
  intro points
  have ended : stops doubledCorners true = doubledCorners ++ [.mk 0.0 0.0] := by
    have open' : ((⟨3.0, 0.0⟩ : Point Float) == ⟨0.0, 0.0⟩) = false := by decide +kernel
    simp [stops, doubledCorners, open']
  have nonneg : ∀ i < 6, 0 ≤ doubledLengths i := by decide +kernel
  have positive : 0 < upTo doubledLengths 6 := by decide +kernel
  have still : ∀ i < 6, doubledLengths i = 0 → points[i]? = points[i + 1]? := by
    intro i known short
    have doubled : ∀ i < 6, doubledLengths i = 0 → i = 0 ∨ i = 2 ∨ i = 4 := by decide +kernel
    show ((stops doubledCorners true).map _)[i]? = ((stops doubledCorners true).map _)[i + 1]?
    rw [ended]
    obtain rfl | rfl | rfl := doubled i known short <;> rfl
  have count : (ofPoints doubledCorners true).segments.length = 6 := by
    rw [length_segments_ofPoints, ended]
    rfl
  have walks := (polyline_walks doubledCorners true).2.2.2.2 Number.toRat doubledLengths fun _ => 1
  simp only [count] at walks
  refine ⟨nonneg, positive, still, ?_, ?_, ?_⟩
  · rw [← List.head?_eq_getElem?]
    exact (walks (-1) nonneg positive).2.1 (by decide +kernel)
  · obtain ⟨⟨i, u, p, q, place, here, next, reached⟩, -⟩ := walks (3 / 4) nonneg positive
    have target : Scalar.clampUnit (3 / 4) * upTo doubledLengths 6 = 9 := by decide +kernel
    rw [target] at place
    have later : 2 < i := (place.first 2 (by decide)).1 (by decide +kernel)
    have earlier : ¬ 3 < i := fun more =>
      absurd ((place.first 3 (by decide)).2 more) (by decide +kernel)
    obtain rfl : i = 3 := by omega
    have before : upTo doubledLengths 3 = 5 := by decide +kernel
    have long : doubledLengths 3 = 4 := rfl
    have stop := place.reached
    rw [before, long] at stop
    obtain rfl : u = 1 := by linarith
    rw [Stretch.towards_one] at reached
    exact reached.trans next.symm
  · have last : points.getLast? = points[6]? := by
      rw [List.getLast?_eq_getElem?, List.length_map, ended]
      rfl
    rw [← last]
    exact ((walks 2 nonneg positive).2.2 (by decide +kernel)).2 still

end Path

end

end Infographic
