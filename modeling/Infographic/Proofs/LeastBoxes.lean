/-
# Infographic.Proofs.LeastBoxes -- the least box that holds some points

A box holds the points between its corners.  Without rounding the box of some points holds them all,
and any other box that does holds what it holds (`least_ofPoints`).  So the box of two boxes is the
least one around both (`least_union`).  An affine map takes what is between two points on an axis to
what is between their images, so a box that holds the images of the corners of another one holds the
image of everything in it (`holds_apply`), whether the map turns, skews, mirrors or flattens it.
-/
import Mathlib.Algebra.Order.Group.Pointwise.Interval
import Mathlib.Order.Interval.Set.UnorderedInterval
import Mathlib.Tactic.Ring
import Infographic.Geometry.Box
import Infographic.Proofs.ExactScalar

namespace Infographic.Box

set_option autoImplicit false

variable {K : Type} [Field K] [LinearOrder K]

/-! ## Points of boxes -/

/-- A point is between the corners of a box. -/
def Holds (b : Box K) (p : Point K) : Prop :=
  p.x ∈ Set.uIcc b.x (b.x + b.width) ∧ p.y ∈ Set.uIcc b.y (b.y + b.height)

/-- All points of one box are points of another. -/
def Within (b c : Box K) : Prop := ∀ p, b.Holds p → c.Holds p

/-- A box whose least corner is the least one. -/
def Upright (b : Box K) : Prop := 0 ≤ b.width ∧ 0 ≤ b.height

section

attribute [local instance] Scalar.exact

variable {b c : Box K} {p q : Point K} {ps : List (Point K)}

theorem mem_corners : p ∈ b.corners ↔
    (p.x = b.x ∨ p.x = b.x + b.width) ∧ (p.y = b.y ∨ p.y = b.y + b.height) := by
  obtain ⟨x, y⟩ := p
  simp only [corners, low, otherCorners, List.mem_cons, List.not_mem_nil, or_false, Point.mk.injEq]
  tauto

/-- A box holds its corners. -/
theorem holds_of_mem_corners (corner : p ∈ b.corners) : b.Holds p := by
  obtain ⟨x, y⟩ := mem_corners.1 corner
  constructor
  · rcases x with x | x <;> simp [x]
  · rcases y with y | y <;> simp [y]

/-- What holds the corners of a box holds all of it. -/
theorem within_of_corners (holds : ∀ p ∈ b.corners, c.Holds p) : b.Within c := by
  rintro ⟨x, y⟩ ⟨inX, inY⟩
  have first := holds ⟨b.x, b.y⟩ (mem_corners.2 ⟨.inl rfl, .inl rfl⟩)
  have last := holds ⟨b.x + b.width, b.y + b.height⟩ (mem_corners.2 ⟨.inr rfl, .inr rfl⟩)
  exact ⟨Set.uIcc_subset_uIcc first.1 last.1 inX, Set.uIcc_subset_uIcc first.2 last.2 inY⟩

/-! ## Least and greatest coordinates -/

/-- The values of a coordinate on some points. -/
def values (f : Point K → K) (ps : List (Point K)) : Set K := {v | ∃ p ∈ ps, f p = v}

omit [Field K] [LinearOrder K] in
theorem values_concat (f : Point K → K) (ps : List (Point K)) (p : Point K) :
    values f (ps ++ [p]) = insert (f p) (values f ps) := by
  ext v
  simp [values, or_and_right, exists_or, or_comm, eq_comm]

/-- Two corners have the least and the greatest coordinates of some points. -/
structure Spans (ps : List (Point K)) (low high : Point K) : Prop where
  left : IsLeast (values Point.x ps) low.x
  top : IsLeast (values Point.y ps) low.y
  right : IsGreatest (values Point.x ps) high.x
  bottom : IsGreatest (values Point.y ps) high.y

namespace Spans

variable {low high : Point K}

omit [Field K] in
theorem single (p : Point K) : Spans [p] p p := by
  have one (f : Point K → K) : values f [p] = {f p} := by
    ext v
    simp [values, eq_comm]
  constructor <;> simp [one]

omit [Field K] in
/-- One more point widens the range as far as needed. -/
theorem concat (spans : Spans ps low high) (p : Point K) :
    Spans (ps ++ [p]) ⟨min p.x low.x, min p.y low.y⟩ ⟨max p.x high.x, max p.y high.y⟩ := by
  constructor <;> rw [values_concat]
  · exact spans.left.insert p.x
  · exact spans.top.insert p.y
  · exact spans.right.insert p.x
  · exact spans.bottom.insert p.y

end Spans

theorem spans_spread (first : Point K) (others : List (Point K)) :
    Spans (first :: others) (spread first others).1 (spread first others).2 := by
  have run (others seen : List (Point K)) (ends : Point K × Point K)
      (spans : Spans seen ends.1 ends.2) :
      let reached := others.foldl (fun ends p =>
        ((⟨Scalar.lesser ends.1.x p.x, Scalar.lesser ends.1.y p.y⟩,
          ⟨Scalar.greater ends.2.x p.x, Scalar.greater ends.2.y p.y⟩) : Point K × Point K)) ends
      Spans (seen ++ others) reached.1 reached.2 := by
    induction others generalizing seen ends with
    | nil => simpa using spans
    | cons p rest ih =>
        rw [List.append_cons]
        refine ih _ _ ?_
        simp only [Scalar.lesser_exact, Scalar.greater_exact, max_comm _ p.x, max_comm _ p.y]
        exact spans.concat p
  exact run others [first] (first, first) (.single first)

/-! ## The box of some points -/

/-- The least box that holds some points. -/
structure IsLeastBox (b : Box K) (ps : List (Point K)) : Prop where
  upright : b.Upright
  holds : ∀ p ∈ ps, b.Holds p
  within : ∀ c : Box K, (∀ p ∈ ps, c.Holds p) → b.Within c

theorem holds_between {low high : Point K} :
    (between low high).Holds p ↔ p.x ∈ Set.uIcc low.x high.x ∧ p.y ∈ Set.uIcc low.y high.y := by
  simp [Holds, between]

variable [IsStrictOrderedRing K]

theorem Spans.isLeastBox {low high : Point K} (spans : Spans ps low high) :
    (between low high).IsLeastBox ps where
  upright := by
    obtain ⟨p, member, here⟩ := spans.left.1
    obtain ⟨q, member', here'⟩ := spans.top.1
    have width : low.x ≤ high.x := here ▸ spans.right.2 ⟨p, member, rfl⟩
    have height : low.y ≤ high.y := here' ▸ spans.bottom.2 ⟨q, member', rfl⟩
    exact ⟨sub_nonneg.2 width, sub_nonneg.2 height⟩
  holds p member := by
    refine holds_between.2 ⟨Set.Icc_subset_uIcc ⟨?_, ?_⟩, Set.Icc_subset_uIcc ⟨?_, ?_⟩⟩
    · exact spans.left.2 ⟨p, member, rfl⟩
    · exact spans.right.2 ⟨p, member, rfl⟩
    · exact spans.top.2 ⟨p, member, rfl⟩
    · exact spans.bottom.2 ⟨p, member, rfl⟩
  within c holds := by
    -- each side of the box goes through one of the points
    have side {f : Point K → K} {s : Set K} {v : K} (inside : ∀ p ∈ ps, f p ∈ s)
        (met : v ∈ values f ps) : v ∈ s := by
      obtain ⟨p, member, rfl⟩ := met
      exact inside p member
    have alongX := fun p member => (holds p member).1
    have alongY := fun p member => (holds p member).2
    intro p inside
    obtain ⟨inX, inY⟩ := holds_between.1 inside
    exact ⟨Set.uIcc_subset_uIcc (side alongX spans.left.1) (side alongX spans.right.1) inX,
      Set.uIcc_subset_uIcc (side alongY spans.top.1) (side alongY spans.bottom.1) inY⟩

/-- **The box of some points is the least one that holds them.** -/
theorem isLeastBox_ofSpread (first : Point K) (others : List (Point K)) :
    (ofSpread first others).IsLeastBox (first :: others) :=
  (spans_spread first others).isLeastBox

theorem isLeastBox_ofPoints? (found : ofPoints? ps = some b) : b.IsLeastBox ps := by
  cases ps with
  | nil => cases found
  | cons first others =>
      obtain rfl := Option.some.inj found
      exact isLeastBox_ofSpread first others

/-! ## The box of some boxes -/

theorem isLeastBox_union (b c : Box K) : (union b c).IsLeastBox (b.corners ++ c.corners) :=
  isLeastBox_ofSpread b.low (b.otherCorners ++ c.corners)

/-- **The box of two boxes is the least one around both.** -/
theorem least_union (b c : Box K) :
    b.Within (union b c) ∧ c.Within (union b c) ∧
      ∀ a : Box K, b.Within a → c.Within a → (union b c).Within a := by
  have least := isLeastBox_union b c
  refine ⟨within_of_corners fun p corner => ?_, within_of_corners fun p corner => ?_,
    fun a first second => least.within a fun p corner => ?_⟩
  · exact least.holds p (List.mem_append_left _ corner)
  · exact least.holds p (List.mem_append_right _ corner)
  · rcases List.mem_append.1 corner with corner | corner
    · exact first p (holds_of_mem_corners corner)
    · exact second p (holds_of_mem_corners corner)

/-- Joining boxes one after the other keeps what was held and takes in the others. -/
theorem within_foldl_union (bs : List (Box K)) (upright : b.Upright) :
    (bs.foldl union b).Upright ∧ b.Within (bs.foldl union b) ∧
      ∀ c ∈ bs, c.Within (bs.foldl union b) := by
  induction bs generalizing b with
  | nil => exact ⟨upright, fun _ inside => inside, fun c member => by cases member⟩
  | cons first rest ih =>
      obtain ⟨kept, taken, -⟩ := least_union b first
      obtain ⟨upright', onward, others⟩ := ih (isLeastBox_union b first).upright
      refine ⟨upright', fun p inside => onward p (kept p inside), fun c member => ?_⟩
      rcases List.mem_cons.1 member with rfl | later
      · exact fun p inside => onward p (taken p inside)
      · exact others c later

theorem within_unionAll? {bs : List (Box K)} (upright : ∀ b ∈ bs, b.Upright) (member : b ∈ bs) :
    ∃ all, unionAll? bs = some all ∧ all.Upright ∧ b.Within all := by
  cases bs with
  | nil => cases member
  | cons first rest =>
      obtain ⟨upright', first', others⟩ :=
        within_foldl_union rest (upright first List.mem_cons_self)
      refine ⟨_, rfl, upright', ?_⟩
      rcases List.mem_cons.1 member with rfl | later
      · exact first'
      · exact others b later

/-! ## Images of boxes -/

/-- What is between two numbers is taken between their images. -/
theorem line_mem {x u v : K} (k r : K) (between : x ∈ Set.uIcc u v) :
    k * x + r ∈ Set.uIcc (k * u + r) (k * v + r) := by
  have scaled : k * x ∈ Set.uIcc (k * u) (k * v) := by
    rw [← Set.image_const_mul_uIcc]
    exact Set.mem_image_of_mem _ between
  rw [← Set.image_add_const_uIcc]
  exact Set.mem_image_of_mem (· + r) scaled

/-- One coordinate of an affine map is within the range that it has at the corners. -/
theorem plane_mem {x u v y s t low high : K} (k l r : K) (inX : x ∈ Set.uIcc u v)
    (inY : y ∈ Set.uIcc s t)
    (corners : ∀ x' ∈ [u, v], ∀ y' ∈ [s, t], k * x' + l * y' + r ∈ Set.uIcc low high) :
    k * x + l * y + r ∈ Set.uIcc low high := by
  have edge (y' : K) (here : y' ∈ [s, t]) : k * x + l * y' + r ∈ Set.uIcc low high := by
    have along := line_mem k (l * y' + r) inX
    simp only [← add_assoc] at along
    exact Set.uIcc_subset_uIcc (corners u (by simp) y' here) (corners v (by simp) y' here) along
  have across := line_mem l (k * x + r) inY
  have order (y' : K) : l * y' + (k * x + r) = k * x + l * y' + r := by ring
  simp only [order] at across
  exact Set.uIcc_subset_uIcc (edge s (by simp)) (edge t (by simp)) across

/-- **A box around the images of the corners is one around the image of the box.** -/
theorem holds_apply {m : Matrix K} (images : ∀ q ∈ b.corners, c.Holds (m.apply q))
    (inside : b.Holds p) : c.Holds (m.apply p) := by
  have corner (x' : K) (inX : x' ∈ [b.x, b.x + b.width]) (y' : K)
      (inY : y' ∈ [b.y, b.y + b.height]) : c.Holds (m.apply ⟨x', y'⟩) := by
    refine images ⟨x', y'⟩ (mem_corners.2 ?_)
    simpa using And.intro inX inY
  exact ⟨plane_mem m.a m.c m.e inside.1 inside.2 fun x' inX y' inY => (corner x' inX y' inY).1,
    plane_mem m.b m.d m.f inside.1 inside.2 fun x' inX y' inY => (corner x' inX y' inY).2⟩

theorem isLeastBox_transform (m : Matrix K) (b : Box K) :
    (transform m b).IsLeastBox (b.corners.map m.apply) :=
  isLeastBox_ofSpread (m.apply b.low) (b.otherCorners.map m.apply)

theorem holds_transform (m : Matrix K) (inside : b.Holds p) : (transform m b).Holds (m.apply p) :=
  holds_apply (fun _ corner =>
    (isLeastBox_transform m b).holds _ (List.mem_map_of_mem corner)) inside

end

end Infographic.Box
