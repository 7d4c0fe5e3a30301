/-
# Infographic.Proofs.EnclosingBoxes -- the box of a group is around its parts

The box of a group is the box of the boxes of its children, each seen through the transform of the
child.  Without rounding it holds whatever a box of a child holds, where the transform puts it
(`Shape.holds_child`); so it holds the boxes of all shapes below the group, mapped by the
transforms on the way up, the innermost first (`Shape.group_boxes_enclose`).  Shapes in a text or in
another shape are not seen by the group and have no part in this.
-/
import Infographic.Proofs.DocumentOfTree
import Infographic.Proofs.LeastBoxes
import Infographic.Proofs.TransformReading
import Infographic.Proofs.TreeHeight
import Infographic.Shape.Extent

namespace Infographic

set_option autoImplicit false

/-! ## Figures of other numbers -/

section

variable {α β : Type}

/-- A box with its numbers read otherwise. -/
def Box.map (value : α → β) (b : Box α) : Box β :=
  ⟨value b.x, value b.y, value b.width, value b.height⟩

namespace Figure

mutual

/-- A figure with its numbers read otherwise. -/
def map (value : α → β) : Figure α → Figure β
  | .shape box => .shape (box.map (Box.map value))
  | .mapped m figure => .mapped (m.map value) (figure.map value)
  | .group parts => .group (mapParts value parts)

/-- Some figures with their numbers read otherwise. -/
def mapParts (value : α → β) : List (Figure α) → List (Figure β)
  | [] => []
  | figure :: rest => figure.map value :: mapParts value rest

end

theorem mapParts_eq (value : α → β) (parts : List (Figure α)) :
    mapParts value parts = parts.map (map value) := by
  induction parts with
  | nil => rw [mapParts, List.map_nil]
  | cons figure rest ih => rw [mapParts, ih, List.map_cons]

mutual

theorem map_id : (figure : Figure α) → figure.map id = figure
  | .shape box => by
      have same : box.map (Box.map id) = box := by cases box <;> rfl
      rw [map, same]
  | .mapped m figure => by
      rw [map, map_id figure]
      rfl
  | .group parts => by rw [map, mapParts_id parts]

theorem mapParts_id : (parts : List (Figure α)) → mapParts id parts = parts
  | [] => by rw [mapParts]
  | figure :: rest => by rw [mapParts, map_id figure, mapParts_id rest]

end

end Figure

end

namespace Figure

variable {α : Type} [Scalar α]

theorem mem_boxes {box : Box α} {parts : List (Figure α)} :
    box ∈ boxes parts ↔ ∃ figure ∈ parts, figure.box? = some box := by
  induction parts with
  | nil => simp [boxes]
  | cons figure rest ih =>
      rw [boxes]
      cases found : figure.box? with
      | none => simp [found, ih]
      | some first => simp [found, ih, eq_comm]

end Figure

namespace Shape

open Markup (Document NodeId)
open Markup.Document (Height WellFormed ofTree)

variable {d : Document} {n c g s : NodeId}

/-! ## Groups -/

/-- An element whose box is that of its children. -/
def IsGroup (d : Document) (n : NodeId) : Prop :=
  ∃ tag, d.tag? n = some tag ∧ shapeBox? d n tag = none

/-- An element that is no group, with its box. -/
def IsShape (d : Document) (n : NodeId) (box : Box Float) : Prop :=
  ∃ tag, d.tag? n = some tag ∧ shapeBox? d n tag = some (some box)

/-- The elements on the way from a group down to an element below it, all but the last one being
groups. -/
inductive Leads (d : Document) : NodeId → List NodeId → NodeId → Prop
  | child {g s : NodeId} (group : IsGroup d g) (child : s ∈ d.elementChildren g) : Leads d g [s] s
  | under {g c s : NodeId} {way : List NodeId} (group : IsGroup d g)
      (child : c ∈ d.elementChildren g) (later : Leads d c way s) : Leads d g (c :: way) s

/-! ## Figures -/

/-- More fuel than the height makes no other figure. -/
theorem figureFrom_eq {height : NodeId → Nat} (high : Height d height) {fuel fuel' : Nat}
    (enough : height n < fuel) (enough' : height n < fuel') :
    figureFrom d fuel n = figureFrom d fuel' n := by
  induction fuel generalizing n fuel' with
  | zero => exact absurd enough (Nat.not_lt_zero _)
  | succ fuel ih =>
      cases fuel' with
      | zero => exact absurd enough' (Nat.not_lt_zero _)
      | succ fuel' =>
          have below : (d.elementChildren n).map (fun c =>
                Figure.mapped (ownTransform d c) (figureFrom d fuel c)) =
              (d.elementChildren n).map fun c =>
                .mapped (ownTransform d c) (figureFrom d fuel' c) := by
            refine List.map_congr_left fun c child => ?_
            have less := high.lt_of_child n c (List.mem_filter.1 child).1
            have same : figureFrom d fuel c = figureFrom d fuel' c := ih (by omega) (by omega)
            rw [same]
          rw [figureFrom, figureFrom, below]

/-- The figure of a group: those of its children, each seen through its own transform. -/
theorem figure_of_isGroup (whole : d.WellFormed) (group : IsGroup d n) :
    figure d n = .group ((d.elementChildren n).map fun c =>
      .mapped (ownTransform d c) (figure d c)) := by
  obtain ⟨height, high⟩ := whole.exists_height
  obtain ⟨tag, tagged, none⟩ := group
  have below : (d.elementChildren n).map (fun c =>
        Figure.mapped (ownTransform d c) (figureFrom d d.nodeCount c)) =
      (d.elementChildren n).map fun c => .mapped (ownTransform d c) (figure d c) := by
    refine List.map_congr_left fun c child => ?_
    have low := high.lt_nodeCount c
      (Markup.Document.lt_of_isElement (List.mem_filter.1 child).2)
    rw [figure, figureFrom_eq high low (Nat.lt_succ_of_lt low)]
  rw [figure, figureFrom, tagged]
  dsimp only
  rw [none, below]

theorem figure_of_isShape {box : Box Float} (shape : IsShape d n box) :
    figure d n = .shape (some box) := by
  obtain ⟨tag, tagged, found⟩ := shape
  rw [figure, figureFrom, tagged]
  dsimp only
  rw [found]

/-! ## Boxes without rounding -/

/-- The box of an element, computed with its numbers read as some others. -/
def boxOver? {α : Type} [Scalar α] (value : Float → α) (d : Document) (n : NodeId) :
    Option (Box α) :=
  ((figure d n).map value).box?

/-- Over floats it is the box of the element. -/
theorem boxOver?_id (d : Document) (n : NodeId) : boxOver? id d n = box? d n := by
  rw [boxOver?, Figure.map_id, box?]

section

variable {K : Type} [Field K] [LinearOrder K]

attribute [local instance] Scalar.exact

/-- Where the transforms of some elements put a point, the last one first. -/
def seen (value : Float → K) (d : Document) (way : List NodeId) (p : Point K) : Point K :=
  way.foldr (fun c p => ((ownTransform d c).map value).apply p) p

variable [IsStrictOrderedRing K] {value : Float → K}

/-- **A group holds what the box of a child holds.** -/
theorem holds_child (whole : d.WellFormed) (group : IsGroup d g) (child : c ∈ d.elementChildren g)
    {inner : Box K} (boxed : boxOver? value d c = some inner) :
    ∃ outer, boxOver? value d g = some outer ∧ outer.Upright ∧
      ∀ p, inner.Holds p → outer.Holds (((ownTransform d c).map value).apply p) := by
  let m := (ownTransform d c).map value
  let parts := (d.elementChildren g).map fun c =>
    (Figure.mapped (ownTransform d c) (figure d c)).map value
  have shown : boxOver? value d g = Box.unionAll? (Figure.boxes parts) := by
    rw [boxOver?, figure_of_isGroup whole group, Figure.map, Figure.mapParts_eq, List.map_map,
      Figure.box?]
    rfl
  have upright : ∀ b ∈ Figure.boxes parts, b.Upright := by
    intro b member
    obtain ⟨figure, part, found⟩ := Figure.mem_boxes.1 member
    obtain ⟨n, -, rfl⟩ := List.mem_map.1 part
    rw [Figure.map, Figure.box?] at found
    obtain ⟨inner, -, rfl⟩ := Option.map_eq_some_iff.1 found
    exact (Box.isLeastBox_transform _ inner).upright
  have member : Box.transform m inner ∈ Figure.boxes parts := by
    refine Figure.mem_boxes.2 ⟨_, List.mem_map_of_mem child, ?_⟩
    rw [Figure.map, Figure.box?]
    exact Option.map_eq_some_iff.2 ⟨inner, boxed, rfl⟩
  obtain ⟨outer, joined, upright', within⟩ := Box.within_unionAll? upright member
  exact ⟨outer, shown.trans joined, upright', fun p inside =>
    within _ (Box.holds_transform m inside)⟩

/-- A group holds what the box of an element below it holds. -/
theorem Leads.holds {way : List NodeId} (path : Leads d g way s) (whole : d.WellFormed)
    {inner : Box K} (boxed : boxOver? value d s = some inner) :
    ∃ outer, boxOver? value d g = some outer ∧ outer.Upright ∧
      ∀ p, inner.Holds p → outer.Holds (seen value d way p) := by
  induction path with
  | child group child => exact holds_child whole group child boxed
  | under group child _ ih =>
      obtain ⟨middle, found, -, below⟩ := ih boxed
      obtain ⟨outer, found', upright, above⟩ := holds_child whole group child found
      exact ⟨outer, found', upright, fun p inside => above _ (below p inside)⟩

/-- **The box of a group is around its parts.**  For every shape below a group, with groups only on
the way, the group has a box, and it holds the corners of the box of the shape, and all between
them, where the transforms on the way put them.  The box of some points is the least one that holds
them, the box of two boxes is the least one around both, and the image of a box holds the image of
all that the box holds. -/
theorem group_boxes_enclose (whole : d.WellFormed) (value : Float → K) :
    (∀ g way s box, Leads d g way s → IsShape d s box →
      ∃ outer, boxOver? value d g = some outer ∧ outer.Upright ∧
        (∀ p ∈ (box.map value).corners, outer.Holds (seen value d way p)) ∧
        ∀ p, (box.map value).Holds p → outer.Holds (seen value d way p)) ∧
    (∀ n, boxOver? id d n = box? d n) ∧
    (∀ ps : List (Point K), Box.ofPoints? ps = none ↔ ps = []) ∧
    (∀ (ps : List (Point K)) (b : Box K), Box.ofPoints? ps = some b →
      (∀ p ∈ ps, b.Holds p) ∧ ∀ c : Box K, (∀ p ∈ ps, c.Holds p) → b.Within c) ∧
    (∀ b c : Box K, b.Within (b.union c) ∧ c.Within (b.union c) ∧
      ∀ a : Box K, b.Within a → c.Within a → (b.union c).Within a) ∧
    ∀ (m : Matrix K) (b : Box K) (p : Point K), b.Holds p → (b.transform m).Holds (m.apply p) := by
  refine ⟨fun g way s box path shape => ?_, boxOver?_id d, fun ps => ?_, fun ps b found => ?_,
    Box.least_union, fun m b p inside => Box.holds_transform m inside⟩
  · have boxed : boxOver? value d s = some (box.map value) := by
      rw [boxOver?, figure_of_isShape shape, Figure.map, Figure.box?, Option.map_some]
    obtain ⟨outer, found, upright, holds⟩ := path.holds whole boxed
    exact ⟨outer, found, upright, fun p corner => holds p (Box.holds_of_mem_corners corner), holds⟩
  · cases ps <;> simp [Box.ofPoints?]
  · have least := Box.isLeastBox_ofPoints? found
    exact ⟨least.holds, least.within⟩

/-- A mirrored rectangle in a group that is turned, in another group. -/
def turnedGroups : Markup.Tree :=
  .element "svg" []
    [.element "g" []
      [.element "g" [("transform", "matrix(0 -2 3 0 5 7)")]
        [.element "rect" [("x", "1"), ("y", "2"), ("width", "3"), ("height", "4"),
          ("transform", "scale(-1 1)")] []],
       .element "title" [] []]]

/-- The box of its rectangle. -/
def turnedBox : Box Float := ⟨1.0, 2.0, 3.0, 4.0⟩

/-- The theorem at this drawing: the corners of the rectangle span the whole box. -/
theorem group_boxes_enclose_turned :
    (ofTree turnedGroups).WellFormed ∧ Leads (ofTree turnedGroups) 1 [2, 3] 3 ∧
      IsShape (ofTree turnedGroups) 3 turnedBox ∧
      ∃ outer : Box ℚ, boxOver? Number.toRat (ofTree turnedGroups) 1 = some outer ∧
        (outer.x, outer.y, outer.width, outer.height) = (11, 9, 12, 6) ∧
        ∀ p ∈ (turnedBox.map Number.toRat).corners,
          outer.Holds (seen Number.toRat (ofTree turnedGroups) [2, 3] p) := by
  have whole := Markup.Document.wellFormed_ofTree turnedGroups
  have path : Leads (ofTree turnedGroups) 1 [2, 3] 3 :=
    .under ⟨"g", rfl, rfl⟩ (by decide +kernel) (.child ⟨"g", rfl, rfl⟩ (by decide +kernel))
  have shape : IsShape (ofTree turnedGroups) 3 turnedBox := ⟨"rect", rfl, by rfl⟩
  obtain ⟨outer, found, -, corners, -⟩ :=
    (group_boxes_enclose whole Number.toRat).1 1 [2, 3] 3 turnedBox path shape
  refine ⟨whole, path, shape, outer, found, ?_, corners⟩
  have computed : (boxOver? Number.toRat (ofTree turnedGroups) 1).map
      (fun b => (b.x, b.y, b.width, b.height)) = some (11, 9, 12, 6) := by decide +kernel
  rw [found] at computed
  exact Option.some.inj computed

end

end Shape

end Infographic
