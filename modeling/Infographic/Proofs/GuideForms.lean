/-
# Infographic.Proofs.GuideForms -- boxes and guides see few styles

Of all styles only the font size and the text anchor have a part in the box of an element.
Documents that agree on these two and on everything but styles have the same boxes and
outlines, so guides take the same forms in them.
-/
import Infographic.Motion.Guide
import Infographic.Proofs.Unstyled

namespace Infographic

set_option autoImplicit false

open Markup (Document NodeId)

/-- Documents that agree on everything but styles, and on the styles of texts. -/
structure SameForms (d d' : Document) : Prop where
  unstyled : d.unstyled = d'.unstyled
  fontSize : ∀ n, d.style? n "font-size" = d'.style? n "font-size"
  textAnchor : ∀ n, d.style? n "text-anchor" = d'.style? n "text-anchor"

namespace SameForms

variable {d d' : Document}

/-- An edit of another style changes no form. -/
theorem of_style {d d' : Document} {property : String} (unstyled : d.unstyled = d'.unstyled)
    (kept : ∀ n q, q ≠ property → d.style? n q = d'.style? n q)
    (size : property ≠ "font-size") (anchor : property ≠ "text-anchor") : SameForms d d' where
  unstyled := unstyled
  fontSize n := kept n _ (Ne.symm size)
  textAnchor n := kept n _ (Ne.symm anchor)

section

variable (same : SameForms d d')

include same

/-! ## The tree -/

theorem nodeCount : d.nodeCount = d'.nodeCount :=
  Document.nodeCount_of_unstyled same.unstyled

theorem tag? (n : NodeId) : d.tag? n = d'.tag? n := by
  rw [← Document.tag?_unstyled, same.unstyled, Document.tag?_unstyled]

theorem parent? (n : NodeId) : d.parent? n = d'.parent? n := by
  rw [← Document.parent?_unstyled, same.unstyled, Document.parent?_unstyled]

theorem text (n : NodeId) : d.text n = d'.text n := by
  rw [← Document.text_unstyled, same.unstyled, Document.text_unstyled]

theorem attribute? {name : String} (other : name ≠ "style") (n : NodeId) :
    d.attribute? n name = d'.attribute? n name := by
  rw [← Document.attribute?_unstyled other, same.unstyled, Document.attribute?_unstyled other]

theorem elementChildren (n : NodeId) : d.elementChildren n = d'.elementChildren n := by
  have elements : d.isElement = d'.isElement :=
    funext (Document.isElement_of_unstyled same.unstyled)
  rw [Document.elementChildren, ← Document.children_unstyled, same.unstyled,
    Document.children_unstyled, elements, Document.elementChildren]

theorem lineage (n : NodeId) : d.lineage n = d'.lineage n := by
  have upward (fuel : Nat) (n : NodeId) : d.lineageFrom fuel n = d'.lineageFrom fuel n := by
    induction fuel generalizing n with
    | zero => rfl
    | succ fuel ih =>
        rw [Document.lineageFrom, Document.lineageFrom, same.parent?]
        cases d'.parent? n with
        | none => rfl
        | some p => simp only [ih p]
  rw [Document.lineage, Document.lineage, same.nodeCount, upward]

/-! ## Attributes as numbers -/

theorem number {name : String} (other : name ≠ "style") (n : NodeId) :
    Shape.number d n name = Shape.number d' n name := by
  rw [Shape.number, Shape.number, same.attribute? other]

theorem place {x y : String} (first : x ≠ "style") (second : y ≠ "style") (n : NodeId) :
    Shape.place d n x y = Shape.place d' n x y := by
  rw [Shape.place, Shape.place, same.number first, same.number second]

theorem points? (n : NodeId) : Shape.points? d n = Shape.points? d' n := by
  rw [Shape.points?, Shape.points?, same.attribute? (by decide)]

theorem lineEnds (n : NodeId) : Shape.lineEnds d n = Shape.lineEnds d' n := by
  rw [Shape.lineEnds, Shape.lineEnds, same.place (by decide) (by decide),
    same.place (by decide) (by decide)]

theorem path? (n : NodeId) : Shape.path? d n = Shape.path? d' n := by
  rw [Shape.path?, Shape.path?, same.attribute? (by decide)]

theorem ownTransform (n : NodeId) : Shape.ownTransform d n = Shape.ownTransform d' n := by
  rw [Shape.ownTransform, Shape.ownTransform, same.attribute? (by decide)]

/-! ## Texts -/

theorem textPlace (n : NodeId) : Shape.textPlace d n = Shape.textPlace d' n := by
  have outer : (d.parent? n).filter (fun p => d.tag? p == some "text") =
      (d'.parent? n).filter (fun p => d'.tag? p == some "text") := by
    rw [same.parent?, funext same.tag?]
  have first {name : String} (other : name ≠ "style") (n : NodeId) :
      Shape.firstNumber? d n name = Shape.firstNumber? d' n name := by
    rw [Shape.firstNumber?, Shape.firstNumber?, same.attribute? other]
  have x (n : NodeId) : Shape.firstNumber? d n "x" = Shape.firstNumber? d' n "x" :=
    first (by decide) n
  have y (n : NodeId) : Shape.firstNumber? d n "y" = Shape.firstNumber? d' n "y" :=
    first (by decide) n
  unfold Shape.textPlace
  simp only [outer, x, y]

theorem size (n : NodeId) : Shape.fontSize d n = Shape.fontSize d' n := by
  have own (n : NodeId) : Shape.fontSize? d n = Shape.fontSize? d' n := by
    rw [Shape.fontSize?, Shape.fontSize?, same.fontSize, same.attribute? (by decide)]
  rw [Shape.fontSize, Shape.fontSize, same.lineage, funext own]

theorem textBox (n : NodeId) : Shape.textBox d n = Shape.textBox d' n := by
  unfold Shape.textBox
  simp only [same.size, same.text, same.textPlace, same.textAnchor,
    same.attribute? (show "text-anchor" ≠ "style" by decide)]

/-! ## Elements -/

theorem shapeBox? (n : NodeId) (tag : String) :
    Shape.shapeBox? d n tag = Shape.shapeBox? d' n tag := by
  unfold Shape.shapeBox?
  simp only [ne_eq, String.reduceEq, not_false_eq_true, same.number, same.place, same.lineEnds,
    same.points?, same.path?, same.textBox]

theorem box? (n : NodeId) : Shape.box? d n = Shape.box? d' n := by
  have figures (fuel : Nat) (n : NodeId) :
      Shape.figureFrom d fuel n = Shape.figureFrom d' fuel n := by
    induction fuel generalizing n with
    | zero => rfl
    | succ fuel ih =>
        simp only [Shape.figureFrom, same.tag?, same.shapeBox?, same.elementChildren,
          same.ownTransform, ih]
  rw [Shape.box?, Shape.box?, Shape.figure, Shape.figure, same.nodeCount, figures]

theorem outline? (n : NodeId) : Shape.outline? d n = Shape.outline? d' n := by
  have plain (tag : String) : Shape.plainOutline? d n tag = Shape.plainOutline? d' n tag := by
    unfold Shape.plainOutline?
    simp only [ne_eq, String.reduceEq, not_false_eq_true, same.number, same.place, same.lineEnds,
      same.points?, same.path?]
  unfold Shape.outline?
  simp only [same.tag?, plain, same.ownTransform]

/-- Guides take the same forms. -/
theorem ofElement? (n : NodeId) : GuideForm.ofElement? d n = GuideForm.ofElement? d' n := by
  rw [GuideForm.ofElement?, GuideForm.ofElement?, same.outline?, same.box?, same.ownTransform]

end

end SameForms

end Infographic
