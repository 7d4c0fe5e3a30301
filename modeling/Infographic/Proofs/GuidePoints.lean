/-
# Infographic.Proofs.GuidePoints -- curved guides have a point at every value

A guide that is followed by length is a path that draws something.  Its image under a map draws
something too: only a run that is closed where it ends draws nothing, and the image of a place
that is no number is none either (`Path.isBlank_of_transform`).  A way of one stretch or more has
a point at every value, so a carrier on a curved guide always has a place to be
(`GuideForm.isSome_pointAt?`).
-/
import Infographic.Motion.Guide
import Infographic.Proofs.FloatFields

namespace Infographic

set_option autoImplicit false

open Markup (Document NodeId)

namespace Number

open Float.Model (UnpackedFloat Format)

variable {x y : Float}

/-! ## What is no number stays none -/

/-- No number is stored as such. -/
theorem isNaN_pack : (Float.ofModel (Float.Model.pack .notANumber)).isNaN = true := by
  decide +kernel

theorem isNaN_add_left (nan : x.isNaN = true) : (x + y).isNaN = true := by
  have sum : x + y = .ofModel (.pack (.add .binary64 x.toModel.unpack y.toModel.unpack)) := rfl
  rw [sum, isNaN_iff.1 nan]
  exact isNaN_pack

theorem isNaN_add_right (nan : y.isNaN = true) : (x + y).isNaN = true := by
  have sum : x + y = .ofModel (.pack (.add .binary64 x.toModel.unpack y.toModel.unpack)) := rfl
  rw [sum, isNaN_iff.1 nan]
  cases x.toModel.unpack <;> exact isNaN_pack

theorem isNaN_mul_right (nan : y.isNaN = true) : (x * y).isNaN = true := by
  have product : x * y = .ofModel (.pack (.mul .binary64 x.toModel.unpack y.toModel.unpack)) := rfl
  rw [product, isNaN_iff.1 nan]
  cases x.toModel.unpack <;> exact isNaN_pack

/-- A number is equal to itself. -/
theorem beq_self_iff : (x == x) = true ↔ x.isNaN = false := by
  have equal : (x == x) = x.toModel.unpack.beq x.toModel.unpack := rfl
  have nan : x.isNaN = x.toModel.unpack.isNaN := rfl
  rw [equal, nan]
  cases x.toModel.unpack with
  | notANumber => exact iff_of_false Bool.false_ne_true Bool.noConfusion
  | infinity sign => cases sign <;> exact iff_of_true rfl rfl
  | zero sign => exact iff_of_true rfl rfl
  | finite sign mantissa exponent positive =>
      refine iff_of_true ?_ rfl
      have level : (compare exponent exponent).then (compare mantissa mantissa) = .eq := by simp
      cases sign with
      | positive =>
          change (some ((compare exponent exponent).then (compare mantissa mantissa)) ==
            some .eq) = true
          rw [level]
          rfl
      | negative =>
          change (some ((compare exponent exponent).then (compare mantissa mantissa)).swap ==
            some .eq) = true
          rw [level]
          rfl

end Number

open Number

/-! ## Images of points -/

namespace Point

theorem beq_self_iff {p : Point Float} :
    (p == p) = true ↔ p.x.isNaN = false ∧ p.y.isNaN = false := by
  have parts : (p == p) = (p.x == p.x && p.y == p.y) := rfl
  rw [parts, Bool.and_eq_true, Number.beq_self_iff, Number.beq_self_iff]

/-- A point whose image is equal to itself is equal to itself. -/
theorem beq_self_of_apply {m : Matrix Float} {p : Point Float}
    (image : (m.apply p == m.apply p) = true) : (p == p) = true := by
  obtain ⟨number, -⟩ := beq_self_iff.1 image
  have x : (m.apply p).x = m.a * p.x + m.c * p.y + m.e := rfl
  rw [x] at number
  rw [beq_self_iff, ← Bool.not_eq_true, ← Bool.not_eq_true]
  constructor
  · intro nan
    have sum : (m.a * p.x + m.c * p.y + m.e).isNaN = true :=
      isNaN_add_left (isNaN_add_left (isNaN_mul_right nan))
    rw [sum] at number
    contradiction
  · intro nan
    have sum : (m.a * p.x + m.c * p.y + m.e).isNaN = true :=
      isNaN_add_left (isNaN_add_right (isNaN_mul_right nan))
    rw [sum] at number
    contradiction

end Point

/-! ## Images of paths -/

namespace Path

variable {m : Matrix Float} {path : Path}

/-- Where the image draws nothing the path draws nothing, if the run can be closed without a line
in the path whenever it can in the image. -/
theorem segmentsFrom_of_transform {start here start' here' : Point Float}
    (closed : (here' == start') = true → (here == start) = true)
    (blank : segmentsFrom start' here' (path.transform m) = []) :
    segmentsFrom start here path = [] := by
  induction path generalizing start here start' here' with
  | nil => rfl
  | cons element rest ih =>
      cases element with
      | move p => exact ih Point.beq_self_of_apply blank
      | line p => simp [transform, PathElement.transform, segmentsFrom] at blank
      | quadratic c p => simp [transform, PathElement.transform, segmentsFrom] at blank
      | cubic c d p => simp [transform, PathElement.transform, segmentsFrom] at blank
      | close =>
          have image : transform m (.close :: rest) = .close :: transform m rest := rfl
          rw [image, segmentsFrom] at blank
          cases ended : here' == start' with
          | false => simp [ended] at blank
          | true =>
              rw [ended, if_pos rfl] at blank
              rw [segmentsFrom, if_pos (closed ended)]
              exact ih closed blank

/-- **The image of a path that draws something draws something.** -/
theorem isBlank_of_transform (blank : (path.transform m).isBlank = true) :
    path.isBlank = true := by
  rw [isBlank, List.isEmpty_iff] at blank ⊢
  exact segmentsFrom_of_transform id blank

end Path

/-! ## Points of ways -/

namespace Stretch

variable {α : Type} [Scalar α]

theorem isSome_reach {way : List (Stretch α)} (some_stretch : way ≠ []) (target passed : α) :
    (reach target passed way).isSome = true := by
  induction way generalizing passed with
  | nil => contradiction
  | cons s rest ih =>
      cases rest with
      | nil => rfl
      | cons next more =>
          rw [reach]
          · split
            · exact ih (by simp) _
            · rfl
          · simp

/-- A way of one stretch or more has a point at every value. -/
theorem isSome_pointAt? {way : List (Stretch α)} (some_stretch : way ≠ []) (t : α) :
    (pointAt? way t).isSome = true := by
  have first : way.head?.isSome = true := by simpa using some_stretch
  unfold pointAt?
  dsimp only
  split
  · rwa [Option.isSome_map]
  · rw [Option.isSome_map]
    exact isSome_reach some_stretch _ _

end Stretch

/-! ## Points of guides -/

theorem Path.isSome_pointAt? {path : Path} (drawn : path.isBlank = false) (t : Float) :
    (path.pointAt? t).isSome = true := by
  refine Stretch.isSome_pointAt? (fun none => ?_) t
  have empty : path.segments = [] := List.map_eq_nil_iff.1 none
  simp [isBlank, empty] at drawn

/-- The outline of an element draws something. -/
theorem Shape.isBlank_of_outline? {d : Document} {id : NodeId} {path : Path}
    (found : outline? d id = some path) : path.isBlank = false := by
  simp only [outline?, Option.bind_eq_bind, Option.bind_eq_some_iff] at found
  obtain ⟨tag, -, plain, -, drawn⟩ := found
  split at drawn
  · contradiction
  · rename_i some_segment
    obtain rfl := Option.some.inj drawn
    rw [← Bool.not_eq_true]
    intro blank
    apply some_segment
    split at blank
    · exact blank
    · exact Path.isBlank_of_transform blank

namespace GuideForm

/-- A form that was found for an element draws something if it is followed by length. -/
def Drawn : GuideForm → Prop
  | .across _ => True
  | .along path => path.isBlank = false

theorem drawn_of_ofElement? {d : Document} {id : NodeId} {form : GuideForm}
    (found : ofElement? d id = some form) : form.Drawn := by
  unfold ofElement? at found
  split at found
  · rename_i path outline
    obtain rfl := Option.some.inj found
    exact Shape.isBlank_of_outline? outline
  · obtain ⟨box, -, rfl⟩ := Option.map_eq_some_iff.1 found
    trivial

/-- **A form that was found for an element has a point at every value.** -/
theorem isSome_pointAt? {form : GuideForm} (drawn : form.Drawn) (t : Float) :
    (form.pointAt? t).isSome = true := by
  cases form with
  | across box => rfl
  | along path => exact Path.isSome_pointAt? drawn t

end GuideForm

namespace Guide

/-- Every form that was found for a guide draws something. -/
def Drawn (g : Guide) : Prop :=
  ∀ form, g.form? = some form → form.Drawn

theorem drawn_named (name : String) : (named name).Drawn := by
  intro form found
  simp [named, form?] at found

/-- A guide that is looked for is still one that draws something. -/
theorem Drawn.settle {g : Guide} (drawn : g.Drawn) (d : Document) (names : Binding.NameTable) :
    (g.settle d names).Drawn := by
  unfold Guide.settle
  split
  · exact drawn
  · intro form found
    have looked : (names.find? g.name).bind (GuideForm.ofElement? d) = some form := by
      simpa [form?] using found
    obtain ⟨element, -, here⟩ := Option.bind_eq_some_iff.1 looked
    exact GuideForm.drawn_of_ofElement? here

/-- A curved guide has an offset at every value. -/
theorem Drawn.offset? {g : Guide} (drawn : g.Drawn) (curved : g.isCurved = true) (t : Float)
    (origin : Point Float) : ∃ offset, g.offset? t origin = some offset := by
  obtain ⟨form, found⟩ : ∃ form, g.form? = some form := by
    cases found : g.form? with
    | none => simp [isCurved, found] at curved
    | some form => exact ⟨form, rfl⟩
  obtain ⟨p, place⟩ := Option.isSome_iff_exists.1 (GuideForm.isSome_pointAt? (drawn form found) t)
  exact ⟨p - origin, by simp [Guide.offset?, found, place]⟩

end Guide

end Infographic
