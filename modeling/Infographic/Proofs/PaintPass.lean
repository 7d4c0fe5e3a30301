/-
# Infographic.Proofs.PaintPass -- what paint writes

A kind of paint that the table drives writes the property of that kind, and a kind that it
does not drive writes nothing.  So a pass over all painted elements is a list of writes
(`PaintBinding.foldl_apply_eq`), each to a place of its own (`PaintBinding.nodup_cells`), and
after it a property holds what the table says, or else what was there before
(`PaintBinding.foldl_apply_frame`).
-/
import Infographic.Proofs.StyleValues
import Infographic.Proofs.StyleWrites
import Mathlib.Data.List.Nodup

namespace Infographic.Binding

set_option autoImplicit false

open Markup (Document NodeId CleanDeclaration StyleWrite)
open Markup.Document (shows_putStyles style?_putStyles unstyled_putStyles)

/-- Different kinds write different properties. -/
theorem PaintKind.property_inj {kind other : PaintKind} (same : kind.property = other.property) :
    kind = other := by
  revert same
  cases kind <;> cases other <;> simp [property]

/-- No kind writes any other property. -/
theorem PaintKind.property_ne {q : String} (other : q ∉ ["fill", "stroke", "opacity"])
    (kind : PaintKind) : kind.property ≠ q := by
  rintro rfl
  exact other (by cases kind <;> simp [property])

namespace PaintBinding

/-- What a table gives the property of a kind, if it drives the kind. -/
def shown? (b : PaintBinding) (table : Table) (kind : PaintKind) : Option String :=
  (b.value? table kind).map fun t => (b.declaration t kind).2

/-- What a table writes for some kinds. -/
def writesOf (b : PaintBinding) (table : Table) (kinds : List PaintKind) : List StyleWrite :=
  kinds.filterMap fun kind =>
    (b.shown? table kind).map fun value => ⟨b.element, kind.property, some value⟩

/-- What a table writes to the style of the element. -/
def writes (b : PaintBinding) (table : Table) : List StyleWrite :=
  b.writesOf table PaintKind.all

variable {b : PaintBinding} {table : Table} {d : Document} {w : StyleWrite}
  {bs : List PaintBinding}

theorem clean_shown? {kind : PaintKind} {value : String}
    (shown : b.shown? table kind = some value) : CleanDeclaration (kind.property, value) := by
  obtain ⟨t, -, rfl⟩ := Option.map_eq_some_iff.1 shown
  rw [← b.declaration_fst t kind]
  exact b.clean_declaration t kind

/-! ## Passes are writes -/

theorem foldl_applyKind_eq (b : PaintBinding) (table : Table) (d : Document)
    (kinds : List PaintKind) :
    kinds.foldl (applyKind table b) d = d.putStyles (b.writesOf table kinds) := by
  induction kinds generalizing d with
  | nil => rfl
  | cons kind rest ih =>
      rw [List.foldl_cons, ih, writesOf, writesOf, List.filterMap_cons]
      cases value : b.value? table kind with
      | none => simp [applyKind, shown?, value]
      | some t =>
          simp only [applyKind, shown?, value, Option.map_some, declaration_fst]
          rfl

/-- A pass over painted elements is a list of writes. -/
theorem foldl_apply_eq (table : Table) (d : Document) (bs : List PaintBinding) :
    bs.foldl (apply table) d = d.putStyles (bs.flatMap fun b => b.writes table) := by
  induction bs generalizing d with
  | nil => rfl
  | cons b rest ih =>
      have here : apply table d b = d.putStyles (b.writes table) :=
        b.foldl_applyKind_eq table d PaintKind.all
      rw [List.foldl_cons, ih, here, List.flatMap_cons, Document.putStyles, Document.putStyles,
        Document.putStyles, List.foldl_append]

theorem mem_writes : w ∈ b.writes table ↔ ∃ kind value,
    b.shown? table kind = some value ∧ w = ⟨b.element, kind.property, some value⟩ := by
  constructor
  · intro member
    obtain ⟨kind, -, made⟩ := List.mem_filterMap.1 member
    obtain ⟨value, shown, rfl⟩ := Option.map_eq_some_iff.1 made
    exact ⟨kind, value, shown, rfl⟩
  · rintro ⟨kind, value, shown, rfl⟩
    have known : kind ∈ PaintKind.all := by cases kind <;> decide
    exact List.mem_filterMap.2 ⟨kind, known, by rw [shown, Option.map_some]⟩

theorem fits_of_mem_writes (element : d.isElement b.element = true)
    (member : w ∈ b.writes table) : d.Fits w := by
  obtain ⟨kind, value, shown, rfl⟩ := mem_writes.1 member
  refine ⟨element, ?_, by simp, PaintKind.property_ne (by decide) kind⟩
  rintro _ ⟨⟩
  exact clean_shown? shown

/-- Every kind has a place of its own. -/
theorem nodup_writes (b : PaintBinding) (table : Table) :
    ((b.writes table).map StyleWrite.cell).Nodup := by
  rw [writes, writesOf, List.map_filterMap]
  refine List.Nodup.filterMap (fun kind other cell first second => ?_) (by decide)
  obtain ⟨w, made, rfl⟩ := Option.map_eq_some_iff.1 first
  obtain ⟨v, made', same⟩ := Option.map_eq_some_iff.1 second
  obtain ⟨_, -, rfl⟩ := Option.map_eq_some_iff.1 made
  obtain ⟨_, -, rfl⟩ := Option.map_eq_some_iff.1 made'
  exact PaintKind.property_inj (congrArg Prod.snd same).symm

/-- A place that is written to is a property of a bound element that the table drives. -/
theorem mem_cells {n : NodeId} {q : String}
    (member : (n, q) ∈ (bs.flatMap fun b => b.writes table).map StyleWrite.cell) :
    ∃ b ∈ bs, ∃ kind : PaintKind,
      b.element = n ∧ kind.property = q ∧ (b.shown? table kind).isSome := by
  obtain ⟨w, here, same⟩ := List.mem_map.1 member
  obtain ⟨b, known, made⟩ := List.mem_flatMap.1 here
  obtain ⟨kind, value, shown, rfl⟩ := mem_writes.1 made
  exact ⟨b, known, kind, congrArg Prod.fst same, congrArg Prod.snd same, by rw [shown]; rfl⟩

/-- Different elements are written to at different places. -/
theorem nodup_cells (alone : (bs.map element).Nodup) (table : Table) :
    ((bs.flatMap fun b => b.writes table).map StyleWrite.cell).Nodup := by
  rw [List.map_flatMap, List.nodup_flatMap]
  refine ⟨fun b _ => b.nodup_writes table, (List.pairwise_map.1 alone).imp ?_⟩
  intro b c other cell first second
  obtain ⟨w, here, rfl⟩ := List.mem_map.1 first
  obtain ⟨v, there, same⟩ := List.mem_map.1 second
  obtain ⟨_, _, -, rfl⟩ := mem_writes.1 here
  obtain ⟨_, _, -, rfl⟩ := mem_writes.1 there
  exact other (congrArg Prod.fst same).symm

/-- After a pass over different elements a painted property holds what the table says, or
else what was there before. -/
theorem foldl_apply_frame (table : Table)
    (elements : ∀ b ∈ bs, d.isElement b.element = true) (alone : (bs.map element).Nodup) :
    let painted := bs.foldl (apply table) d
    painted.unstyled = d.unstyled ∧
      (∀ b ∈ bs, ∀ kind, painted.style? b.element kind.property =
        (b.shown? table kind).or (d.style? b.element kind.property)) ∧
      ∀ n q, (∀ b ∈ bs, b.element = n → ∀ kind : PaintKind, kind.property ≠ q) →
        painted.style? n q = d.style? n q := by
  intro painted
  let ws := bs.flatMap fun b => b.writes table
  have written : painted = d.putStyles ws := foldl_apply_eq table d bs
  have fits : ∀ w ∈ ws, d.Fits w := by
    intro w member
    obtain ⟨b, known, made⟩ := List.mem_flatMap.1 member
    exact fits_of_mem_writes (elements b known) made
  rw [written]
  refine ⟨unstyled_putStyles d ws, ?_, ?_⟩
  · intro b member kind
    cases shown : b.shown? table kind with
    | some value =>
        have here : ⟨b.element, kind.property, some value⟩ ∈ ws :=
          List.mem_flatMap.2 ⟨b, member, mem_writes.2 ⟨kind, value, shown, rfl⟩⟩
        exact (shows_putStyles fits (nodup_cells alone table) _ here).value
    | none =>
        refine style?_putStyles fits fun inside => ?_
        obtain ⟨c, known, other, element, property, driven⟩ := mem_cells inside
        obtain rfl : c = b := List.inj_on_of_nodup_map alone known member element
        obtain rfl : other = kind := PaintKind.property_inj property
        simp [shown] at driven
  · intro n q apart
    refine style?_putStyles fits fun inside => ?_
    obtain ⟨b, known, kind, element, property, -⟩ := mem_cells inside
    exact apart b known element kind property

end PaintBinding

end Infographic.Binding
