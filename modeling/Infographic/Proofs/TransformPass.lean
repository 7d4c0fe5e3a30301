/-
# Infographic.Proofs.TransformPass -- what transforms write

Going through the kinds of transforms writes one piece for every kind that the table drives,
unless it follows a curved guide; the guide is looked for when the first position is driven
(`TransformBinding.apply_eq`).  What a pass over all moved elements writes depends on the
table and the forms of the guides, and on nothing that was written before
(`TransformBinding.pass_frame`).
-/
import Infographic.Binding.Registry
import Infographic.Proofs.GuideForms
import Infographic.Proofs.StyleValues
import Infographic.Proofs.StyleWrites
import Mathlib.Data.List.Forall2
import Mathlib.Data.List.Nodup

namespace Infographic

set_option autoImplicit false

open Markup (Document NodeId CleanDeclaration StyleWrite)
open Markup.Document (isElement_of_style? shows_putStyles style?_putStyles unstyled_putStyle
  unstyled_putStyles)
open Binding (NameTable)

/-! ## Guides -/

namespace Guide

variable {d d' : Document} {names : NameTable}

/-- A guide that was looked for keeps its form. -/
theorem settle_settle (g : Guide) (d d' : Document) (names : NameTable) :
    (g.settle d names).settle d' names = g.settle d names := by
  cases found : g.found <;> simp [settle, found]

/-- A guide takes the same form in documents with the same forms. -/
theorem settle_congr (same : SameForms d d') (g : Guide) :
    g.settle d names = g.settle d' names := by
  have forms : GuideForm.ofElement? d = GuideForm.ofElement? d' := funext same.ofElement?
  rw [settle, settle, forms]

end Guide

namespace Binding

/-! ## Passes -/

/-- Run a step on every binding of a family in order. -/
def pass {β : Type} (step : Document → β → Document × β) (d : Document) :
    List β → Document × List β
  | [] => (d, [])
  | b :: rest =>
      let (d, b) := step d b
      let (d, more) := pass step d rest
      (d, b :: more)

namespace TransformBinding

variable (b : TransformBinding) (guide : Option Guide) (d : Document) (names : NameTable)
  (table : Table)

/-- The guide once it was looked for in a document. -/
def settled : Option Guide :=
  b.guide.map fun g => g.settle d names

/-- Whether a table drives one of some positions. -/
def seeks (kinds : List TransformKind) : Bool :=
  kinds.any fun kind => kind.isPosition && (b.value? table kind).isSome

theorem seeks_cons (kind : TransformKind) (rest : List TransformKind) :
    b.seeks table (kind :: rest) = (b.seeks table [kind] || b.seeks table rest) := by
  simp [seeks]

/-- What a kind writes for a table, with a guide that was looked for. -/
def piece? (kind : TransformKind) : Option String :=
  match b.value? table kind, (if kind.isPosition then guide else none) with
  | none, _ => none
  | some t, some g =>
      if g.isCurved then none
      else match g.offset? t b.origin with
        | some offset => some (kind.offsetFragment offset)
        | none => some (kind.fragment t b.options)
  | some t, none => some (kind.fragment t b.options)

/-- All that is written for a table. -/
def written : List String :=
  b.opening ++ TransformKind.all.filterMap (b.piece? guide table)

/-- The transform shown for a table. -/
def shown? : Option String :=
  if (b.written guide table).isEmpty then none else some (" ".intercalate (b.written guide table))

/-- The guide after a table. -/
def guideAfter : Option Guide :=
  if b.seeks table TransformKind.all then b.settled d names else b.guide

/-- The first of some positions that a table drives, with its value, where the guide is curved. -/
def lead? (kinds : List TransformKind) : Option (TransformKind × Float) :=
  if guide.any Guide.isCurved then
    kinds.findSome? fun kind =>
      if kind.isPosition then (b.value? table kind).map fun t => (kind, t) else none
  else none

theorem lead?_cons (kind : TransformKind) (rest : List TransformKind) :
    b.lead? guide table (kind :: rest) =
      (b.lead? guide table [kind]).or (b.lead? guide table rest) := by
  unfold lead?
  split
  · rw [List.findSome?_cons, List.findSome?_singleton]
    cases (if kind.isPosition then (b.value? table kind).map fun t => (kind, t) else none) <;> rfl
  · rfl

/-- The binding with a guide, setting out to where it is led. -/
def led (lead : Option (TransformKind × Float)) : TransformBinding :=
  { b with
    guide
    easing := lead.elim b.easing fun way => b.easing.retarget way.2
    followed := (lead.map Prod.fst).or b.followed }

/-- The binding that a table leaves behind. -/
def after : TransformBinding :=
  b.led (b.guideAfter d names table) (b.lead? (b.settled d names) table TransformKind.all)

variable {guide table}

/-- Without a driven position the guide has no part in what is written. -/
theorem written_of_not_seeks (idle : b.seeks table TransformKind.all = false)
    (guide' : Option Guide) : b.written guide table = b.written guide' table := by
  have same : ∀ kind ∈ TransformKind.all,
      b.piece? guide table kind = b.piece? guide' table kind := by
    intro kind member
    have still := List.any_eq_false.1 idle kind member
    cases value : b.value? table kind with
    | none => simp only [piece?, value]
    | some t =>
        have other : kind.isPosition = false := by simpa [value] using still
        simp only [piece?, value, other, Bool.false_eq_true, if_false]
  rw [written, written, List.filterMap_congr same]

/-- A table shows the same with the guide that it leaves behind. -/
theorem shown?_guideAfter :
    b.shown? (b.guideAfter d names table) table = b.shown? (b.settled d names) table := by
  rw [guideAfter]
  cases sought : b.seeks table TransformKind.all with
  | true => rfl
  | false =>
      have written := @written_of_not_seeks b b.guide table sought (b.settled d names)
      rw [if_neg (by simp), shown?, shown?, written]

/-! ## Going through the kinds -/

variable (table)

/-- A kind writes its piece, a driven position has the guide looked for, and the first one
follows it where it is curved. -/
theorem applyKind_eq (written : List String) (following : Bool) (kind : TransformKind) :
    applyKind d names table (b, written, following) kind =
      (b.led (if b.seeks table [kind] then b.settled d names else b.guide)
          (if following then none else b.lead? (b.settled d names) table [kind]),
        written ++ (b.piece? (b.settled d names) table kind).toList,
        following || (b.lead? (b.settled d names) table [kind]).isSome) := by
  cases value : b.value? table kind with
  | none => simp [applyKind, seeks, piece?, lead?, led, value]
  | some t =>
      cases position : kind.isPosition with
      | false => simp [applyKind, seeks, piece?, lead?, led, value, position]
      | true =>
          cases held : b.guide with
          | none =>
              simp [applyKind, seeks, piece?, lead?, led, settled, value, position, held]
              rw [← held]
          | some g =>
              have step : applyKind d names table (b, written, following) kind =
                  applyGuided d names kind t g (b, written, following) := by
                simp only [applyKind, value, position, held, if_true]
              have looked : b.settled d names = some (g.settle d names) := by
                rw [settled, held, Option.map_some]
              rw [step]
              by_cases curved : (g.settle d names).isCurved = true
              · cases following <;>
                  simp [applyGuided, follow, seeks, piece?, lead?, led, looked, value, position,
                    curved]
              · cases offset : (g.settle d names).offset? t b.origin <;>
                  simp [applyGuided, seeks, piece?, lead?, led, looked, value, position, curved,
                    offset]

/-- Looking for the guide once more, behind where a binding was led, finds the same. -/
theorem settled_led (sought : Bool) (lead : Option (TransformKind × Float)) :
    (b.led (if sought then b.settled d names else b.guide) lead).settled d names =
      b.settled d names := by
  cases sought <;> simp [settled, led, Function.comp_def, Guide.settle_settle]

/-- Of two leads the first one counts. -/
theorem led_led (guide guide' : Option Guide) (lead lead' : Option (TransformKind × Float)) :
    (b.led guide lead).led guide' (if lead.isSome then none else lead') =
      b.led guide' (lead.or lead') := by
  cases lead <;> simp [led]

/-- The kinds write their pieces in order. -/
theorem foldl_applyKind (kinds : List TransformKind) (written : List String) (following : Bool) :
    kinds.foldl (applyKind d names table) (b, written, following) =
      (b.led (if b.seeks table kinds then b.settled d names else b.guide)
          (if following then none else b.lead? (b.settled d names) table kinds),
        written ++ kinds.filterMap (b.piece? (b.settled d names) table),
        following || (b.lead? (b.settled d names) table kinds).isSome) := by
  induction kinds generalizing b written following with
  | nil => simp [seeks, lead?, led]
  | cons kind rest ih =>
      let guide := b.settled d names
      let lead := if following then none else b.lead? guide table [kind]
      let c := b.led (if b.seeks table [kind] then guide else b.guide) lead
      have looked : c.settled d names = guide := b.settled_led d names _ lead
      have first : applyKind d names table (b, written, following) kind =
          (c, written ++ (b.piece? guide table kind).toList,
            following || (b.lead? guide table [kind]).isSome) := applyKind_eq ..
      have sought : (if b.seeks table rest then guide else c.guide) =
          if b.seeks table (kind :: rest) then guide else b.guide := by
        have held : c.guide = if b.seeks table [kind] then guide else b.guide := rfl
        rw [seeks_cons, held]
        cases b.seeks table [kind] <;> cases b.seeks table rest <;> rfl
      have text : written ++ (b.piece? guide table kind).toList ++
          rest.filterMap (b.piece? guide table) =
            written ++ (kind :: rest).filterMap (b.piece? guide table) := by
        rw [List.append_assoc, List.filterMap_cons]
        cases b.piece? guide table kind <;> rfl
      let written' := written ++ (b.piece? guide table kind).toList
      let following' := following || (b.lead? guide table [kind]).isSome
      have later : rest.foldl (applyKind d names table) (c, written', following') =
          (c.led (if b.seeks table rest then guide else c.guide)
              (if following' then none else b.lead? guide table rest),
            written' ++ rest.filterMap (b.piece? guide table),
            following' || (b.lead? guide table rest).isSome) := by
        have next := ih c written' following'
        rw [looked] at next
        exact next
      rw [List.foldl_cons, first, later, sought, text, lead?_cons]
      cases following with
      | true => rfl
      | false =>
          refine Prod.ext (b.led_led _ _ (b.lead? guide table [kind]) _) (Prod.ext rfl ?_)
          exact Option.isSome_or.symm

/-! ## One element -/

/-- Bindings that differ in where their guide was found and in how they are eased. -/
def Moved (guide : TransformBinding → Option Guide) (b b' : TransformBinding) : Prop :=
  ∃ easing followed, b' = { b with guide := guide b, easing := easing, followed := followed }

namespace Moved

variable {held guide : TransformBinding → Option Guide} {b b' : TransformBinding}
  {bs bs' : List TransformBinding}

theorem elements (moved : List.Forall₂ (Moved held) bs bs') :
    bs'.map element = bs.map element := by
  induction moved with
  | nil => rfl
  | cons one _ ih =>
      obtain ⟨easing, followed, rfl⟩ := one
      rw [List.map_cons, List.map_cons, ih]

theorem mem (moved : List.Forall₂ (Moved held) bs bs') :
    (∀ b ∈ bs, ∃ b' ∈ bs', Moved held b b') ∧ ∀ b' ∈ bs', ∃ b ∈ bs, Moved held b b' := by
  induction moved with
  | nil => simp
  | cons one _ ih =>
      refine ⟨fun b member => ?_, fun b' member => ?_⟩
      · rcases List.mem_cons.1 member with rfl | later
        · exact ⟨_, List.mem_cons_self, one⟩
        · obtain ⟨b', inside, moved⟩ := ih.1 b later
          exact ⟨b', List.mem_cons_of_mem _ inside, moved⟩
      · rcases List.mem_cons.1 member with rfl | later
        · exact ⟨_, List.mem_cons_self, one⟩
        · obtain ⟨b, inside, moved⟩ := ih.2 b' later
          exact ⟨b, List.mem_cons_of_mem _ inside, moved⟩

/-- Of two passes the guides of the second one are left behind. -/
theorem trans {bs'' : List TransformBinding} {both : TransformBinding → Option Guide}
    (first : List.Forall₂ (Moved held) bs bs') (second : List.Forall₂ (Moved guide) bs' bs'')
    (same : ∀ b b', Moved held b b' → guide b' = both b) : List.Forall₂ (Moved both) bs bs'' := by
  induction first generalizing bs'' with
  | nil =>
      cases second
      exact .nil
  | cons one _ ih =>
      cases second with
      | cons next later =>
          refine .cons ?_ (ih later)
          obtain ⟨easing, followed, rfl⟩ := next
          refine ⟨easing, followed, ?_⟩
          rw [same _ _ one]
          obtain ⟨_, _, rfl⟩ := one
          rfl

end Moved

/-- What a table writes to the style of the element. -/
def write : StyleWrite :=
  ⟨b.element, "transform", b.shown? (b.settled d names) table⟩

/-- Applying a table writes the transform that is shown for it. -/
theorem apply_eq :
    b.apply table names d = (d.putStyle (b.write d names table), b.after d names table) := by
  let pieces := b.written (b.settled d names) table
  have through := b.foldl_applyKind d names table TransformKind.all b.opening false
  have made : b.apply table names d =
      (if pieces.isEmpty then d.removeStyle b.element "transform"
        else d.setStyle b.element "transform" (" ".intercalate pieces), b.after d names table) := by
    rw [apply, through]
    rfl
  have shown : (b.write d names table).value =
      if pieces.isEmpty then none else some (" ".intercalate pieces) := rfl
  rw [made, Document.putStyle, shown]
  cases pieces.isEmpty <;> rfl

variable {b d names table}

theorem firm_written (firm : b.FirmBase) (guide : Option Guide) :
    ∀ piece ∈ b.written guide table, Firm piece.toList := by
  intro piece member
  rcases List.mem_append.1 member with before | driven
  · unfold opening at before
    split at before
    · simp at before
    · rcases List.mem_cons.1 before with rfl | inside
      · exact TransformKind.firm_move _
      · rcases List.mem_append.1 inside with base | back
        · exact firm piece base
        · rw [List.mem_singleton.1 back]
          exact TransformKind.firm_move _
  · obtain ⟨kind, -, wrote⟩ := List.mem_filterMap.1 driven
    unfold piece? at wrote
    split at wrote
    · simp at wrote
    · split at wrote
      · simp at wrote
      · split at wrote <;> rw [← Option.some.inj wrote]
        · exact kind.firm_offsetFragment _
        · exact kind.firm_fragment _ _
    · rw [← Option.some.inj wrote]
      exact kind.firm_fragment _ _

/-- What is shown is a clean value. -/
theorem clean_shown? (firm : b.FirmBase) {guide : Option Guide} {text : String}
    (shown : b.shown? guide table = some text) : CleanDeclaration ("transform", text) := by
  unfold shown? at shown
  split at shown
  · simp at shown
  · rename_i some_piece
    rw [← Option.some.inj shown]
    exact clean_transform (by simpa using some_piece) (firm_written firm guide)

/-- The write is read back from an element with another style. -/
theorem fits_write {d' : Document} (slow : (d.style? b.element "transition-property").isSome = true)
    (firm : b.FirmBase) : d.Fits (b.write d' names table) where
  element := isElement_of_style? slow
  clean _ shown := clean_shown? firm shown
  slow _ := slow
  other := by simp [write]

/-- An edit of a transform changes no form. -/
theorem sameForms_write (fits : d.Fits (b.write d names table)) :
    SameForms (d.putStyle (b.write d names table)) d := by
  refine @SameForms.of_style _ _ "transform" (unstyled_putStyle d _) (fun n q other => ?_)
    (by decide) (by decide)
  rw [fits.style?, if_neg fun both => other both.2]

/-! ## All elements -/

section

variable {d' : Document} (same : SameForms d d') (b : TransformBinding)

include same

theorem settled_congr : b.settled d names = b.settled d' names := by
  rw [settled, settled, funext (Guide.settle_congr same)]

theorem guideAfter_congr : b.guideAfter d names table = b.guideAfter d' names table := by
  rw [guideAfter, guideAfter, settled_congr same]

theorem write_congr : b.write d names table = b.write d' names table := by
  rw [write, write, settled_congr same]

theorem after_congr : b.after d names table = b.after d' names table := by
  rw [after, after, guideAfter_congr same, settled_congr same]

end

section

variable {bs : List TransformBinding}
  (slow : ∀ b ∈ bs, (d.style? b.element "transition-property").isSome = true)
  (firm : ∀ b ∈ bs, b.FirmBase)

include slow firm

/-- A pass over moved elements is a list of writes, each of which could be the first. -/
theorem pass_eq (names : NameTable) (table : Table) :
    pass (fun d b => b.apply table names d) d bs =
      (d.putStyles (bs.map fun b => b.write d names table),
        bs.map fun b => b.after d names table) := by
  induction bs generalizing d with
  | nil => rfl
  | cons b rest ih =>
      let next := d.putStyle (b.write d names table)
      have applied : b.apply table names d = (next, b.after d names table) := b.apply_eq d names table
      have fits : d.Fits (b.write d names table) :=
        fits_write (slow b List.mem_cons_self) (firm b List.mem_cons_self)
      have same : SameForms next d := sameForms_write fits
      have slow' : ∀ c ∈ rest, (next.style? c.element "transition-property").isSome = true := by
        intro c member
        rw [fits.style?, if_neg (by simp [write])]
        exact slow c (List.mem_cons_of_mem b member)
      have later := ih slow' fun c member => firm c (List.mem_cons_of_mem b member)
      have writes : rest.map (fun b => b.write next names table) =
          rest.map fun b => b.write d names table :=
        List.map_congr_left fun b _ => write_congr same b
      have bindings : rest.map (fun b => b.after next names table) =
          rest.map fun b => b.after d names table :=
        List.map_congr_left fun b _ => after_congr same b
      rw [writes, bindings] at later
      simp only [pass, applied, later]
      rfl

omit slow firm in
/-- Different elements are written to at different places. -/
theorem nodup_cells (apart : (bs.map element).Nodup) (d : Document) (names : NameTable)
    (table : Table) : ((bs.map fun b => b.write d names table).map StyleWrite.cell).Nodup := by
  have cells : (bs.map fun b => b.write d names table).map StyleWrite.cell =
      (bs.map element).map fun n => (n, "transform") := by
    rw [List.map_map, List.map_map]
    rfl
  rw [cells]
  exact apart.map fun _ _ same => congrArg Prod.fst same

/-- A pass over different elements leaves every one of them with the transform that is shown
for the table, whatever was written before. -/
theorem pass_frame (names : NameTable) (table : Table) (apart : (bs.map element).Nodup) :
    let made := pass (fun d b => b.apply table names d) d bs
    made.1.unstyled = d.unstyled ∧
      List.Forall₂ (Moved fun b => b.guideAfter d names table) bs made.2 ∧
      (∀ b ∈ bs, made.1.style? b.element "transform" = b.shown? (b.settled d names) table) ∧
      ∀ n q, (q = "transform" → ∀ b ∈ bs, b.element ≠ n) → made.1.style? n q = d.style? n q := by
  let ws := bs.map fun b => b.write d names table
  have fits : ∀ w ∈ ws, d.Fits w := by
    intro w member
    obtain ⟨b, known, rfl⟩ := List.mem_map.1 member
    exact fits_write (slow b known) (firm b known)
  have once : (ws.map StyleWrite.cell).Nodup := nodup_cells apart d names table
  rw [pass_eq slow firm]
  refine ⟨unstyled_putStyles d ws, ?_, ?_, ?_⟩
  · rw [List.forall₂_map_right_iff, List.forall₂_same]
    exact fun b _ => ⟨_, _, rfl⟩
  · intro b member
    exact (shows_putStyles fits once _ (List.mem_map_of_mem member)).value
  · intro n q other
    refine style?_putStyles fits fun inside => ?_
    obtain ⟨w, here, same⟩ := List.mem_map.1 inside
    obtain ⟨b, known, rfl⟩ := List.mem_map.1 here
    exact other (congrArg Prod.snd same).symm b known (congrArg Prod.fst same)

end

end TransformBinding

end Binding

end Infographic
