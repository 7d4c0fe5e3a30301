/-
# Infographic.Proofs.WordedParts -- how often a part of a text is bound

Texts are bound by two rules: a text element with child elements by these, and one without as it
is.  Each rule by itself lists an element once, so the list of all parts is two lists without
repetitions shuffled into one another (`parts_perm`).  An element is bound twice exactly if both
rules list it, that is if it is a text without child elements that stands in another text.
-/
import Infographic.Proofs.RegisteredElements
import Infographic.Proofs.TreeHeight

namespace Infographic.Binding.WordingBinding

set_option autoImplicit false

open Markup (Document NodeId)
open Markup.Document (Edit WellFormed nodup_descendants ofText?)

variable {d : Document} {root n : NodeId} {texts : List NodeId}

/-! ## The two rules -/

/-- A text element below a node. -/
def TextBelow (d : Document) (root n : NodeId) : Prop :=
  d.Below root n ∧ d.tag? n = some "text"

/-- A text element without child elements. -/
def Bare (d : Document) (root n : NodeId) : Prop :=
  TextBelow d root n ∧ d.elementChildren n = []

/-- A child element of a text element. -/
def Part (d : Document) (root n : NodeId) : Prop :=
  ∃ text, TextBelow d root text ∧ n ∈ d.elementChildren text

/-- The texts among some that have no child elements. -/
def bareTexts (d : Document) (texts : List NodeId) : List NodeId :=
  texts.filter fun text => (d.elementChildren text).isEmpty

theorem parts_perm (d : Document) (texts : List NodeId) :
    (texts.flatMap (parts d)).Perm (bareTexts d texts ++ texts.flatMap d.elementChildren) := by
  induction texts with
  | nil => exact .refl _
  | cons text rest ih =>
      rw [List.flatMap_cons, List.flatMap_cons, bareTexts, List.filter_cons, parts]
      cases children : d.elementChildren text with
      | nil => exact ih.cons text
      | cons child more =>
          exact (ih.append_left _).trans (List.perm_append_comm_assoc _ _ _)

/-- Texts have no child elements in common. -/
theorem nodup_flatMap_elementChildren (whole : d.WellFormed) (once : texts.Nodup) :
    (texts.flatMap d.elementChildren).Nodup := by
  refine List.nodup_flatMap.2 ⟨fun text _ => (whole.nodup text).filter _, ?_⟩
  refine once.imp fun {first second} apart n inFirst inSecond => apart ?_
  have up := (whole.mem_iff first n).1 (List.mem_filter.1 inFirst).1
  have up' := (whole.mem_iff second n).1 (List.mem_filter.1 inSecond).1
  exact Option.some.inj (up.symm.trans up')

theorem mem_texts (whole : d.WellFormed) : n ∈ d.findAll root ["text"] ↔ TextBelow d root n :=
  whole.mem_findAll_iff

theorem nodup_texts (whole : d.WellFormed) (root : NodeId) : (d.findAll root ["text"]).Nodup :=
  (nodup_descendants whole root).filter _

theorem mem_bareTexts (whole : d.WellFormed) :
    n ∈ bareTexts d (d.findAll root ["text"]) ↔ Bare d root n := by
  rw [bareTexts, List.mem_filter, mem_texts whole, List.isEmpty_iff, Bare]

theorem mem_parts (whole : d.WellFormed) :
    n ∈ (d.findAll root ["text"]).flatMap d.elementChildren ↔ Part d root n := by
  simp only [List.mem_flatMap, mem_texts whole, Part]

/-! ## How often an element is bound -/

/-- A node whose text holds a tag. -/
def Tagged (d : Document) (n : NodeId) : Prop :=
  Directive.hasTag (d.text n).toList = true

open Classical in
/-- An element with a tag in its text is listed once by each rule that it falls under. -/
theorem count_eligible (whole : d.WellFormed) (root n : NodeId) :
    (eligible d root).count n = if Tagged d n then
      (if Bare d root n then 1 else 0) + if Part d root n then 1 else 0
    else 0 := by
  split
  · rename_i tagged
    have listed : (eligible d root).count n =
        ((d.findAll root ["text"]).flatMap (parts d)).count n := List.count_filter tagged
    have texts := nodup_texts whole root
    have once : (bareTexts d (d.findAll root ["text"])).Nodup := texts.filter _
    rw [listed, (parts_perm d _).count_eq, List.count_append, once.count,
      (nodup_flatMap_elementChildren whole texts).count]
    simp only [mem_bareTexts whole, mem_parts whole]
  · rename_i untagged
    exact List.count_eq_zero_of_not_mem fun member => untagged (List.mem_filter.1 member).2

/-- The elements that are bound below a node, in order. -/
def boundElements (d : Document) (root : NodeId) : List NodeId :=
  (bindAll bind d (eligible d root)).2.map element

theorem boundElements_eq (d : Document) (root : NodeId) :
    boundElements d root = eligible d root :=
  bindAll_elements (fun _ _ => rfl) d _

/-- **Each element is bound once, unless it is a text in a text.**  However a document that was read
is edited, below every node the elements with a tag in their text are bound that are texts without
child elements or child elements of texts.  None is bound more than twice, and one is bound twice
exactly if both holds of it.  So the bindings are one to one with their elements exactly if no text
with a tag in it, and without child elements of its own, stands in another text. -/
theorem boundElements_once {text : String} (read : ofText? text = some d) {edits : List Edit}
    (allowed : d.AllAllowed edits) (root : NodeId) :
    let d' := d.editAll edits
    (∀ n, n ∈ boundElements d' root ↔ Tagged d' n ∧ (Bare d' root n ∨ Part d' root n)) ∧
      (∀ n, (boundElements d' root).count n ≤ 2 ∧ ((boundElements d' root).count n = 2 ↔
        Tagged d' n ∧ Bare d' root n ∧ Part d' root n)) ∧
      ((boundElements d' root).Nodup ↔
        ∀ n, Tagged d' n → Bare d' root n → ¬ Part d' root n) := by
  intro d'
  have whole : d'.WellFormed := (Document.wellFormed_ofText? read).editAll allowed
  rw [boundElements_eq]
  refine ⟨fun n => ?_, fun n => ⟨?_, ?_⟩, ?_⟩
  · rw [← List.count_pos_iff, count_eligible whole]
    split_ifs <;> simp [*]
  · rw [count_eligible whole]
    split_ifs <;> simp
  · rw [count_eligible whole]
    split_ifs <;> simp [*]
  · rw [List.nodup_iff_count_le_one]
    refine forall_congr' fun n => ?_
    rw [count_eligible whole]
    split_ifs <;> simp [*]

/-- A text in a text, beside a text with a part. -/
def nestedTexts : Document :=
  Document.ofTree (.element "svg" []
    [.element "text" [] [.element "text" [] [.text "\x7b\x7bA\x7d\x7d"]],
      .element "text" [] [.element "tspan" [] [.text "\x7b\x7bA\x7d\x7d"]]])

/-- The theorem at this drawing, with the part wrapped in a group of its own. -/
theorem boundElements_once_wrapped :
    let text := "<svg><text><text>\x7b\x7bA\x7d\x7d</text></text>" ++
      "<text><tspan>\x7b\x7bA\x7d\x7d</tspan></text></svg>"
    let d := nestedTexts.editAll [.wrap 5 "g"]
    ofText? text = some nestedTexts ∧ nestedTexts.AllAllowed [.wrap 5 "g"] ∧
      Tagged d 2 ∧ Bare d 0 2 ∧ Part d 0 2 ∧ Part d 0 7 ∧ ¬ (boundElements d 0).Nodup := by
  intro text d
  have read : ofText? text = some nestedTexts := by decide +kernel
  have allowed : nestedTexts.AllAllowed [.wrap 5 "g"] := by decide +kernel
  obtain ⟨members, counts, once⟩ := boundElements_once read allowed 0
  have bound : boundElements d 0 = [2, 2, 7] := by decide +kernel
  obtain ⟨tagged, bare, part⟩ := (counts 2).2.1 (by rw [bound]; rfl)
  have seven : 7 ∈ boundElements d 0 := by rw [bound]; decide
  have group : ¬ Bare d 0 7 := fun bare => absurd bare.2 (by decide +kernel)
  exact ⟨read, allowed, tagged, bare, part, ((members 7).1 seven).2.resolve_left group,
    fun nodup => once.1 nodup 2 tagged bare part⟩

/-- A text in a text is bound twice. -/
theorem not_boundElements_once :
    ¬ ∀ (text : String) (d : Document), ofText? text = some d → ∀ root,
      (boundElements d root).Nodup := by
  intro once
  have read : ofText? "<svg><text><text>\x7b\x7bA\x7d\x7d</text></text></svg>" =
      some (Document.ofTree (.element "svg" []
        [.element "text" [] [.element "text" [] [.text "\x7b\x7bA\x7d\x7d"]]])) := by
    decide +kernel
  exact absurd (once _ _ read 0) (by decide +kernel)

end Infographic.Binding.WordingBinding
