/-
# Infographic.Proofs.Grouping -- what binding to transforms is made of

An element that is bound to transforms is put into two groups, and a few attributes are
taken, given and handed over.  A relation between documents that each of these edits keeps is
kept by binding a whole family (`Grouping.family`), so that it has to be shown for the edits
only.
-/
import Infographic.Proofs.TemplateMaking

namespace Infographic.Binding.TransformBinding

set_option autoImplicit false

open Markup (Document NodeId)
open Markup.Document (WellFormed)

/-- The attributes that are taken or given when elements are put into groups. -/
def groupedAttributes : List String :=
  ["class", "style", "clip-path", "vector-effect"]

/-- A relation that is kept by groups around nodes and by edits of some attributes. -/
structure Grouping (R : Document → Document → Prop) : Prop where
  refl : ∀ d, R d d
  trans : ∀ {d d' d''}, R d d' → R d' d'' → R d d''
  wrap : ∀ {d : Document} {id : NodeId}, d.WellFormed → id < d.nodeCount →
    ∀ tag, R d (d.wrap id tag).1
  setAttribute : ∀ (d : Document) (id : NodeId), ∀ name ∈ groupedAttributes, ∀ value,
    R d (d.setAttribute id name value)
  removeAttribute : ∀ (d : Document) (id : NodeId), ∀ name ∈ groupedAttributes,
    R d (d.removeAttribute id name)

namespace Grouping

variable {R : Document → Document → Prop} (grouping : Grouping R)

include grouping

theorem handOver (source target : NodeId) (d : Document) {name : String}
    (member : name ∈ groupedAttributes) : R d (handOver source target d name) := by
  unfold TransformBinding.handOver
  split
  · exact grouping.trans (grouping.removeAttribute _ _ name member)
      (grouping.setAttribute _ _ name member _)
  · exact grouping.refl d

theorem foldl_handOver (source target : NodeId) {names : List String}
    (members : ∀ name ∈ names, name ∈ groupedAttributes) (d : Document) :
    R d (names.foldl (TransformBinding.handOver source target) d) := by
  induction names generalizing d with
  | nil => exact grouping.refl d
  | cons name rest ih =>
      have first := grouping.handOver source target d (members name List.mem_cons_self)
      have later := ih fun other member => members other (List.mem_cons_of_mem _ member)
      exact grouping.trans first (later _)

theorem prepare (d : Document) (id : NodeId) (origin : Point Float) : R d (prepare d id origin) := by
  have style (d : Document) (property value : String) : R d (d.setStyle id property value) :=
    grouping.setAttribute d id "style" (by decide) _
  have effect := grouping.setAttribute d id "vector-effect" (by decide) "non-scaling-stroke"
  exact grouping.trans effect
    (grouping.trans (style _ _ _) (grouping.trans (style _ _ _) (style _ _ _)))

theorem bind {d : Document} {id : NodeId} (whole : d.WellFormed) (inside : id < d.nodeCount) :
    R d (bind d id).1 := by
  have below : d.nodeCount < (covered d id).nodeCount := by
    rw [nodeCount_covered whole]
    exact Nat.lt_succ_self _
  have first : R d (covered d id) := grouping.trans (grouping.wrap whole inside "g")
    (grouping.foldl_handOver id d.nodeCount (by decide) (d.wrap id "g").1)
  have second := grouping.wrap (wellFormed_covered whole inside) below "g"
  have enclosed : R d (enclose d id).1 := by
    rw [enclose_eq whole inside]
    exact grouping.trans (grouping.trans first second)
      (grouping.setAttribute _ _ "class" (by decide) _)
  exact grouping.trans enclosed (grouping.prepare _ id _)

/-- Binding a family to transforms keeps what its edits keep. -/
theorem family {d : Document} (whole : d.WellFormed) (asked : Bool) (root : NodeId) :
    R d (bindFamily asked eligible TransformBinding.bind root d).1 := by
  rw [bindFamily_eq]
  refine (bindAll_induct
    (I := fun d' => d'.WellFormed ∧ d.nodeCount ≤ d'.nodeCount ∧ R d d')
    (fun d' all id member => ?_) ⟨whole, Nat.le_refl _, grouping.refl d⟩).2.2
  obtain ⟨whole', grown, kept⟩ := all
  split at member
  · have element := isElement_of_mem_withOptions whole.toLinked (List.mem_filter.1 member).1
    have inside := Nat.lt_of_lt_of_le (Document.lt_of_isElement element) grown
    obtain ⟨whole'', grown', -⟩ := bind_frame whole' inside
    exact ⟨whole'', Nat.le_trans grown grown', grouping.trans kept (grouping.bind whole' inside)⟩
  · simp at member

end Grouping

end Infographic.Binding.TransformBinding
