/-
# Infographic.Proofs.Regrouping -- what new groups leave where it was

Elements that are bound to transforms are put into groups that take over some attributes.
All other attributes stay where they are, and below every old node the old elements are
listed in their old order (`Regrouped.descendants`).  So elements with options are found
as before (`withOptions_of_regrouped`), but an element that was moved has lost the inline style
it had (`TransformBinding.style?_bind`).
-/
import Infographic.Proofs.Grouping
import Infographic.Proofs.TreeHeight

namespace Infographic

set_option autoImplicit false

open Markup (Document NodeId)
open Binding.TransformBinding (groupedAttributes)

namespace Markup.Document

variable {d d' : Document} {id n : NodeId}

/-! ## Groups around a node -/

theorem flatMap_filter_eq {α β : Type} (p : α → Bool) (f : α → List β) (as : List α) :
    (as.filter p).flatMap f = as.flatMap fun a => if p a then f a else [] := by
  induction as with
  | nil => rfl
  | cons a rest ih => cases here : p a <;> simp [here, ih]

/-- What a child adds to the elements below its parent. -/
def branch (d : Document) (c : NodeId) : List NodeId :=
  if d.isElement c then c :: d.descendants c else []

theorem WellFormed.descendants_eq_branches (whole : d.WellFormed) (n : NodeId) :
    d.descendants n = (d.children n).flatMap d.branch := by
  rw [whole.descendants_eq, elementChildren, flatMap_filter_eq]
  rfl

theorem filter_branch {p : NodeId → Bool} {c : NodeId} (element : d'.isElement c = d.isElement c)
    (below : (d'.descendants c).filter p = (d.descendants c).filter p) :
    (d'.branch c).filter p = (d.branch c).filter p := by
  rw [branch, branch, element]
  split
  · rw [List.filter_cons, List.filter_cons, below]
  · rfl

/-- A group around a node changes nothing in the order of the other elements. -/
theorem filter_descendants_wrap (whole : d.WellFormed) (below : id < d.nodeCount) (tag : String)
    {p : NodeId → Bool} (blind : p d.nodeCount = false) (n : NodeId) (old : n < d.nodeCount) :
    ((d.wrap id tag).1.descendants n).filter p = (d.descendants n).filter p := by
  let d' := (d.wrap id tag).1
  have whole' : d'.WellFormed := whole.wrap below tag
  have kind (m : NodeId) : d'.kind? m =
      if m = d.nodeCount then some (.element tag []) else d.kind? m :=
    kind?_wrap whole.toLinked tag m
  have element {m : NodeId} (inside : m < d.nodeCount) : d'.isElement m = d.isElement m :=
    isElement_congr (by rw [kind, if_neg (Nat.ne_of_lt inside)])
  have group : (d'.branch d.nodeCount).filter p = (d'.branch id).filter p := by
    have here : d'.isElement d.nodeCount = true := by
      rw [isElement, tag?, kind, if_pos rfl]
      rfl
    rw [branch, if_pos here, whole'.descendants_eq_branches, children_wrap whole.toLinked below,
      if_pos rfl, List.filter_cons, blind]
    simp
  induction n using whole.induction_children with
  | step n ih =>
      rw [whole'.descendants_eq_branches, whole.descendants_eq_branches,
        children_wrap whole.toLinked below, if_neg (Nat.ne_of_lt old), List.filter_flatMap,
        List.filter_flatMap, List.flatMap_map]
      refine List.flatMap_congr fun c child => ?_
      have inside : c < d.nodeCount := lt_of_parent? ((whole.mem_iff n c).1 child)
      have same : (d'.branch c).filter p = (d.branch c).filter p :=
        filter_branch (element inside) (ih c child inside)
      rw [swap]
      by_cases here : c = id
      · rw [if_pos here, group, ← here, same]
      · rw [if_neg here, same]

/-- A group around a node changes no attribute. -/
theorem attribute?_wrap (links : d.Linked) (tag : String) (n : NodeId) (q : String) :
    (d.wrap id tag).1.attribute? n q = d.attribute? n q := by
  by_cases fresh : n = d.nodeCount
  · have plain : d.isElement n = false := not_isElement_of_le (Nat.le_of_eq fresh.symm)
    rw [attribute?, attribute?, attributes_eq_nil plain, attributes, kind?_wrap links, if_pos fresh]
  · exact attribute?_congr (by rw [kind?_wrap links, if_neg fresh]) q

/-! ## Documents with new groups -/

/-- A document with the elements of another one, some of them in new groups. -/
structure Regrouped (d d' : Document) : Prop where
  grown : d.nodeCount ≤ d'.nodeCount
  attribute? : ∀ n, ∀ q ∉ groupedAttributes, d'.attribute? n q = d.attribute? n q
  descendants : ∀ n < d.nodeCount, ∀ p : NodeId → Bool,
    (∀ m, d.nodeCount ≤ m → p m = false) →
      (d'.descendants n).filter p = (d.descendants n).filter p

namespace Regrouped

theorem refl (d : Document) : Regrouped d d :=
  ⟨Nat.le_refl _, fun _ _ _ => rfl, fun _ _ _ _ => rfl⟩

theorem trans {d'' : Document} (first : Regrouped d d') (second : Regrouped d' d'') :
    Regrouped d d'' where
  grown := Nat.le_trans first.grown second.grown
  attribute? n q other := (second.attribute? n q other).trans (first.attribute? n q other)
  descendants n old p blind := by
    have inside := Nat.lt_of_lt_of_le old first.grown
    rw [second.descendants n inside p fun m new => blind m (Nat.le_trans first.grown new),
      first.descendants n old p blind]

theorem wrap (whole : d.WellFormed) (below : id < d.nodeCount) (tag : String) :
    Regrouped d (d.wrap id tag).1 where
  grown := by
    rw [nodeCount_wrap whole.toLinked]
    exact Nat.le_succ _
  attribute? n q _ := attribute?_wrap whole.toLinked tag n q
  descendants n old p blind :=
    filter_descendants_wrap whole below tag (blind _ (Nat.le_refl _)) n old

/-- Editing attributes moves nothing. -/
theorem of_sameTree (same : SameTree d d')
    (attribute? : ∀ n, ∀ q ∉ groupedAttributes, d'.attribute? n q = d.attribute? n q) :
    Regrouped d d' :=
  ⟨Nat.le_of_eq same.nodeCount.symm, attribute?, fun n _ _ _ => by rw [same.descendants]⟩

theorem setAttribute (d : Document) (id : NodeId) {name : String}
    (member : name ∈ groupedAttributes) (value : String) :
    Regrouped d (d.setAttribute id name value) := by
  refine of_sameTree (.setAttribute d id name value) fun n q other => ?_
  rw [attribute?_setAttribute, if_neg]
  rintro ⟨-, -, rfl⟩
  exact other member

theorem removeAttribute (d : Document) (id : NodeId) {name : String}
    (member : name ∈ groupedAttributes) : Regrouped d (d.removeAttribute id name) := by
  refine of_sameTree (.removeAttribute d id name) fun n q apart => ?_
  refine attribute?_removeAttribute ?_
  rintro rfl
  exact apart member

end Regrouped

end Markup.Document

namespace Binding

open Markup.Document

variable {d d' : Document} {id : NodeId}

/-! ## Finding elements -/

theorem hasOption_congr {keys : List String} {n : NodeId}
    (same : d'.attribute? n "id" = d.attribute? n "id") :
    hasOption d' keys n = hasOption d keys n := by
  rw [hasOption, hasOption, idOptions?, idOptions?, same]

/-- Elements with options are found as before. -/
theorem withOptions_of_regrouped (regrouped : Regrouped d d') {root : NodeId}
    (old : root < d.nodeCount) (keys : List String) :
    withOptions d' root keys = withOptions d root keys := by
  have same : hasOption d' keys = hasOption d keys :=
    funext fun n => hasOption_congr (regrouped.attribute? n "id" (by decide))
  have blind (m : NodeId) (new : d.nodeCount ≤ m) : hasOption d keys m = false := by
    simp [hasOption, idOptions?, attribute?, attributes_eq_nil (not_isElement_of_le new)]
  rw [withOptions, same, regrouped.descendants root old _ blind, withOptions]

namespace TransformBinding

/-- Binding to transforms puts some elements into new groups. -/
theorem grouping_regrouped : Grouping Regrouped where
  refl := .refl
  trans := .trans
  wrap whole below tag := .wrap whole below tag
  setAttribute d id _ member value := .setAttribute d id member value
  removeAttribute d id _ member := .removeAttribute d id member

/-! ## The style of a moved element -/

/-- What an element hands over it has no longer. -/
theorem attributes_handOver {source target : NodeId} (other : target ≠ source) (d : Document)
    (name : String) :
    (handOver source target d name).attributes source = removeEntry name (d.attributes source) := by
  unfold handOver
  cases held : d.attribute? source name with
  | none =>
      refine (removeEntry_eq_self fun e member same => ?_).symm
      have absent := List.find?_eq_none.1 (Option.map_eq_none_iff.1 held) e member
      simp [same] at absent
  | some value =>
      have element : d.isElement source = true := by
        cases element : d.isElement source with
        | true => rfl
        | false => simp [attribute?, attributes_eq_nil element] at held
      simp only [setAttribute, removeAttribute, attributes_modifyAttributes, other, element,
        false_and, if_false, and_self, if_true]

theorem style_covered (whole : d.WellFormed) (inside : id < d.nodeCount) :
    (covered d id).attribute? id "style" = (d.removeAttribute id "style").attribute? id "style" := by
  have other : d.nodeCount ≠ id := Ne.symm (Nat.ne_of_lt inside)
  have wrapped : (d.wrap id "g").1.attributes id = d.attributes id :=
    attributes_congr (by rw [kind?_wrap whole.toLinked, if_neg other.symm])
  have left : (covered d id).attributes id = removeEntry "clip-path" (removeEntry "style"
      (removeEntry "class" (d.attributes id))) := by
    rw [covered, List.foldl_cons, List.foldl_cons, List.foldl_cons, List.foldl_nil,
      attributes_handOver other, attributes_handOver other, attributes_handOver other, wrapped]
  rw [attribute?, left, find?_removeEntry (by decide), removeEntry_comm,
    find?_removeEntry (by decide), attribute?, attributes_removeAttribute_self]

/-- An element that was put into groups has lost its inline style. -/
theorem style?_bind (whole : d.WellFormed) (inside : id < d.nodeCount) {q : String}
    (other : q ∉ ["transition-property", "transition-duration", "transform-origin"]) :
    (bind d id).1.style? id q = (d.removeAttribute id "style").style? id q := by
  have carried : (enclose d id).1.attribute? id "style" = (covered d id).attribute? id "style" := by
    rw [enclose_eq whole inside, attribute?_setAttribute, if_neg (by simp),
      attribute?_wrap (wellFormed_covered whole inside).toLinked]
  change (prepare (enclose d id).1 id _).style? id q = _
  rw [style?_prepare other, style?_congr (carried.trans (style_covered whole inside))]

end TransformBinding

end Binding

end Infographic
