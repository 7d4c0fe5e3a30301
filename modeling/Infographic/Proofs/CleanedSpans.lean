/-
# Infographic.Proofs.CleanedSpans -- parts of texts give up the coordinates of their parents

The repair `text` goes through the `tspan` elements below a node and takes from each the coordinates
that its parent has.  A parent may be a `tspan` itself and lose a coordinate in the same pass.  In a
well-formed document every node is listed behind its parent, so at its turn the parent has what it
has in the end: a `tspan` keeps exactly those of its attributes that are no coordinates of its
cleaned parent (`attributes_cleanSpans`).  From this the whole repair is read off
(`cleaned_spans`), and that a second one finds nothing to take.
-/
import Infographic.Markup.Cleanup
import Infographic.Proofs.DocumentOfTree
import Infographic.Proofs.StyleEdits
import Infographic.Proofs.TemplateMaking
import Infographic.Proofs.TreeHeight

namespace Infographic.Markup.Document

set_option autoImplicit false

variable {d d' : Document} {id m n svg : NodeId} {name : String} {ids : List NodeId}

/-! ## Coordinates of parents -/

/-- No element has two attributes of one name. -/
def NamesDistinct (d : Document) : Prop :=
  ∀ n, ((d.attributes n).map Prod.fst).Nodup

/-- Whether a name is that of a coordinate which the parent of a node has. -/
def isPlaced (d : Document) (n : NodeId) (name : String) : Bool :=
  ["x", "y"].contains name && (d.parent? n).any fun p => d.hasAttribute p name

theorem isPlaced_iff : d.isPlaced n name = true ↔
    name ∈ ["x", "y"] ∧ ∃ p, d.parent? n = some p ∧ d.hasAttribute p name = true := by
  rw [isPlaced, Bool.and_eq_true, List.contains_iff_mem, Option.any_eq_true]

theorem hasAttribute_iff : d.hasAttribute n name = true ↔ ∃ a ∈ d.attributes n, a.1 = name := by
  rw [hasAttribute, attribute?, Option.isSome_map, List.find?_isSome]
  simp

theorem hasAttribute_congr (same : d'.attributes n = d.attributes n) :
    d'.hasAttribute n name = d.hasAttribute n name := by
  rw [hasAttribute, hasAttribute, attribute?, attribute?, same]

/-- The same names are placed if the parent is the same and has the same attributes. -/
theorem isPlaced_congr (parent : d'.parent? n = d.parent? n)
    (same : ∀ p, d.parent? n = some p → d'.attributes p = d.attributes p) :
    d'.isPlaced n name = d.isPlaced n name := by
  rw [isPlaced, isPlaced, parent]
  cases up : d.parent? n with
  | none => rfl
  | some p => rw [Option.any_some, Option.any_some, hasAttribute_congr (same p up)]

/-- Removing an attribute that is not there changes nothing. -/
theorem removeAttribute_eq_self (absent : d.hasAttribute id name = false) :
    d.removeAttribute id name = d := by
  refine modify_eq_self fun node found => ?_
  cases kind : node.kind with
  | text s => rfl
  | element tag as =>
      have attributes : d.attributes id = as := by
        simp [attributes, kind?, Option.mem_def.1 found, kind]
      have same : removeEntry name as = as := by
        refine removeEntry_eq_self fun a member here => ?_
        have held := hasAttribute_iff.2 ⟨a, attributes ▸ member, here⟩
        rw [absent] at held
        exact Bool.false_ne_true held
      show { node with kind := .element tag (removeEntry name as) } = node
      rw [same, ← kind]

/-! ## One element -/

theorem sameTree_dropCoordinate (id : NodeId) (d : Document) (name : String) :
    SameTree d (dropCoordinate id d name) := by
  unfold dropCoordinate
  split
  · split
    · exact .removeAttribute d id name
    · exact .refl d
  · exact .refl d

theorem sameTree_cleanSpan (d : Document) (id : NodeId) : SameTree d (cleanSpan d id) :=
  .foldl (sameTree_dropCoordinate id) d _

theorem dropCoordinate_eq (id : NodeId) (d : Document) (name : String) :
    dropCoordinate id d name =
      if (d.parent? id).any fun p => d.hasAttribute p name then d.removeAttribute id name
      else d := by
  unfold dropCoordinate
  cases d.parent? id <;> simp

theorem attributes_dropCoordinate (distinct : d.NamesDistinct) :
    (dropCoordinate id d name).attributes n =
      if n = id then (d.attributes id).filter fun a =>
        !(a.1 == name && (d.parent? id).any fun p => d.hasAttribute p name)
      else d.attributes n := by
  rw [dropCoordinate_eq]
  cases held : (d.parent? id).any fun p => d.hasAttribute p name with
  | false =>
      rw [if_neg Bool.false_ne_true]
      split
      · rename_i here
        simp [here]
      · rfl
  | true =>
      rw [if_pos rfl]
      split
      · rename_i here
        rw [here, attributes_removeAttribute_self, removeEntry_eq_filter (distinct id)]
        simp [bne]
      · rename_i other
        rw [removeAttribute, attributes_modifyAttributes, if_neg fun both => other both.1.symm]

theorem NamesDistinct.dropCoordinate (distinct : d.NamesDistinct) :
    (dropCoordinate id d name).NamesDistinct := by
  intro n
  rw [attributes_dropCoordinate distinct]
  split
  · exact (distinct id).sublist (List.filter_sublist.map Prod.fst)
  · exact distinct n

theorem NamesDistinct.cleanSpan (distinct : d.NamesDistinct) : (cleanSpan d id).NamesDistinct :=
  distinct.dropCoordinate.dropCoordinate

/-- Taking one coordinate leaves the other where it is. -/
theorem hasAttribute_dropCoordinate {q : String} (other : q ≠ name) :
    (dropCoordinate id d name).hasAttribute n q = d.hasAttribute n q := by
  rw [dropCoordinate_eq]
  split
  · rw [hasAttribute, attribute?_removeAttribute other, hasAttribute]
  · rfl

/-- **A step takes from one element what its parent has.** -/
theorem attributes_cleanSpan (distinct : d.NamesDistinct) :
    (cleanSpan d id).attributes n =
      if n = id then (d.attributes id).filter fun a => !d.isPlaced id a.1 else d.attributes n := by
  show (dropCoordinate id (dropCoordinate id d "x") "y").attributes n = _
  rw [attributes_dropCoordinate distinct.dropCoordinate,
    (sameTree_dropCoordinate id d "x").parent? id]
  split
  · rw [attributes_dropCoordinate distinct, if_pos rfl, List.filter_filter]
    simp only [hasAttribute_dropCoordinate (show "y" ≠ "x" by decide)]
    refine List.filter_congr fun a _ => ?_
    by_cases x : a.1 = "x"
    · simp [isPlaced, x]
    · by_cases y : a.1 = "y" <;> simp [isPlaced, x, y]
  · rw [attributes_dropCoordinate distinct, if_neg ‹n ≠ id›]

theorem kind?_cleanSpan (other : n ≠ id) : (cleanSpan d id).kind? n = d.kind? n := by
  have drop (d : Document) (name : String) : (dropCoordinate id d name).kind? n = d.kind? n := by
    rw [dropCoordinate_eq]
    split
    · rw [removeAttribute, kind?_modifyAttributes, if_neg (Ne.symm other)]
    · rfl
  exact (drop _ "y").trans (drop d "x")

/-- An element without a coordinate of its parent stays as it is. -/
theorem cleanSpan_eq_self (clear : ∀ name, d.isPlaced id name = true →
    d.hasAttribute id name = false) : cleanSpan d id = d := by
  have drop (name : String) (coordinate : name ∈ ["x", "y"]) : dropCoordinate id d name = d := by
    rw [dropCoordinate_eq]
    split
    · rename_i held
      have placed : d.isPlaced id name = true := by
        rw [isPlaced, held, Bool.and_true, List.contains_iff_mem]
        exact coordinate
      exact removeAttribute_eq_self (clear name placed)
    · rfl
  show dropCoordinate id (dropCoordinate id d "x") "y" = d
  rw [drop "x" (by decide), drop "y" (by decide)]

/-! ## All elements -/

theorem WellFormed.parent_ne (whole : d.WellFormed) (up : d.parent? n = some m) : m ≠ n := by
  obtain ⟨rank, ranked⟩ := whole.ranked
  rintro rfl
  exact Nat.lt_irrefl _ (ranked _ _ up)

theorem sameTree_cleanSpans (d : Document) (ids : List NodeId) :
    SameTree d (ids.foldl cleanSpan d) :=
  .foldl sameTree_cleanSpan d ids

theorem kind?_cleanSpans (other : n ∉ ids) : (ids.foldl cleanSpan d).kind? n = d.kind? n := by
  induction ids generalizing d with
  | nil => rfl
  | cons id rest ih =>
      rw [List.mem_cons, not_or] at other
      rw [List.foldl_cons, ih other.2, kind?_cleanSpan other.1]

theorem cleanSpans_eq_self (settled : ∀ n ∈ ids, cleanSpan d n = d) :
    ids.foldl cleanSpan d = d := by
  induction ids with
  | nil => rfl
  | cons id rest ih =>
      rw [List.foldl_cons, settled id List.mem_cons_self]
      exact ih fun n member => settled n (List.mem_cons_of_mem id member)

/-- The order of the nodes stays when attributes are edited. -/
theorem SameTree.above (same : SameTree d d') : d'.Above = d.Above := by
  have up : d'.Up = d.Up := by
    funext c p
    rw [Up, same.parent?, Up]
  unfold Above
  rw [up]

/-- **What elements keep.**  If none comes before one above it, each keeps the attributes that are
no coordinates of its cleaned parent. -/
theorem attributes_cleanSpans (whole : d.WellFormed) (distinct : d.NamesDistinct)
    (order : ids.Pairwise fun m n => ¬ d.Above n m) (n : NodeId) :
    (ids.foldl cleanSpan d).attributes n =
      if n ∈ ids then (d.attributes n).filter fun a => !(ids.foldl cleanSpan d).isPlaced n a.1
      else d.attributes n := by
  induction ids generalizing d n with
  | nil => rfl
  | cons id rest ih =>
      have same := sameTree_cleanSpan d id
      obtain ⟨first, later⟩ := List.pairwise_cons.1 order
      have others := ih (same.wellFormed whole) distinct.cleanSpan (by rwa [same.above])
      have tree : SameTree d (rest.foldl cleanSpan (cleanSpan d id)) :=
        same.trans (sameTree_cleanSpans _ rest)
      rw [List.foldl_cons]
      generalize rest.foldl cleanSpan (cleanSpan d id) = final at others tree ⊢
      have once : id ∉ rest := fun member => first id member .refl
      by_cases here : n = id
      · subst here
        -- the parent comes earlier or is not cleaned at all, so it has all that it keeps
        have settled (name : String) : final.isPlaced n name = d.isPlaced n name := by
          refine isPlaced_congr (tree.parent? n) fun p up => ?_
          have passed : p ∉ rest := fun member => first p member (.single up)
          have other : p ≠ n := whole.parent_ne up
          rw [others p, if_neg passed, attributes_cleanSpan distinct, if_neg other]
        rw [others n, if_neg once, attributes_cleanSpan distinct, if_pos rfl,
          if_pos List.mem_cons_self]
        simp only [settled]
      · rw [others n, attributes_cleanSpan distinct, if_neg here]
        simp [here]

/-! ## What is kept -/

section

variable (left : d'.attributes n = (d.attributes n).filter fun a => !d'.isPlaced n a.1)
include left

/-- No coordinate is kept that the cleaned parent has. -/
theorem not_hasAttribute_of_isPlaced (placed : d'.isPlaced n name = true) :
    d'.hasAttribute n name = false := by
  refine Bool.eq_false_iff.2 fun held => ?_
  obtain ⟨a, member, rfl⟩ := hasAttribute_iff.1 held
  rw [left, List.mem_filter, placed] at member
  exact Bool.false_ne_true member.2

/-- Only coordinates that the cleaned parent has are lost. -/
theorem isPlaced_of_lost (held : d.hasAttribute n name = true)
    (lost : d'.hasAttribute n name = false) : d'.isPlaced n name = true := by
  obtain ⟨a, member, rfl⟩ := hasAttribute_iff.1 held
  by_contra unplaced
  have stays : a ∈ d'.attributes n := by
    rw [left, List.mem_filter]
    exact ⟨member, by simpa using unplaced⟩
  rw [hasAttribute_iff.2 ⟨a, stays, rfl⟩] at lost
  cases lost

end

/-! ## The repair -/

/-- A `tspan` below a node. -/
def SpanBelow (d : Document) (svg n : NodeId) : Prop :=
  d.Below svg n ∧ d.tag? n = some "tspan"

/-- **Coordinates are taken from parts of texts whose parents keep them.**  After the repair no
`tspan` below the node has a coordinate that its parent has; each has lost those coordinates that
its cleaned parent has and no other attribute; all other nodes and the tree are as they were; and a
second repair changes nothing. -/
theorem cleaned_spans (whole : d.WellFormed) (distinct : d.NamesDistinct) (svg : NodeId) :
    let cleaned := d.clean svg ["text"]
    (∀ n p name, d.SpanBelow svg n → d.parent? n = some p → name ∈ ["x", "y"] →
      ¬ (cleaned.hasAttribute n name = true ∧ cleaned.hasAttribute p name = true)) ∧
    (∀ n name, d.hasAttribute n name = true → cleaned.hasAttribute n name = false →
      d.SpanBelow svg n ∧ name ∈ ["x", "y"] ∧
        ∃ p, d.parent? n = some p ∧ cleaned.hasAttribute p name = true) ∧
    cleaned.clean svg ["text"] = cleaned ∧
    SameTree d cleaned ∧
    (∀ n, ¬ d.SpanBelow svg n → cleaned.kind? n = d.kind? n) ∧
    ∀ n, d.SpanBelow svg n →
      cleaned.attributes n = (d.attributes n).filter fun a => !cleaned.isPlaced n a.1 := by
  intro cleaned
  have found (n : NodeId) : n ∈ d.findAll svg ["tspan"] ↔ d.SpanBelow svg n :=
    whole.mem_findAll_iff
  have order : (d.findAll svg ["tspan"]).Pairwise fun m n => ¬ d.Above n m :=
    (pairwise_descendants whole svg).filter _
  have kept := attributes_cleanSpans whole distinct order
  have tree : SameTree d cleaned := sameTree_cleanSpans d _
  have left (n : NodeId) (span : d.SpanBelow svg n) :
      cleaned.attributes n = (d.attributes n).filter fun a => !cleaned.isPlaced n a.1 :=
    (kept n).trans (if_pos ((found n).2 span))
  have rest (n : NodeId) (other : ¬ d.SpanBelow svg n) : cleaned.kind? n = d.kind? n :=
    kind?_cleanSpans fun member => other ((found n).1 member)
  refine ⟨?_, ?_, ?_, tree, rest, left⟩
  · intro n p name span up coordinate both
    have placed : cleaned.isPlaced n name = true :=
      isPlaced_iff.2 ⟨coordinate, p, (tree.parent? n).trans up, both.2⟩
    rw [not_hasAttribute_of_isPlaced (left n span) placed] at both
    exact Bool.false_ne_true both.1
  · intro n name held lost
    have span : d.SpanBelow svg n := by
      by_contra other
      have same : cleaned.hasAttribute n name = d.hasAttribute n name :=
        hasAttribute_congr (attributes_congr (rest n other))
      rw [held, lost] at same
      cases same
    obtain ⟨coordinate, p, up, here⟩ := isPlaced_iff.1 (isPlaced_of_lost (left n span) held lost)
    exact ⟨span, coordinate, p, (tree.parent? n).symm.trans up, here⟩
  · have spans : cleaned.findAll svg ["tspan"] = d.findAll svg ["tspan"] := by
      rw [findAll, findAll, tree.descendants, funext tree.tag?]
    show (cleaned.findAll svg ["tspan"]).foldl cleanSpan cleaned = cleaned
    rw [spans]
    refine cleanSpans_eq_self fun n member => cleanSpan_eq_self fun name => ?_
    exact not_hasAttribute_of_isPlaced (left n ((found n).1 member))

/-- A `tspan` inside a `tspan` inside a text that is placed along one axis. -/
def nestedSpans : Tree :=
  .element "svg" []
    [.element "text" [("x", "1")]
      [.element "tspan" [("x", "2"), ("id", "outer"), ("y", "3")]
        [.element "tspan" [("y", "4"), ("x", "5")] [.text "Revenue"]]]]

/-- The theorem at this drawing: the inner part keeps the coordinate that the outer one loses. -/
theorem cleaned_spans_nested :
    (ofTree nestedSpans).WellFormed ∧ (ofTree nestedSpans).NamesDistinct ∧
      ((ofTree nestedSpans).clean 0 ["text"]).attributes 2 = [("id", "outer"), ("y", "3")] ∧
      ((ofTree nestedSpans).clean 0 ["text"]).attributes 3 = [("x", "5")] ∧
      ((ofTree nestedSpans).clean 0 ["text"]).clean 0 ["text"] =
        (ofTree nestedSpans).clean 0 ["text"] := by
  have whole := wellFormed_ofTree nestedSpans
  have distinct : (ofTree nestedSpans).NamesDistinct := by
    intro n
    by_cases inside : n < 5
    · revert n
      decide +kernel
    · have bare : (ofTree nestedSpans).attributes n = [] :=
        attributes_eq_nil (not_isElement_of_le (Nat.not_lt.1 inside))
      rw [bare]
      exact List.nodup_nil
  have spans : (ofTree nestedSpans).findAll 0 ["tspan"] = [2, 3] := by decide +kernel
  have span (n : NodeId) (member : n ∈ [2, 3]) : (ofTree nestedSpans).SpanBelow 0 n := by
    rw [← spans] at member
    exact whole.mem_findAll_iff.1 member
  obtain ⟨-, -, again, -, -, left⟩ := cleaned_spans whole distinct 0
  refine ⟨whole, distinct, ?_, ?_, again⟩
  · rw [left 2 (span 2 (by decide))]
    decide +kernel
  · rw [left 3 (span 3 (by decide))]
    decide +kernel

end Infographic.Markup.Document
