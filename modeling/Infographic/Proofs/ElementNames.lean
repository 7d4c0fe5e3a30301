/-
# Infographic.Proofs.ElementNames -- a name belongs to the first element that claims it

A plain id claims itself.  An id with a directive claims what is left of it without its tags, and
the name in the directive; empty names are not claimed.  The table of names is filled in document
order and never takes a name back, so a name leads to the first element, the starting node before
those below it, whose id claims the name (`find?_nameTable`).  Together with the walk that lists
the elements this is `names_in_document_order`.
-/
import Infographic.Binding.Lookup
import Infographic.Proofs.TreeWalk

namespace Infographic.Binding

set_option autoImplicit false

open Markup (Document NodeId Tree)

variable {d : Document} {n : NodeId} {id name : String}

/-! ## Claims -/

/-- What is left of an id without its tags, and without spaces and hyphens around it. -/
def baseName (id : String) : String :=
  String.ofList
    (Text.trimWhere (fun c => c == ' ' || c == '-') (Directive.stripTags id.toList))

/-- The names an id claims. -/
inductive ClaimedBy (id : String) : String → Prop
  | plain (untagged : Directive.hasTag id.toList = false) : ClaimedBy id id
  | base (tagged : Directive.hasTag id.toList = true) (nonempty : baseName id ≠ "") :
      ClaimedBy id (baseName id)
  | directive {directive : Directive} (tagged : Directive.hasTag id.toList = true)
      (read : Directive.ofText id = .ok directive) (nonempty : directive.name ≠ "") :
      ClaimedBy id directive.name

/-- The id of an element claims a name. -/
def Claims (d : Document) (n : NodeId) (name : String) : Prop :=
  ∃ id, d.attribute? n "id" = some id ∧ ClaimedBy id name

theorem mem_namesOfId_iff : name ∈ namesOfId id ↔ ClaimedBy id name := by
  rw [namesOfId]
  cases tagged : Directive.hasTag id.toList with
  | false =>
      rw [if_neg (by simp), List.mem_singleton]
      constructor
      · rintro rfl
        exact .plain tagged
      · intro claimed
        cases claimed with
        | plain => rfl
        | base mark => rw [tagged] at mark; cases mark
        | directive mark => rw [tagged] at mark; cases mark
  | true =>
      rw [if_pos rfl]
      simp only [List.mem_filter, List.mem_cons, List.not_mem_nil, or_false]
      constructor
      · rintro ⟨rfl | rfl, nonempty⟩
        · exact .base tagged (by simpa [baseName] using nonempty)
        · cases read : Directive.ofText id with
          | ok directive =>
              rw [read] at nonempty
              exact .directive tagged read (by simpa using nonempty)
          | error fault => simp [read] at nonempty
      · intro claimed
        cases claimed with
        | plain mark => rw [tagged] at mark; cases mark
        | base _ nonempty => exact ⟨.inl rfl, by simpa using nonempty⟩
        | directive _ read nonempty => exact ⟨.inr (by rw [read]), by simpa using nonempty⟩

/-- The names of an element are those that its id claims. -/
theorem mem_namesOf_iff : name ∈ namesOf d n ↔ Claims d n name := by
  rw [namesOf, Claims]
  cases given : d.attribute? n "id" with
  | none => simp
  | some id =>
      simp only [Option.map_some, Option.getD_some, Option.some.injEq, exists_eq_left']
      exact mem_namesOfId_iff

instance (d : Document) (n : NodeId) (name : String) : Decidable (Claims d n name) :=
  decidable_of_iff (name ∈ namesOf d n) mem_namesOf_iff

/-! ## The table -/

namespace NameTable

variable {names : NameTable}

/-- A name that is taken stays with its element. -/
theorem find?_claim (names : NameTable) (claimed : String) (n : NodeId) :
    (names.claim claimed n).find? name =
      (names.find? name).or (if claimed = name then some n else none) := by
  rw [claim]
  split
  · rename_i taken
    by_cases same : claimed = name
    · obtain ⟨holder, found⟩ := Option.isSome_iff_exists.1 taken
      subst same
      rw [found, Option.some_or]
    · rw [if_neg same, Option.or_none]
  · rw [find?, List.find?_append]
    by_cases same : claimed = name <;> cases held : List.find? (fun e => e.1 == name) names <;>
      simp [find?, same, held]

/-- Of the names an element claims it gets those that are not taken. -/
theorem find?_claims (names : NameTable) (claimed : List String) (n : NodeId) :
    NameTable.find? (claimed.foldl (fun names name => names.claim name n) names) name =
      (names.find? name).or (if name ∈ claimed then some n else none) := by
  induction claimed generalizing names with
  | nil => simp
  | cons first rest ih =>
      rw [List.foldl_cons, ih, find?_claim, Option.or_assoc]
      congr 1
      by_cases same : first = name
      · simp [same]
      · simp [same, Ne.symm same]

end NameTable

/-- Elements claim their names one after the other. -/
theorem find?_claimAll (names : NameTable) (ids : List NodeId) :
    NameTable.find? (ids.foldl
        (fun names n => (namesOf d n).foldl (fun names name => names.claim name n) names) names)
      name = (names.find? name).or (ids.find? fun n => Claims d n name) := by
  induction ids generalizing names with
  | nil => simp
  | cons n rest ih =>
      rw [List.foldl_cons, ih, NameTable.find?_claims, Option.or_assoc, List.find?_cons]
      congr 1
      by_cases claims : Claims d n name
      · simp [claims, mem_namesOf_iff.2 claims]
      · have other : name ∉ namesOf d n := fun member => claims (mem_namesOf_iff.1 member)
        simp [claims, other]

/-- **A name belongs to the first element, the starting node first, that claims it.** -/
theorem find?_nameTable (d : Document) (root : NodeId) (name : String) :
    (nameTable d root).find? name =
      (root :: d.descendants root).find? fun n => Claims d n name := by
  rw [nameTable, find?_claimAll]
  exact Option.none_or

/-! ## Document order -/

/-- The first element with a tag, in document order. -/
theorem find?_tag (d : Document) (n : NodeId) (tag : String) :
    d.findFirst? n tag = (n :: d.descendants n).find? fun c => d.tag? c = some tag := by
  rw [Document.findFirst?, List.find?_cons]
  by_cases here : d.tag? n = some tag
  · simp [here]
  · simp only [here, if_false, decide_false, beq_eq_decide]

/-- **Elements are found in document order.**  In a well-formed document the walk with a stack
stops after at most as many steps as there are nodes; it has then listed the elements below the
node in document order, each once.  The first match and the holder of a name are the first in this
list behind the node itself. -/
theorem names_in_document_order (whole : d.WellFormed) (n : NodeId) :
    (∀ k, d.nodeCount ≤ k →
      Document.Walk.run d k (Document.Walk.start d n) = ⟨[], d.descendants n⟩) ∧
    (∀ out, d.Preorder (d.children n) out ↔ out = d.descendants n) ∧
    (d.descendants n).Nodup ∧
    (∀ c, c ∈ d.descendants n ↔ d.Below n c) ∧
    (d.LeafTexts → ∀ c, c ∈ d.descendants n ↔
      d.isElement c = true ∧ Relation.TransGen (fun p b => b ∈ d.children p) n c) ∧
    (∀ tag, d.findFirst? n tag = (n :: d.descendants n).find? fun c => d.tag? c = some tag) ∧
    ∀ name, (nameTable d n).find? name =
      (n :: d.descendants n).find? fun c => Claims d c name := by
  have listed := whole.preorder_descendants n
  refine ⟨fun k enough => whole.run_start n enough, fun out => ⟨listed.unique, ?_⟩,
    Document.nodup_descendants whole n, fun c => whole.mem_descendants_iff, ?_,
    find?_tag d n, find?_nameTable d n⟩
  · rintro rfl
    exact listed
  · intro leaves c
    rw [whole.mem_descendants_iff]
    constructor
    · intro below
      have element := Document.isElement_of_mem_descendants whole.toLinked
        (whole.mem_descendants_iff.2 below)
      exact ⟨element, (leaves.below_iff element).1 below⟩
    · rintro ⟨element, below⟩
      exact (leaves.below_iff element).2 below

/-- A drawing with texts between its elements, in which several ids claim the same names. -/
def claimedTwice : Tree :=
  .element "svg" [("id", "root")]
    [.element "path" [("id", "track")] [],
      .text "between",
      .element "g" [("id", "bar-\x7b\x7bs:Revenue,g:track\x7d\x7d")]
        [.element "rect" [("id", "bar")] [],
          .element "text" [("id", "dot \x7b\x7bExpenses|f:Expenses\x7d\x7d")] [.text "inside"]],
      .element "g" [("id", "Expenses")] []]

/-- The theorem at this drawing: both names go to the elements with directives, which stand before
those with plain ids. -/
theorem names_in_document_order_twice :
    (Document.ofTree claimedTwice).WellFormed ∧ (Document.ofTree claimedTwice).LeafTexts ∧
      Document.Walk.run (Document.ofTree claimedTwice) 8
        (Document.Walk.start (Document.ofTree claimedTwice) 0) = ⟨[], [1, 3, 4, 5, 7]⟩ ∧
      (Document.ofTree claimedTwice).findFirst? 0 "g" = some 3 ∧
      (nameTable (Document.ofTree claimedTwice) 0).find? "bar" = some 3 ∧
      (nameTable (Document.ofTree claimedTwice) 0).find? "Expenses" = some 5 := by
  have whole := Document.wellFormed_ofTree claimedTwice
  have listed : (Document.ofTree claimedTwice).descendants 0 = [1, 3, 4, 5, 7] := by
    decide +kernel
  obtain ⟨walked, -, -, -, -, tagged, named⟩ := names_in_document_order whole 0
  refine ⟨whole, Document.leafTexts_ofTree claimedTwice, ?_, ?_, ?_, ?_⟩
  · rw [walked 8 (by decide +kernel), listed]
  · rw [tagged, listed]
    decide +kernel
  · rw [named, listed]
    decide +kernel
  · rw [named, listed]
    decide +kernel

end Infographic.Binding
