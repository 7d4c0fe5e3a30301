/-
# Infographic.Proofs.InertDeclarations -- declarations that no name is resolved by

A text with one more declaration in its root tag is read as the same document apart from the
attribute that makes it, as long as no declaration of the same namespace stands behind it.
Repairing and gathering a drawing look at four attributes only, so the drawing is made ready
from the same nodes and the same elements are bound (`Session.load_declared`).  In front of the
declaration that a name was resolved by, the new one is found first: its qualifier goes into the
tags, and the `svg` element is not found any more (`Session.not_load_declared`).
-/
import Infographic.Proofs.RegisteredElements
import Infographic.Proofs.RootDeclaration
import Infographic.Proofs.WithoutAttribute

namespace Infographic

set_option autoImplicit false

namespace Markup

namespace Document

/-! ## Documents of trees -/

mutual

theorem addTree_without (key : String) (nodes : Array Node) (parent : Option NodeId) :
    (t : Tree) → addTree (nodes.map (Node.without key)) parent (t.without key) =
      (addTree nodes parent t).map (Node.without key)
  | .element tag as children => by
      have grown : (nodes.map (Node.without key)).push ⟨.element tag (dropKey key as), parent, []⟩ =
          (nodes.push ⟨.element tag as, parent, []⟩).map (Node.without key) := by
        rw [Array.map_push]
        rfl
      have below :=
        addTrees_without key (nodes.push ⟨.element tag as, parent, []⟩) nodes.size children
      rw [Tree.without, addTree, addTree, Array.size_map, grown, below]
      -- What is left is the list of children, which is written behind the nodes below.
      exact (congrArg Document.nodes (without_setChildren (d := ⟨_, 0⟩) _)).symm
  | .text s => by
      rw [Tree.without, addTree, addTree, Array.map_push]
      rfl

theorem addTrees_without (key : String) (nodes : Array Node) (parent : NodeId) :
    (ts : List Tree) → addTrees (nodes.map (Node.without key)) parent (withoutAll key ts) =
      ((addTrees nodes parent ts).1.map (Node.without key), (addTrees nodes parent ts).2)
  | [] => rfl
  | t :: rest => by
      have first := addTree_without key nodes (some parent) t
      have later := addTrees_without key (addTree nodes (some parent) t) parent rest
      rw [withoutAll, addTrees, addTrees, first, later, Array.size_map]

end

/-- The document of a tree without an attribute is the document without it. -/
theorem ofTree_without (key : String) (t : Tree) :
    ofTree (t.without key) = (ofTree t).without key := by
  have grown := addTree_without key #[] none t
  rw [Array.map_empty] at grown
  exact congrArg (fun nodes => Document.mk nodes 0) grown

/-! ## Repairs -/

section

variable {key name : String} {d : Document} {id svg : NodeId}

theorem without_foldl {α : Type} {step : Document → α → Document}
    (same : ∀ d a, (step d a).without key = step (d.without key) a) (xs : List α) (d : Document) :
    (xs.foldl step d).without key = xs.foldl step (d.without key) :=
  (List.foldl_hom (Document.without key) fun d a => (same d a).symm).symm

theorem findAll_without (tags : List String) :
    (d.without key).findAll id tags = d.findAll id tags := by
  rw [findAll, findAll, (sameTree_without key d).descendants, funext (@tag?_without key d)]

theorem findFirst?_without (tag : String) :
    (d.without key).findFirst? id tag = d.findFirst? id tag := by
  rw [findFirst?, findFirst?, tag?_without, (sameTree_without key d).descendants,
    funext (@tag?_without key d)]

theorem without_dropCoordinate (other : name ≠ key) :
    (dropCoordinate id d name).without key = dropCoordinate id (d.without key) name := by
  unfold dropCoordinate
  rw [parent?_without]
  cases d.parent? id with
  | none => rfl
  | some p =>
      dsimp only
      rw [hasAttribute, hasAttribute, attribute?_without other]
      split
      · rw [without_removeAttribute other]
      · rfl

theorem without_decodeId (other : "id" ≠ key) :
    (decodeId d id).without key = decodeId (d.without key) id := by
  unfold decodeId
  rw [attribute?_without other]
  cases d.attribute? id "id" with
  | none => rfl
  | some s =>
      dsimp only
      split
      · rfl
      · rw [without_setAttribute other]

variable (others : ∀ name ∈ ["x", "y", "class", "id"], name ≠ key)

include others

theorem without_cleanSpan : (cleanSpan d id).without key = cleanSpan (d.without key) id := by
  have x := others "x" (by simp)
  have y := others "y" (by simp)
  simp only [cleanSpan, List.foldl_cons, List.foldl_nil, without_dropCoordinate x,
    without_dropCoordinate y]

theorem without_cleanText :
    (d.cleanText svg).without key = (d.without key).cleanText svg := by
  have spans (d : Document) (n : NodeId) :
      (cleanSpan d n).without key = cleanSpan (d.without key) n := without_cleanSpan others
  rw [cleanText, cleanText, findAll_without]
  exact without_foldl spans _ d

theorem without_cleanIds : (d.cleanIds svg).without key = (d.without key).cleanIds svg := by
  have decoded (d : Document) (n : NodeId) :
      (decodeId d n).without key = decodeId (d.without key) n :=
    without_decodeId (others "id" (by simp))
  rw [cleanIds, cleanIds, (sameTree_without key d).descendants]
  exact without_foldl decoded _ d

/-- Repairs look at no other attributes. -/
theorem without_clean (methods : List String) :
    (d.clean svg methods).without key = (d.without key).clean svg methods := by
  unfold clean
  cases isAsked methods "text" with
  | false =>
      cases isAsked methods "decode" with
      | false => rfl
      | true => exact without_cleanIds others
  | true =>
      cases isAsked methods "decode" with
      | false => exact without_cleanText others
      | true =>
          have texts : (d.cleanText svg).without key = (d.without key).cleanText svg :=
            without_cleanText others
          exact (without_cleanIds others).trans (congrArg (cleanIds · svg) texts)

end

end Document

/-! ## Texts with one more declaration -/

/-- A text, and the text with a declaration of a qualifier for a namespace put into its root tag,
which does not declare the qualifier.  The attributes `later` stand behind the declaration. -/
inductive Declared (q u : String) (entities : Entities)
    (later : List (QualifiedName × List Char)) : List Char → List Char → Prop
  | mk {before w after : List Char} {earlier : List (QualifiedName × List Char)}
      (place : RootPlace before after entities earlier later)
      (declares : DeclarationText entities w after q u)
      (fresh : ∀ a ∈ earlier ++ later, a.1 ≠ ⟨"xmlns".toList, q.toList⟩) :
      Declared q u entities later (before ++ after) (before ++ (w ++ after))

/-- What is repaired and gathered is not said in a declaration. -/
theorem ne_declarationKey (q : String) :
    ∀ name ∈ ["x", "y", "class", "id"], name ≠ "xmlns:" ++ q := by
  intro name member same
  have long : ("xmlns:" ++ q).length = 6 + q.length := by
    rw [String.length_append]
    rfl
  have short : ∀ name ∈ ["x", "y", "class", "id"], name.length ≤ 5 := by decide
  have bound := short name member
  rw [same] at bound
  omega

/-- One more declaration is read as one more attribute, and as nothing else. -/
theorem Declared.ofText? {q u : String} {entities : Entities}
    {later : List (QualifiedName × List Char)} {text text' : String} {d : Document}
    (declared : Declared q u entities later text.toList text'.toList) (usual : q ≠ "xml")
    (allowed : u ≠ xmlNamespace ∧ u ≠ xmlnsNamespace)
    (last : ∀ a ∈ later, IsDeclaration a.1 → ¬ StandsFor entities a.2 u)
    (read : Document.ofText? text = some d) :
    ∃ d', Document.ofText? text' = some d' ∧
      d'.without ("xmlns:" ++ q) = d.without ("xmlns:" ++ q) := by
  rw [Document.ofText?, Option.map_eq_some_iff] at read
  obtain ⟨t, read, rfl⟩ := read
  -- The characters are named so that the cases of `Declared` can stand for them.
  generalize written : text.toList = cs at declared read
  generalize written' : text'.toList = cs' at declared
  obtain ⟨place, declares, fresh⟩ := declared
  obtain ⟨t', read', same⟩ := read_declared place declares usual allowed fresh last read
  refine ⟨Document.ofTree t', ?_, ?_⟩
  · rw [Document.ofText?, written', read', Option.map_some]
  · rw [← Document.ofTree_without, same, Document.ofTree_without]

end Markup

open Markup (Document NodeId)
open Markup.Document (attribute?_without findAll_without findFirst?_without lt_of_findFirst?
  nodeCount_without sameTree_without tag?_without text_without wellFormed_ofText?
  without_appendChild without_clean without_create without_foldl without_setAttribute)

/-! ## Bound elements -/

namespace Binding

variable {key : String} {d : Document} {root : NodeId}

theorem eligible_wording_without :
    WordingBinding.eligible (d.without key) root = WordingBinding.eligible d root := by
  have same := sameTree_without key d
  have parts : WordingBinding.parts (d.without key) = WordingBinding.parts d := by
    funext text
    rw [WordingBinding.parts, WordingBinding.parts, same.elementChildren]
  simp only [WordingBinding.eligible, findAll_without, parts,
    text_without]

theorem withOptions_without (other : "id" ≠ key) (keys : List String) :
    withOptions (d.without key) root keys = withOptions d root keys :=
  withOptions_congr (sameTree_without key d)
    (attribute?_without other) root keys

theorem eligible_transforms_without (other : "id" ≠ key) :
    TransformBinding.eligible (d.without key) root = TransformBinding.eligible d root := by
  rw [TransformBinding.eligible, withOptions_without other,
    funext (@tag?_without key d)]
  rfl

/-- What an element asks for is said in its id, its tag and its text. -/
theorem asked_without (other : "id" ≠ key) {families : Families} :
    asked families (d.without key) root = asked families d root := by
  rw [asked, asked, eligible_wording_without, eligible_transforms_without other,
    PaintBinding.eligible, withOptions_without other]
  rfl

end Binding

namespace Template

open Binding

variable {key : String} {d d' : Document} {svg : NodeId} {settings : Settings}

/-! ## Gathering -/

theorem without_moveBody (group : NodeId) :
    (moveBody svg group d).without key = moveBody svg group (d.without key) := by
  have same := sameTree_without key d
  have shape : isBody (d.without key) = isBody d := by
    funext c
    rw [isBody, isBody, same.tag?]
  have appended (d : Document) (c : NodeId) :
      (d.appendChild group c).without key = (d.without key).appendChild group c :=
    without_appendChild group c
  rw [moveBody, moveBody, same.elementChildren, shape, without_appendChild,
    without_foldl appended]

variable (others : ∀ name ∈ ["x", "y", "class", "id"], name ≠ key)

include others

theorem without_withGroup : (withGroup d).without key = withGroup (d.without key) := by
  rw [withGroup, withGroup, nodeCount_without,
    without_setAttribute (others "id" (by simp)),
    without_setAttribute (others "class" (by simp)), Document.createElement,
    without_create]
  rfl

/-- Gathering looks at no other attributes. -/
theorem gather_without :
    gather (d.without key) svg = ((gather d svg).1.without key, (gather d svg).2) := by
  rw [gather_eq, gather_eq, nodeCount_without, without_moveBody,
    without_withGroup others]

theorem gathered_without : gathered settings (d.without key) svg =
    ((gathered settings d svg).1.without key, (gathered settings d svg).2) := by
  rw [gathered, gathered, ← without_clean others, gather_without others]

/-- Documents that are the same apart from another attribute are made ready with the same bound
elements. -/
theorem elements_of_without (whole : d.WellFormed) (whole' : d'.WellFormed)
    (inside : svg < d.nodeCount) (same : d'.without key = d.without key) :
    (ofDocument settings d' svg).elements = (ofDocument settings d svg).elements := by
  have inside' : svg < d'.nodeCount := by
    rwa [← @nodeCount_without key d', same, nodeCount_without]
  have made := @gathered_without key d svg settings others
  have made' := @gathered_without key d' svg settings others
  rw [same, made, Prod.mk.injEq] at made'
  obtain ⟨apart, group⟩ := made'
  have other : "id" ≠ key := others "id" (by simp)
  -- Both gathered drawings are looked at without the attribute, where they are the same.
  rw [elements_ofDocument whole' inside', elements_ofDocument whole inside,
    ← asked_without other, ← apart, asked_without other, group]

end Template

namespace Session

open Markup (Declared IsDeclaration StandsFor)

variable {q u text text' : String} {s : Session}

/-- A text that was read is made ready from its `svg` element, or refused without one. -/
theorem load_of_read {d : Document} (read : Document.ofText? (Text.trimmed text) = some d) :
    s.load text = match d.findFirst? d.root "svg" with
      | none => .error .missingRoot
      | some svg =>
          let t := Template.ofDocument s.settings d svg
          .ok (s.adopt t, t.bindings.length) := by
  rw [load, Template.ofText, read]
  dsimp only
  cases d.findFirst? d.root "svg" <;> rfl

/-- What a session holds behind a load binds the elements of the drawing that was made ready. -/
theorem elements_adopt {t : Template} (sound : t.Sound) :
    ∃ t', (s.adopt t).template = some t' ∧ t'.elements = t.elements := by
  rcases adopt_template s t with here | here
  · exact ⟨t, here, rfl⟩
  · exact ⟨t.apply s.table, here, Template.elements_apply sound s.table⟩

/-- **Declarations that no name is resolved by do nothing.**  Let a text be read, and put a
declaration into its root tag, of a qualifier that the tag does not declare, at any place behind
which no declaration of the same namespace stands.  The text is read again, as the same document
apart from the attribute that makes the declaration.  Where the text was refused by a session the
new one is refused for the same fault; where it was loaded the new one is, with as many bindings
and of the same elements. -/
theorem load_declared {entities : Markup.Entities}
    {later : List (Markup.QualifiedName × List Char)}
    (declared : Declared q u entities later text.toList text'.toList) (usual : q ≠ "xml")
    (allowed : u ≠ Markup.xmlNamespace ∧ u ≠ Markup.xmlnsNamespace)
    (last : ∀ a ∈ later, IsDeclaration a.1 → ¬ StandsFor entities a.2 u)
    {d : Document} (read : Document.ofText? text = some d) :
    (∃ d', Document.ofText? text' = some d' ∧
      d'.without ("xmlns:" ++ q) = d.without ("xmlns:" ++ q)) ∧
    ∀ (s : Session) (source source' : String),
      Text.trimmed source = text → Text.trimmed source' = text' →
      (∀ fault, s.load source = .error fault → s.load source' = .error fault) ∧
      ∀ fresh count, s.load source = .ok (fresh, count) →
        ∃ fresh' t t', s.load source' = .ok (fresh', count) ∧ fresh.template = some t ∧
          fresh'.template = some t' ∧ t'.elements = t.elements := by
  obtain ⟨d', read', same⟩ := declared.ofText? usual allowed last read
  refine ⟨⟨d', read', same⟩, ?_⟩
  rintro s source source' rfl rfl
  have found : d'.findFirst? d'.root "svg" = d.findFirst? d.root "svg" := by
    have root : d'.root = d.root := by
      change (d'.without ("xmlns:" ++ q)).root = (d.without ("xmlns:" ++ q)).root
      rw [same]
    rw [root, ← findFirst?_without, same, findFirst?_without]
  rw [load_of_read read, load_of_read read', found]
  cases here : d.findFirst? d.root "svg" with
  | none => exact ⟨fun _ refused => refused, nofun⟩
  | some svg =>
      refine ⟨nofun, fun fresh count loaded => ?_⟩
      cases loaded
      have whole := wellFormed_ofText? read
      have whole' := wellFormed_ofText? read'
      have inside : svg < d.nodeCount := lt_of_findFirst? here
      have inside' : svg < d'.nodeCount := lt_of_findFirst? (found.trans here)
      have sound := Template.sound_ofDocument s.settings whole inside
      have sound' := Template.sound_ofDocument s.settings whole' inside'
      have elements := @Template.elements_of_without _ d d' svg s.settings
        (Markup.ne_declarationKey q) whole whole' inside same
      obtain ⟨t, held, bound⟩ := elements_adopt (s := s) sound
      obtain ⟨t', held', bound'⟩ := elements_adopt (s := s) sound'
      have count : (Template.ofDocument s.settings d' svg).bindings.length =
          (Template.ofDocument s.settings d svg).bindings.length := by
        rw [sound.length_elements, sound'.length_elements, elements]
      refine ⟨_, t, t', congrArg (fun n => Except.ok (_, n)) count, held, held', ?_⟩
      rw [bound', elements, bound]

/-- The theorem at a drawing with a declaration put between two others, behind the one of its
namespace. -/
theorem load_declared_between :
    let text := "<svg xmlns=\"u\"" ++ " xmlns:t=\"v\"><path id=\"\x7b\x7bf:Value\x7d\x7d\"/></svg>"
    let text' := "<svg xmlns=\"u\"" ++
      (" xmlns:s=\"u\"" ++ " xmlns:t=\"v\"><path id=\"\x7b\x7bf:Value\x7d\x7d\"/></svg>")
    ∃ d d' fresh fresh' t t', Document.ofText? text = some d ∧ Document.ofText? text' = some d' ∧
      d'.attribute? 0 "xmlns:s" = some "u" ∧ d.attribute? 0 "xmlns:s" = none ∧
      d'.without "xmlns:s" = d.without "xmlns:s" ∧
      (start .default).load text = .ok (fresh, 1) ∧ (start .default).load text' = .ok (fresh', 1) ∧
      fresh.template = some t ∧ fresh'.template = some t' ∧ t'.elements = ([], [], [1]) := by
  intro text text'
  let after := " xmlns:t=\"v\"><path id=\"\x7b\x7bf:Value\x7d\x7d\"/></svg>".toList
  let plain : Markup.QualifiedName := ⟨[], "xmlns".toList⟩
  let other : Markup.QualifiedName := ⟨"xmlns".toList, ['t']⟩
  have place : Markup.RootPlace "<svg xmlns=\"u\"".toList after [] [(plain, ['u'])]
      [(other, ['v'])] :=
    .mk (by rfl) (by rfl)
      (.cons (.mk (by rfl) (by rfl) (by rfl) (by rfl) (by rfl) (by rfl)) (.nil _)) (by rfl)
  have declares : Markup.DeclarationText [] " xmlns:s=\"u\"".toList after "s" "u" :=
    .mk (.mk (by rfl) (by rfl) (by rfl) (by rfl) (by rfl) (by rfl)) ⟨2, .none, ['u'], rfl, rfl⟩
  have declared : Declared "s" "u" [] [(other, ['v'])] text.toList text'.toList := by
    rw [String.toList_append, String.toList_append, String.toList_append]
    exact .mk place declares (by decide)
  have last : ∀ a ∈ [(other, ['v'])], IsDeclaration a.1 → ¬ StandsFor [] a.2 "u" := by
    intro a member _ stands
    rw [List.mem_singleton.1 member] at stands
    have read : ∃ acc, Markup.normalizeValue [] 22 .none [] ['v'] = some (.none, acc) ∧
        String.ofList acc.reverse = "u" :=
      stands.normalizeValue nofun (Nat.le_refl 1) (Nat.le_refl 22)
    obtain ⟨acc, normal, same⟩ := read
    cases normal
    exact absurd same (by decide)
  have seen : (Document.ofText? text).map (fun d => d.attribute? 0 "xmlns:s") = some none := by
    decide +kernel
  obtain ⟨d, read, bare⟩ := Option.map_eq_some_iff.1 seen
  have seen' : (Document.ofText? text').map (fun d => d.attribute? 0 "xmlns:s") =
      some (some "u") := by decide +kernel
  obtain ⟨⟨d', read', same⟩, loads⟩ :=
    load_declared declared (by decide) (by decide +kernel) last read
  rw [read'] at seen'
  have usable : ((start .default).load text).toOption.map (fun loaded =>
      (loaded.2, loaded.1.template.map Template.elements)) = some (1, some ([], [], [1])) := by
    decide +kernel
  obtain ⟨⟨fresh, count⟩, brought, built⟩ := Option.map_eq_some_iff.1 usable
  obtain ⟨rfl, elements⟩ := Prod.mk.inj built
  have loaded : (start .default).load text = .ok (fresh, 1) := load_eq_of_toOption brought
  obtain ⟨fresh', t, t', loaded', held, held', equal⟩ :=
    (loads (start .default) text text' (by decide +kernel) (by decide +kernel)).2 fresh 1 loaded
  rw [held, Option.map_some, Option.some.injEq] at elements
  exact ⟨d, d', fresh, fresh', t, t', read, read', Option.some.inj seen', bare, same, loaded,
    loaded', held, held', equal.trans elements⟩

/-- In front of the declaration that the root tag was resolved by, a declaration goes into the
tag, and the drawing is refused. -/
theorem not_load_declared :
    let text := "<svg" ++ " xmlns=\"u\"/>"
    let text' := "<svg" ++ (" xmlns:s=\"u\"" ++ " xmlns=\"u\"/>")
    Declared "s" "u" [] [(⟨[], "xmlns".toList⟩, ['u'])] text.toList text'.toList ∧
      (Document.ofText? text).map (fun d => d.tag? d.root) = some (some "svg") ∧
      (Document.ofText? text').map (fun d => d.tag? d.root) = some (some "s:svg") ∧
      ((start .default).load text).toOption.map Prod.snd = some 0 ∧
      (start .default).load text' = .error .missingRoot := by
  intro text text'
  have place : Markup.RootPlace "<svg".toList " xmlns=\"u\"/>".toList []
      [] [(⟨[], "xmlns".toList⟩, ['u'])] :=
    .mk (by rfl) (by rfl) (.nil _) (by rfl)
  have declares : Markup.DeclarationText [] " xmlns:s=\"u\"".toList " xmlns=\"u\"/>".toList
      "s" "u" :=
    .mk (.mk (by rfl) (by rfl) (by rfl) (by rfl) (by rfl) (by rfl)) ⟨2, .none, ['u'], rfl, rfl⟩
  refine ⟨?_, ?_, ?_, ?_, ?_⟩
  · rw [String.toList_append, String.toList_append, String.toList_append]
    exact .mk place declares (by decide)
  · decide +kernel
  · decide +kernel
  · decide +kernel
  · have unfound : (Document.ofText? (Text.trimmed text')).map
        (fun d => d.findFirst? d.root "svg") = some none := by decide +kernel
    obtain ⟨d, read, none⟩ := Option.map_eq_some_iff.1 unfound
    rw [load_of_read read, none]

end Session

end Infographic
