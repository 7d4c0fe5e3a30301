/-
# Infographic.Proofs.MarkupRoundTrip -- reading the markup of what was read

The markup of a document is that of the tree it was made of (`markup_ofTree`), so what is known
of written trees holds of documents: of a text that is read, the markup is read too, and gives
the tree with neighbouring texts joined, empty ones dropped and white space settled
(`read_markup`).  This needs unambiguous names, because a name is written with the first
qualifier for its namespace whichever it was read with.
-/
import Infographic.Proofs.TreeHeight
import Infographic.Proofs.DocumentOfTree
import Infographic.Proofs.WrittenMarkup

namespace Infographic.Markup

set_option autoImplicit false

namespace Document

/-! ## The markup of a document -/

/-- A document has the nodes of an arena from `start` on. -/
def HasFrom (d : Document) (start : Nat) (nodes : Array Node) : Prop :=
  ∀ n, start ≤ n → n < nodes.size → d.nodes[n]? = nodes[n]?

variable {d : Document} {height : NodeId → Nat}

mutual

theorem markupFrom_addTree (high : d.Height height) (before : Array Node)
    (parent : Option NodeId) : (t : Tree) → d.HasFrom before.size (addTree before parent t) →
    (fuel : Nat) → height before.size < fuel → d.markupFrom fuel before.size = writeTree t
  | .text s, has, fuel, enough => by
      obtain ⟨fuel, rfl⟩ : ∃ n, fuel = n + 1 := ⟨fuel - 1, by omega⟩
      have here : d.nodes[before.size]? = some ⟨.text s, parent, []⟩ := by
        rw [has before.size (Nat.le_refl _) (by simp [addTree]), addTree, Array.getElem?_push_size]
      have kind : d.kind? before.size = some (.text s) := by
        rw [kind?, here]
        rfl
      rw [markupFrom, kind]
      rfl
  | .element tag attributes children, has, fuel, enough => by
      obtain ⟨fuel, rfl⟩ : ∃ n, fuel = n + 1 := ⟨fuel - 1, by omega⟩
      have inside := markupFrom_addTrees high
        (before.push ⟨.element tag attributes, parent, []⟩) before.size children
      have below := grows_addTrees (before.push ⟨.element tag attributes, parent, []⟩) before.size
        children
      rw [addTree] at has
      generalize pushed : before.push ⟨.element tag attributes, parent, []⟩ = grown
        at has inside below
      generalize addTrees grown before.size children = added at has inside below
      obtain ⟨after, ids⟩ := added
      dsimp only at has inside below
      have first : grown.size = before.size + 1 := by simp [← pushed]
      have size := below.size
      have here : d.nodes[before.size]? = some ⟨.element tag attributes, parent, ids⟩ := by
        rw [has before.size (Nat.le_refl _) (by rw [Array.size_modify]; omega),
          Array.getElem?_modify, if_pos rfl, below.old before.size (by omega), ← pushed,
          Array.getElem?_push_size]
        rfl
      have kind : d.kind? before.size = some (.element tag attributes) := by
        rw [kind?, here]
        rfl
      have under : d.children before.size = ids := by
        rw [Document.children, here]
        rfl
      have has_below : d.HasFrom grown.size after := fun n low less => by
        rw [has n (by omega) (by rwa [Array.size_modify]), Array.getElem?_modify, if_neg (by omega)]
      obtain ⟨written, empty⟩ := inside has_below fuel fun c member => by
        have less := high.lt_of_child before.size c (by rwa [under])
        omega
      rw [markupFrom, kind]
      dsimp only
      rw [under, written, empty]
      rfl

theorem markupFrom_addTrees (high : d.Height height) (before : Array Node) (parent : NodeId) :
    (ts : List Tree) → d.HasFrom before.size (addTrees before parent ts).1 → (fuel : Nat) →
    (∀ c ∈ (addTrees before parent ts).2, height c < fuel) →
    (addTrees before parent ts).2.flatMap (d.markupFrom fuel) = writeTrees ts ∧
      (addTrees before parent ts).2.isEmpty = ts.isEmpty
  | [], _, _, _ => ⟨rfl, rfl⟩
  | t :: ts, has, fuel, enough => by
      have first := grows_addTree before (some parent) t
      have later := grows_addTrees (addTree before (some parent) t) parent ts
      have less := first.size
      have size := later.size
      rw [addTrees] at has enough ⊢
      have has_first : d.HasFrom before.size (addTree before (some parent) t) :=
        fun n low inside => by
          rw [has n low (Nat.lt_of_lt_of_le inside size), later.old n inside]
      have has_later : d.HasFrom (addTree before (some parent) t).size
          (addTrees (addTree before (some parent) t) parent ts).1 :=
        fun n low inside => has n (by omega) inside
      obtain ⟨written, -⟩ := markupFrom_addTrees high _ parent ts has_later fuel fun c member =>
        enough c (List.mem_cons_of_mem _ member)
      refine ⟨?_, rfl⟩
      rw [List.flatMap_cons, written, markupFrom_addTree high before (some parent) t has_first fuel
        (enough _ List.mem_cons_self)]
      rfl

end

/-- **The markup of a document is that of its tree.** -/
theorem markup_ofTree (t : Tree) : (ofTree t).markup = String.ofList (writeTree t) := by
  obtain ⟨height, high⟩ := (wellFormed_ofTree t).exists_height
  have inside : 0 < (ofTree t).nodeCount := (grows_addTree #[] none t).size
  have low := high.lt_nodeCount 0 inside
  have has : (ofTree t).HasFrom 0 (addTree #[] none t) := fun _ _ _ => rfl
  exact congrArg String.ofList
    (markupFrom_addTree high #[] none t has _ (Nat.lt_succ_of_lt low))

end Document

/-! ## Plain trees -/

/-- A tree whose values have no tabs and line breaks, and whose texts no carriage returns. -/
def PlainTree : Tree → Prop :=
  Tree.Every (fun attributes _ => ∀ a ∈ attributes, ∀ c ∈ a.2.toList, attributeChar c = c)
    fun s => '\r' ∉ s.toList

/-- A tree in which no element has empty texts only. -/
def FilledTree : Tree → Prop :=
  Tree.Every (fun _ children => children = [] ∨ ∃ c ∈ children, c ≠ .text "") fun _ => True

theorem settleAttributes_id {attributes : List (String × String)} :
    settleAttributes id attributes = attributes := by
  simp [settleAttributes]

theorem settleAttributes_plain {attributes : List (String × String)}
    (plain : ∀ a ∈ attributes, ∀ c ∈ a.2.toList, attributeChar c = c) :
    settleAttributes settleValue attributes = settleAttributes id attributes :=
  List.map_congr_left fun a member => by rw [settleValue_eq_self (plain a member)]; rfl

theorem tidyAll_plain (before : List Char) (ts : List Tree) (clean : '\r' ∉ before)
    (plain : ∀ t ∈ ts, PlainTree t) :
    tidyAll settleValue settleText before ts = tidyAll id id before ts := by
  match ts with
  | [] => rw [tidyAll, tidyAll, textTrees, textTrees, settleText_eq_self clean]; rfl
  | .text s :: ts =>
      obtain ⟨free⟩ | - := plain _ List.mem_cons_self
      rw [tidyAll, tidyAll]
      refine tidyAll_plain _ ts (fun member => ?_) fun t member =>
        plain t (List.mem_cons_of_mem _ member)
      exact (List.mem_append.1 member).elim clean free
  | .element tag attributes children :: ts =>
      obtain - | ⟨values, below⟩ := plain _ List.mem_cons_self
      have inside := tidyAll_plain [] children (by simp) below
      have behind := tidyAll_plain [] ts (by simp) fun t member =>
        plain t (List.mem_cons_of_mem _ member)
      rw [tidyAll, tidyAll, behind, Tree.tidy, Tree.tidy, inside, settleAttributes_plain values,
        textTrees, textTrees, settleText_eq_self clean]
      rfl
termination_by sizeOf ts

theorem settled_eq_merged {t : Tree} (plain : PlainTree t) : t.settled = t.merged := by
  obtain ⟨free⟩ | ⟨values, below⟩ := plain
  · rw [Tree.settled, Tree.merged, Tree.tidy, Tree.tidy, settleText_eq_self free]
    rfl
  · rw [Tree.settled, Tree.merged, Tree.tidy, Tree.tidy, settleAttributes_plain values,
      tidyAll_plain [] _ (by simp) below]

/-! ## Writing merged trees -/

theorem textTrees_ne_nil {words : List Char → List Char} {cs : List Char} (some : cs ≠ []) :
    textTrees words cs ≠ [] := by
  rw [textTrees, if_neg (by simpa using some)]
  simp

/-- What is not all empty texts leaves something. -/
theorem tidyAll_ne_nil {value words : List Char → List Char} {before : List Char} {ts : List Tree}
    (some : before ≠ [] ∨ ∃ t ∈ ts, t ≠ .text "") : tidyAll value words before ts ≠ [] := by
  induction ts generalizing before with
  | nil => exact textTrees_ne_nil (some.resolve_right (by simp))
  | cons t ts ih =>
      cases t with
      | element tag attributes children =>
          rw [tidyAll]
          simp
      | text s =>
          rw [tidyAll]
          refine ih ?_
          rcases some with here | ⟨u, member, other⟩
          · exact .inl (by simp [here])
          · rcases List.mem_cons.1 member with rfl | later
            · refine .inl fun nothing => other ?_
              have empty : s.toList = [] := (List.append_eq_nil_iff.1 nothing).2
              rw [String.toList_eq_nil_iff.1 empty]
            · exact .inr ⟨u, later, other⟩

theorem writeTrees_append (first second : List Tree) :
    writeTrees (first ++ second) = writeTrees first ++ writeTrees second := by
  induction first with
  | nil => rfl
  | cons t ts ih => rw [List.cons_append, writeTrees, writeTrees, ih, List.append_assoc]

theorem writeTrees_textTrees (cs : List Char) :
    writeTrees (textTrees id cs) = cs.flatMap escapeChar := by
  rw [textTrees]
  split
  · rename_i nothing
    rw [List.isEmpty_iff.1 nothing]
    rfl
  · rw [writeTrees, writeTree, writeTrees, escape, List.append_nil, String.toList_ofList]
    rfl

/-- A merged element is written as it was, unless all its children are empty texts. -/
theorem writeElement_tidyAll {tag : String} {attributes : List (String × String)}
    {children : List Tree} (filled : children = [] ∨ ∃ c ∈ children, c ≠ .text "")
    (below : writeTrees (tidyAll id id [] children) = writeTrees children) :
    writeTree (.element tag attributes (tidyAll id id [] children)) =
      writeTree (.element tag attributes children) := by
  have empty : (tidyAll id id [] children).isEmpty = children.isEmpty := by
    rcases filled with rfl | some
    · rfl
    · have many : children ≠ [] := by
        rintro rfl
        obtain ⟨c, member, -⟩ := some
        cases member
      rw [List.isEmpty_eq_false_iff.2 many,
        List.isEmpty_eq_false_iff.2 (tidyAll_ne_nil (.inr some))]
  rw [writeTree, writeTree, empty, below]

theorem writeTrees_tidyAll (before : List Char) (ts : List Tree)
    (filled : ∀ t ∈ ts, FilledTree t) :
    writeTrees (tidyAll id id before ts) = before.flatMap escapeChar ++ writeTrees ts := by
  match ts with
  | [] => rw [tidyAll, writeTrees_textTrees, writeTrees, List.append_nil]
  | .text s :: ts =>
      rw [tidyAll, writeTrees, writeTree, escape, writeTrees_tidyAll _ ts fun t member =>
        filled t (List.mem_cons_of_mem _ member), List.flatMap_append, List.append_assoc]
  | .element tag attributes children :: ts =>
      obtain - | ⟨here, below⟩ := filled _ List.mem_cons_self
      have inside := writeTrees_tidyAll [] children below
      have behind := writeTrees_tidyAll [] ts fun t member =>
        filled t (List.mem_cons_of_mem _ member)
      rw [List.flatMap_nil, List.nil_append] at inside behind
      rw [tidyAll, writeTrees_append, writeTrees_textTrees, writeTrees, writeTrees, behind, Tree.tidy,
        settleAttributes_id, writeElement_tidyAll here inside]
termination_by sizeOf ts

theorem writeTree_merged {t : Tree} (filled : FilledTree t) : writeTree t.merged = writeTree t := by
  obtain - | ⟨here, below⟩ := filled
  · rw [Tree.merged, Tree.tidy, id, String.ofList_toList]
  · have inside := writeTrees_tidyAll [] _ below
    rw [List.flatMap_nil, List.nil_append] at inside
    rw [Tree.merged, Tree.tidy, settleAttributes_id, writeElement_tidyAll here inside]

/-! ## The round trip -/

/-- **Markup round trip.**  Of a text that is read, with unambiguous names and attributes that
can be written, the markup is read again, and gives the tree with neighbouring texts joined,
empty ones dropped and white space settled.  Where no value has a tab or a line break and no
text a carriage return, white space is as it was; where also no element has empty texts only,
the markup is a fixed point. -/
theorem read_markup {text : String} {t : Tree} (read : Tree.read text.toList = some t)
    (clear : Unambiguous [] t) (writable : WritableTree t) :
    Document.ofText? text = some (.ofTree t) ∧
      Document.ofText? (Document.ofTree t).markup = some (.ofTree t.settled) ∧
      (PlainTree t → t.settled = t.merged ∧
        (FilledTree t → (Document.ofTree t.settled).markup = (Document.ofTree t).markup)) := by
  obtain ⟨tag, attributes, children, rfl⟩ := element_of_read read
  have standing := stands_of_resolved (resolved_of_read read) Scope.mirrors_nil clear
  refine ⟨by rw [Document.ofText?, read]; rfl, ?_, fun plain => ⟨settled_eq_merged plain,
    fun filled => ?_⟩⟩
  · rw [Document.ofText?, Document.markup_ofTree, String.toList_ofList,
      read_writeTree standing writable]
    rfl
  · rw [settled_eq_merged plain, Document.markup_ofTree, Document.markup_ofTree,
      writeTree_merged filled]

/-- Two namespaces, and text on both sides of a comment. -/
theorem read_markup_namespaces : ∃ t,
    Tree.read "<svg xmlns='u' xmlns:x='v'><g x:a='1'>a<!--c-->b</g></svg>".toList = some t ∧
      Unambiguous [] t ∧ WritableTree t ∧ PlainTree t ∧ FilledTree t ∧
      t.merged = .element "svg" [("xmlns", "u"), ("xmlns:x", "v")]
        [.element "g" [("x:a", "1")] [.text "ab"]] ∧
      Document.ofText? (Document.ofTree t).markup = some (.ofTree t.merged) ∧
      (Document.ofTree t.merged).markup = (Document.ofTree t).markup := by
  have read : Tree.read "<svg xmlns='u' xmlns:x='v'><g x:a='1'>a<!--c-->b</g></svg>".toList =
      some (.element "svg" [("xmlns", "u"), ("xmlns:x", "v")]
        [.element "g" [("x:a", "1")] [.text "a", .text "b"]]) := rfl
  have leads (qualifier : Option String) :
      Scope.Leads [⟨none, "u"⟩, ⟨some "x", "v"⟩] qualifier :=
    Scope.leads_of_distinct (by decide) (by decide) qualifier
  have clear : Unambiguous [] (.element "svg" [("xmlns", "u"), ("xmlns:x", "v")]
      [.element "g" [("x:a", "1")] [.text "a", .text "b"]]) := by
    refine .element ⟨by decide, by decide, by decide, fun _ _ => leads _, fun _ _ _ _ _ => leads _⟩
      fun g member => ?_
    cases List.mem_singleton.1 member
    refine .element ⟨by decide, by decide, by decide, fun _ _ => leads _, fun _ _ _ _ _ => leads _⟩
      fun c member => ?_
    rcases List.mem_pair.1 member with rfl | rfl <;> exact .text
  have every (element : List (String × String) → List Tree → Prop) (text : String → Prop)
      (outer : element [("xmlns", "u"), ("xmlns:x", "v")]
        [.element "g" [("x:a", "1")] [.text "a", .text "b"]])
      (inner : element [("x:a", "1")] [.text "a", .text "b"]) (texts : text "a" ∧ text "b") :
      Tree.Every element text (.element "svg" [("xmlns", "u"), ("xmlns:x", "v")]
        [.element "g" [("x:a", "1")] [.text "a", .text "b"]]) := by
    refine .element outer fun g member => ?_
    cases List.mem_singleton.1 member
    refine .element inner fun c member => ?_
    rcases List.mem_pair.1 member with rfl | rfl
    · exact .text texts.1
    · exact .text texts.2
  have writable : WritableTree _ :=
    every (fun attributes _ => Writable attributes) (fun _ => True)
      ⟨by decide, by decide⟩ ⟨by decide, by decide⟩ ⟨trivial, trivial⟩
  have plain : PlainTree _ :=
    every (fun attributes _ => ∀ a ∈ attributes, ∀ c ∈ a.2.toList, attributeChar c = c)
      (fun s => '\r' ∉ s.toList) (by simp [attributeChar]) (by simp [attributeChar]) (by decide)
  have filled : FilledTree _ :=
    every (fun _ children => children = [] ∨ ∃ c ∈ children, c ≠ .text "") (fun _ => True)
      (.inr ⟨_, List.mem_cons_self, by simp⟩) (.inr ⟨_, List.mem_cons_self, by simp⟩)
      ⟨trivial, trivial⟩
  obtain ⟨-, back, same⟩ := read_markup read clear writable
  obtain ⟨settled, fixed⟩ := same plain
  rw [settled] at back fixed
  exact ⟨_, read, clear, writable, plain, filled, rfl, back, fixed filled⟩

/-- A line break that an attribute holds as a reference is written as it is, and read back as a
space. -/
theorem not_read_markup :
    ∃ d e : Document, Document.ofText? "<svg a='x&#10;y'/>" = some d ∧
      Document.ofText? d.markup = some e ∧
      d.attribute? d.root "a" = some "x\ny" ∧ e.attribute? e.root "a" = some "x y" :=
  ⟨.ofTree (.element "svg" [("a", "x\ny")] []), .ofTree (.element "svg" [("a", "x y")] []),
    by decide +kernel, by decide +kernel, by decide +kernel, by decide +kernel⟩

end Infographic.Markup
