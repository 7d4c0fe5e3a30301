/-
# Infographic.Proofs.StyleEdits -- an element's style is a map from properties to values

In an element whose attributes have distinct names, taking out a property leaves exactly the other
declarations, and the style attribute goes when there are none
(`attribute?_removeStyle_eq_none_iff`).  Edits of an inline style change nothing but that attribute
(`AlikeBesideStyle`).  With the round trip of clean declarations this makes giving a value and
taking it out the edits of a map from properties to values (`inline_style_map`).
-/
import Infographic.Proofs.UpdateFrame

namespace Infographic.Markup

set_option autoImplicit false

/-- A list of declarations declares nothing exactly if it is empty. -/
theorem StyleList.eq_nil_iff {style : StyleList} : style = [] ↔ ∀ q, style.find? q = none := by
  constructor
  · rintro rfl q
    rfl
  · intro absent
    cases style with
    | nil => rfl
    | cons e rest =>
        have here := absent e.1
        simp [find?] at here

namespace Document

variable {d d' : Document} {id : NodeId} {p q v : String}

/-! ## Distinct names -/

/-- Where names are distinct, taking out the first entry under a name takes out all of them. -/
theorem removeEntry_eq_filter {entries : List (String × String)}
    (distinct : (entries.map Prod.fst).Nodup) (name : String) :
    removeEntry name entries = entries.filter fun e => e.1 != name := by
  induction entries with
  | nil => rfl
  | cons e rest ih =>
      rw [List.map_cons, List.nodup_cons] at distinct
      rw [removeEntry]
      by_cases found : e.1 = name
      · have others : ∀ a ∈ rest, (a.1 != name) = true := by
          intro a member
          have apart : a.1 ≠ e.1 := fun same => distinct.1 (same ▸ List.mem_map_of_mem member)
          simpa [found] using apart
        rw [if_pos found, List.filter_cons_of_neg (by simpa using found),
          List.filter_eq_self.2 others]
      · rw [if_neg found, List.filter_cons_of_pos (by simpa using found), ih distinct.2]

/-- Where names are distinct, a removed attribute is gone. -/
theorem attribute?_removeAttribute_self (distinct : ((d.attributes id).map Prod.fst).Nodup)
    (name : String) : (d.removeAttribute id name).attribute? id name = none := by
  rw [attribute?, attributes_removeAttribute_self, removeEntry_eq_filter distinct]
  simp

/-! ## What an edit of a style leaves alone -/

/-- Two documents that are alike but for the style attribute of one node: attributes of other
names stay in their places, and so do all attributes of other nodes. -/
structure AlikeBesideStyle (d d' : Document) (id : NodeId) : Prop where
  unstyled : d'.unstyled = d.unstyled
  elsewhere : ∀ n, n ≠ id → d'.attributes n = d.attributes n

theorem alike_setStyle (d : Document) (id : NodeId) (p v : String) :
    AlikeBesideStyle d (d.setStyle id p v) id where
  unstyled := unstyled_setStyle p v
  elsewhere _ other := attributes_setStyle_of_ne (Ne.symm other) p v

theorem alike_removeStyle (d : Document) (id : NodeId) (p : String) :
    AlikeBesideStyle d (d.removeStyle id p) id where
  unstyled := unstyled_removeStyle p
  elsewhere _ other := attributes_removeStyle_of_ne (Ne.symm other) p

/-- Every attribute of another name keeps its value. -/
theorem AlikeBesideStyle.attribute? (alike : AlikeBesideStyle d d' id) {name : String}
    (other : name ≠ "style") (n : NodeId) : d'.attribute? n name = d.attribute? n name := by
  rw [← attribute?_unstyled other n, alike.unstyled, attribute?_unstyled other n]

/-! ## Taking a property out -/

section

variable (element : d.isElement id = true) (distinct : ((d.attributes id).map Prod.fst).Nodup)

include element distinct

/-- What is left is written to the attribute, unless nothing is left. -/
theorem attribute?_removeStyle (p : String) :
    (d.removeStyle id p).attribute? id "style" =
      let rest := (d.styleList id).filter fun e => e.1 != p
      if rest = [] then none else some (StyleList.toText rest) := by
  cases held : d.attribute? id "style" with
  | none => simp [removeStyle, styleList, held]
  | some s =>
      have list : d.styleList id = StyleList.ofText s := by simp [styleList, held]
      simp only [removeStyle, held, list, List.isEmpty_iff]
      by_cases empty : (StyleList.ofText s).filter (fun e => e.1 != p) = []
      · rw [if_pos empty, if_pos empty]
        exact attribute?_removeAttribute_self distinct "style"
      · rw [if_neg empty, if_neg empty, attribute?_setAttribute, if_pos ⟨rfl, element, rfl⟩]

theorem styleList_removeStyle (p : String) :
    (d.removeStyle id p).styleList id = (d.styleList id).filter fun e => e.1 != p := by
  have cleanly : ∀ e ∈ (d.styleList id).filter fun e => e.1 != p, CleanDeclaration e :=
    fun e member => clean_styleList e (List.mem_filter.1 member).1
  rw [styleList, attribute?_removeStyle element distinct]
  dsimp only
  split
  · rename_i empty
    rw [empty]
    rfl
  · exact StyleList.ofText_toText cleanly

theorem style?_removeStyle_of_distinct (p q : String) :
    (d.removeStyle id p).style? id q = if q = p then none else d.style? id q := by
  rw [style?, styleList_removeStyle element distinct, StyleList.find?_filter_ne]
  rfl

/-- The attribute goes exactly when no other property has a value. -/
theorem attribute?_removeStyle_eq_none_iff (p : String) :
    (d.removeStyle id p).attribute? id "style" = none ↔ ∀ q, q ≠ p → d.style? id q = none := by
  rw [attribute?_removeStyle element distinct]
  dsimp only
  have gone : (d.styleList id).filter (fun e => e.1 != p) = [] ↔
      ∀ q, q ≠ p → d.style? id q = none := by
    rw [StyleList.eq_nil_iff]
    simp only [StyleList.find?_filter_ne]
    refine forall_congr' fun q => ?_
    by_cases same : q = p <;> simp [same, style?]
  split
  · rename_i empty
    exact iff_of_true rfl (gone.1 empty)
  · rename_i left
    exact iff_of_false (Option.some_ne_none _) fun none => left (gone.2 none)

end

/-- **An element's inline style is a map.**  Clean declarations are read back as they were written,
and what is read is clean, whatever the text.  So in an element whose attributes have distinct
names, with any style attribute or none: giving a property a clean value gives it this value and
leaves all other properties as they are; taking it out takes out this property only, and the
attribute with it if no other property has a value.  Nothing but that attribute changes. -/
theorem inline_style_map (element : d.isElement id = true)
    (distinct : ((d.attributes id).map Prod.fst).Nodup) (clean : CleanDeclaration (p, v)) :
    (∀ style : StyleList, (∀ e ∈ style, CleanDeclaration e) →
      StyleList.ofText style.toText = style) ∧
    (∀ s, ∀ e ∈ StyleList.ofText s, CleanDeclaration e) ∧
    (∀ q, (d.setStyle id p v).style? id q = if q = p then some v else d.style? id q) ∧
    AlikeBesideStyle d (d.setStyle id p v) id ∧
    (∀ q, (d.removeStyle id p).style? id q = if q = p then none else d.style? id q) ∧
    ((d.removeStyle id p).attribute? id "style" = none ↔ ∀ q, q ≠ p → d.style? id q = none) ∧
    AlikeBesideStyle d (d.removeStyle id p) id := by
  refine ⟨fun style => StyleList.ofText_toText, fun s => StyleList.clean_ofText, fun q => ?_,
    alike_setStyle d id p v, fun q => style?_removeStyle_of_distinct element distinct p q,
    attribute?_removeStyle_eq_none_iff element distinct p, alike_removeStyle d id p⟩
  rw [style?_setStyle clean]
  simp [element]

/-- An element with a style that is written loosely. -/
def looseStyle : Document :=
  ofTree (.element "rect" [("id", "bar"), ("style", " opacity :0.5;;bad; opacity:1;fill: ")] [])

/-- The theorem at this element, whose only property beside the one that is taken out has an empty
value. -/
theorem inline_style_map_loose :
    looseStyle.isElement 0 = true ∧ ((looseStyle.attributes 0).map Prod.fst).Nodup ∧
      CleanDeclaration ("opacity", "url(#a:b)") ∧
      (looseStyle.setStyle 0 "opacity" "url(#a:b)").style? 0 "fill" = some "" ∧
      (looseStyle.setStyle 0 "opacity" "url(#a:b)").attribute? 0 "id" = some "bar" ∧
      (looseStyle.removeStyle 0 "opacity").style? 0 "opacity" = none ∧
      (looseStyle.removeStyle 0 "opacity").attribute? 0 "style" ≠ none := by
  have element : looseStyle.isElement 0 = true := by decide
  have distinct : ((looseStyle.attributes 0).map Prod.fst).Nodup := by decide
  have clean : CleanDeclaration ("opacity", "url(#a:b)") :=
    ⟨⟨by decide, by decide, by decide, by decide⟩, ⟨by decide, by decide⟩⟩
  have fill : looseStyle.style? 0 "fill" = some "" := by decide
  have bar : looseStyle.attribute? 0 "id" = some "bar" := by decide
  obtain ⟨-, -, set, alike, removed, gone, -⟩ := inline_style_map element distinct clean
  refine ⟨element, distinct, clean, (set "fill").trans fill,
    (alike.attribute? (by decide) 0).trans bar, removed "opacity", fun none => ?_⟩
  have absent := gone.1 none "fill" (by decide)
  rw [fill] at absent
  cases absent

end Document

end Infographic.Markup
