/-
# Infographic.Proofs.InlineStyle -- inline styles are faithful maps

A declaration is clean when its property and its value are trimmed, the property is not
empty, and neither holds a separator.  Whatever is read from a style attribute is clean
(`StyleList.clean_ofText`), and a list of clean declarations that is written is read back
as it was (`StyleList.ofText_toText`).  So an element's style is a map: giving a property
a clean value changes that property only (`Document.style?_setStyle`), and so does taking
it out (`Document.style?_removeStyle`).
-/
import Infographic.Markup.Style
import Infographic.Proofs.Arena
import Infographic.Proofs.TextPieces

namespace Infographic.Markup

set_option autoImplicit false

open Infographic.Text

/-! ## Clean declarations -/

/-- A text that can stand behind the colon of a declaration. -/
structure CleanValue (value : String) : Prop where
  trimmed : trim value.toList = value.toList
  whole : ';' ∉ value.toList

/-- A text that can stand before the colon of a declaration. -/
structure CleanProperty (property : String) : Prop where
  present : property.toList ≠ []
  trimmed : trim property.toList = property.toList
  whole : ';' ∉ property.toList
  closed : ':' ∉ property.toList

/-- A declaration that is read back as it was written. -/
structure CleanDeclaration (e : String × String) : Prop where
  property : CleanProperty e.1
  value : CleanValue e.2

namespace StyleList

variable {style : StyleList} {e : String × String}

/-- The declarations in a text. -/
def read (cs : List Char) : StyleList :=
  (splitAt ';' cs).filterMap readDeclaration

theorem readDeclaration_cons_space (cs : List Char) :
    readDeclaration (' ' :: cs) = readDeclaration cs := by
  have step : cutWhere (· == ':') (' ' :: cs) =
      (cutWhere (· == ':') cs).map fun cut => (' ' :: cut.1, cut.2) := rfl
  rw [readDeclaration, readDeclaration, step]
  cases cutWhere (· == ':') cs with
  | none => rfl
  | some cut =>
      obtain ⟨property, value⟩ := cut
      simp only [Option.map_some]
      rw [trim_cons_space]

/-- Space before a declaration does not count. -/
theorem read_cons_space (cs : List Char) : read (' ' :: cs) = read cs := by
  have other : ' ' ≠ ';' := by decide
  obtain ⟨piece, pieces, cut, next⟩ := splitAt_cons other cs
  rw [read, read, cut, next, List.filterMap_cons, List.filterMap_cons,
    readDeclaration_cons_space]

theorem readDeclaration_of_clean (clean : CleanDeclaration e) :
    readDeclaration (e.1.toList ++ ':' :: ' ' :: e.2.toList) = some e := by
  have free : ∀ c ∈ e.1.toList, (c == ':') = false := by
    intro c member
    have other : c ≠ ':' := fun same => clean.property.closed (same ▸ member)
    simpa using other
  rw [readDeclaration, cutWhere_append free (by decide)]
  simp only
  rw [trim_cons_space, clean.property.trimmed, clean.value.trimmed]
  simp [clean.property.present]

/-- A clean declaration is read off the front of a text. -/
theorem read_writeDeclaration (clean : CleanDeclaration e) (rest : List Char) :
    read (writeDeclaration e ++ rest) = e :: read rest := by
  have whole : ';' ∉ e.1.toList ++ ':' :: ' ' :: e.2.toList := by
    simp [clean.property.whole, clean.value.whole]
  have text : writeDeclaration e ++ rest =
      (e.1.toList ++ ':' :: ' ' :: e.2.toList) ++ ';' :: rest := by
    simp [writeDeclaration]
  rw [read, text, splitAt_append_sep whole, List.filterMap_cons, readDeclaration_of_clean clean]
  rfl

theorem read_nil : read [] = [] := by
  simp [read, splitAt, splitWhere, readDeclaration, cutWhere]

/-- Clean declarations are read back as they were written. -/
theorem ofText_toText (clean : ∀ e ∈ style, CleanDeclaration e) :
    ofText (toText style) = style := by
  have main : read (join [' '] (style.map writeDeclaration)) = style := by
    induction style with
    | nil => exact read_nil
    | cons e rest ih =>
        have first := clean e List.mem_cons_self
        have later := ih fun e member => clean e (List.mem_cons_of_mem _ member)
        cases rest with
        | nil =>
            have single := read_writeDeclaration first []
            rwa [List.append_nil, read_nil] at single
        | cons next more =>
            rw [List.map_cons, List.map_cons, join_cons_cons, read_writeDeclaration first,
              List.singleton_append, read_cons_space, ← List.map_cons, later]
  rw [ofText, toText, String.toList_ofList]
  exact main

theorem clean_of_readDeclaration {cs : List Char} (whole : ';' ∉ cs)
    (found : readDeclaration cs = some e) : CleanDeclaration e := by
  rw [readDeclaration] at found
  cases cut : cutWhere (· == ':') cs with
  | none => simp [cut] at found
  | some parts =>
      obtain ⟨property, value⟩ := parts
      obtain ⟨c, -, rfl, free⟩ := append_of_cutWhere cut
      simp only [cut] at found
      split at found
      · simp at found
      · rename_i present
        obtain rfl := Option.some.inj found
        simp only [List.mem_append, List.mem_cons, not_or] at whole
        refine ⟨⟨?_, ?_, fun inside => ?_, fun inside => ?_⟩, ⟨?_, fun inside => ?_⟩⟩
        · simpa using present
        · rw [String.toList_ofList]; exact trimWhere_trimWhere
        · rw [String.toList_ofList] at inside
          exact whole.1 (mem_of_mem_trimWhere inside)
        · rw [String.toList_ofList] at inside
          simpa using free ':' (mem_of_mem_trimWhere inside)
        · rw [String.toList_ofList]; exact trimWhere_trimWhere
        · rw [String.toList_ofList] at inside
          exact whole.2.2 (mem_of_mem_trimWhere inside)

/-- What is read from a text is clean. -/
theorem clean_ofText {s : String} : ∀ e ∈ ofText s, CleanDeclaration e := by
  intro e member
  obtain ⟨piece, inside, found⟩ := List.mem_filterMap.1 member
  exact clean_of_readDeclaration (not_mem_of_mem_splitAt inside) found

theorem find?_filter_ne (property q : String) :
    find? (style.filter fun e => e.1 != property) q =
      if q = property then none else style.find? q := by
  rw [find?, List.find?_filter]
  by_cases here : q = property
  · rw [if_pos here, Option.map_eq_none_iff, List.find?_eq_none]
    simp [here]
  · rw [if_neg here, find?]
    congr 2
    funext e
    by_cases first : e.1 = q
    · simp [first, here]
    · simp [first]

end StyleList

/-! ## The style of an element -/

namespace Document

variable {d d' : Document} {id n : NodeId} {property value : String}

theorem clean_styleList : ∀ e ∈ d.styleList n, CleanDeclaration e := by
  unfold styleList
  cases d.attribute? n "style" with
  | none => simp
  | some s => exact StyleList.clean_ofText

/-- What is read as the value of a property is clean. -/
theorem cleanValue_of_style? (found : d.style? n property = some value) : CleanValue value := by
  obtain ⟨e, here, rfl⟩ := Option.map_eq_some_iff.1 found
  exact (clean_styleList e (List.mem_of_find?_eq_some here)).value

theorem styleList_congr (same : d.attribute? n "style" = d'.attribute? n "style") :
    d.styleList n = d'.styleList n := by
  rw [styleList, styleList, same]

theorem style?_congr (same : d.attribute? n "style" = d'.attribute? n "style")
    (q : String) : d.style? n q = d'.style? n q := by
  rw [style?, style?, styleList_congr same]

theorem styleList_eq_nil (plain : d.isElement n = false) : d.styleList n = [] := by
  simp [styleList, attribute?, attributes_eq_nil plain]

theorem isElement_of_style? {q : String} (present : (d.style? n q).isSome) :
    d.isElement n = true := by
  cases element : d.isElement n with
  | true => rfl
  | false => simp [style?, styleList_eq_nil element, StyleList.find?] at present

theorem styleList_setStyle (clean : CleanDeclaration (property, value)) :
    (d.setStyle id property value).styleList n =
      if id = n ∧ d.isElement n = true then setEntry property value (d.styleList n)
      else d.styleList n := by
  rw [setStyle, styleList, attribute?_setAttribute]
  by_cases here : id = n ∧ d.isElement n = true
  · obtain ⟨rfl, element⟩ := here
    have cleanly : ∀ e ∈ setEntry property value (d.styleList id), CleanDeclaration e := by
      intro e member
      rcases mem_setEntry member with rfl | old
      · exact clean
      · exact clean_styleList e old
    simp only [element, and_self, if_true, Option.map_some, Option.getD_some]
    exact StyleList.ofText_toText cleanly
  · rw [if_neg fun all => here ⟨all.1, all.2.1⟩, if_neg here]
    rfl

/-- Giving a property a clean value changes this property of this element only. -/
theorem style?_setStyle (clean : CleanDeclaration (property, value)) (q : String) :
    (d.setStyle id property value).style? n q =
      if id = n ∧ d.isElement n = true ∧ q = property then some value else d.style? n q := by
  rw [style?, styleList_setStyle clean]
  by_cases here : id = n ∧ d.isElement n = true
  · rw [if_pos here, StyleList.find?, find?_setEntry]
    simp [here, style?, StyleList.find?]
  · rw [if_neg here, if_neg fun all => here ⟨all.1, all.2.1⟩]
    rfl

/-- Taking out a property changes this property of this element only, as long as the
element has another one. -/
theorem style?_removeStyle (other : ∃ q, q ≠ property ∧ (d.style? id q).isSome) (q : String) :
    (d.removeStyle id property).style? n q =
      if id = n ∧ q = property then none else d.style? n q := by
  obtain ⟨kept, apart, present⟩ := other
  cases held : d.attribute? id "style" with
  | none => simp [style?, styleList, held, StyleList.find?] at present
  | some s =>
      have list : d.styleList id = StyleList.ofText s := by simp [styleList, held]
      have element : d.isElement id = true := isElement_of_style? present
      have remains : ((StyleList.ofText s).filter fun e => e.1 != property).isEmpty = false := by
        have found := @StyleList.find?_filter_ne (StyleList.ofText s) property kept
        rw [if_neg apart, ← list] at found
        rw [← list]
        cases rest : (d.styleList id).filter fun e => e.1 != property with
        | nil =>
            rw [rest] at found
            rw [style?, ← found] at present
            simp [StyleList.find?] at present
        | cons e more => rfl
      rw [removeStyle, held]
      simp only [remains, Bool.false_eq_true, if_false]
      rw [style?, styleList, attribute?_setAttribute]
      by_cases here : id = n
      · subst here
        have cleanly : ∀ e ∈ (StyleList.ofText s).filter fun e => e.1 != property,
            CleanDeclaration e :=
          fun e member => StyleList.clean_ofText e (List.mem_filter.1 member).1
        simp only [element, and_self, if_true, Option.map_some, Option.getD_some, true_and]
        rw [StyleList.ofText_toText cleanly, StyleList.find?_filter_ne, ← list]
        rfl
      · simp only [here, false_and, if_false]
        rfl

end Document

end Infographic.Markup
