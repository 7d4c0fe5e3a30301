/-
# Infographic.Proofs.StyleWrites -- writing styles a second time changes nothing

A style attribute is tidy when it is the text that is written for what it reads as.  Every
edit of a style leaves its attribute tidy, and an edit of a tidy one that would give a
property the value it has already is no edit at all (`setStyle_eq_self`,
`removeStyle_eq_self`).  So writing different properties a second time changes nothing
(`putStyles_putStyles`).
-/
import Infographic.Proofs.InlineStyle
import Infographic.Proofs.Unstyled

namespace Infographic.Markup

set_option autoImplicit false

/-- An inline style property of an element, with the value it is to have, or none to take
it out. -/
structure StyleWrite where
  element : NodeId
  property : String
  value : Option String

/-- The place that is written to. -/
def StyleWrite.cell (w : StyleWrite) : NodeId × String :=
  (w.element, w.property)

namespace Document

variable {d : Document} {id n : NodeId} {property value : String}

/-! ## Edits that change nothing -/

/-- The style attribute of a node, if there is one, is not empty and is the text that is
written for what it reads as. -/
def Tidy (d : Document) (n : NodeId) : Prop :=
  ∀ s, d.attribute? n "style" = some s →
    StyleList.ofText s ≠ [] ∧ StyleList.toText (StyleList.ofText s) = s

theorem setStyle_eq_self (tidy : d.Tidy id) (held : d.style? id property = some value) :
    d.setStyle id property value = d := by
  cases text : d.attribute? id "style" with
  | none => simp [style?, styleList, text, StyleList.find?] at held
  | some s =>
      have list : d.styleList id = StyleList.ofText s := by simp [styleList, text]
      rw [style?, list] at held
      rw [setStyle, list, setEntry_eq_self held, (tidy s text).2]
      exact setAttribute_eq_self text

theorem removeStyle_eq_self (tidy : d.Tidy id) (absent : d.style? id property = none) :
    d.removeStyle id property = d := by
  cases text : d.attribute? id "style" with
  | none => simp [removeStyle, text]
  | some s =>
      obtain ⟨filled, same⟩ := tidy s text
      have all : (StyleList.ofText s).filter (fun e => e.1 != property) = StyleList.ofText s := by
        rw [style?, styleList, text] at absent
        simpa [StyleList.find?] using absent
      have remains : (StyleList.ofText s).isEmpty = false := by simpa using filled
      simp only [removeStyle, text, all, remains, Bool.false_eq_true, if_false, same]
      exact setAttribute_eq_self text

/-! ## Edits leave styles tidy -/

theorem tidy_of_setAttribute {style : StyleList} (filled : style ≠ [])
    (clean : ∀ e ∈ style, CleanDeclaration e) (element : d.isElement id = true)
    (before : d.Tidy n ∨ id = n) : (d.setAttribute id "style" style.toText).Tidy n := by
  intro s text
  rw [attribute?_setAttribute] at text
  by_cases here : id = n
  · rw [if_pos ⟨here, here ▸ element, rfl⟩] at text
    obtain rfl := Option.some.inj text
    rw [StyleList.ofText_toText clean]
    exact ⟨filled, rfl⟩
  · rw [if_neg fun all => here all.1] at text
    exact (before.resolve_right here) s text

theorem tidy_setStyle (clean : CleanDeclaration (property, value))
    (element : d.isElement id = true) (before : d.Tidy n ∨ id = n) :
    (d.setStyle id property value).Tidy n := by
  refine tidy_of_setAttribute (fun empty => ?_) (fun e member => ?_) element before
  · have found := @find?_setEntry property value (d.styleList id) property
    simp [empty] at found
  · rcases mem_setEntry member with rfl | old
    · exact clean
    · exact clean_styleList e old

theorem tidy_removeStyle (other : ∃ q, q ≠ property ∧ (d.style? id q).isSome)
    (before : d.Tidy n ∨ id = n) : (d.removeStyle id property).Tidy n := by
  obtain ⟨kept, apart, present⟩ := other
  cases text : d.attribute? id "style" with
  | none => simp [style?, styleList, text, StyleList.find?] at present
  | some s =>
      have list : d.styleList id = StyleList.ofText s := by simp [styleList, text]
      have found := @StyleList.find?_filter_ne (StyleList.ofText s) property kept
      have remains : (StyleList.ofText s).filter (fun e => e.1 != property) ≠ [] := by
        intro empty
        rw [if_neg apart, empty] at found
        rw [style?, list, ← found] at present
        simp [StyleList.find?] at present
      simp only [removeStyle, text, List.isEmpty_iff, remains, if_false]
      refine tidy_of_setAttribute remains (fun e member => ?_) (isElement_of_style? present) before
      exact StyleList.clean_ofText e (List.mem_filter.1 member).1

/-! ## One write -/

/-- Write a style property. -/
def putStyle (d : Document) (w : StyleWrite) : Document :=
  match w.value with
  | some value => d.setStyle w.element w.property value
  | none => d.removeStyle w.element w.property

/-- A write that is read back: it never writes the list of slow properties, and takes
something out only where that list remains. -/
structure Fits (d : Document) (w : StyleWrite) : Prop where
  element : d.isElement w.element = true
  clean : ∀ value, w.value = some value → CleanDeclaration (w.property, value)
  slow : w.value = none → (d.style? w.element "transition-property").isSome = true
  other : w.property ≠ "transition-property"

/-- The write was done: its property has its value, in a tidy attribute. -/
structure Shows (d : Document) (w : StyleWrite) : Prop where
  tidy : d.Tidy w.element
  value : d.style? w.element w.property = w.value

variable {v w : StyleWrite} {ws : List StyleWrite}

theorem unstyled_putStyle (d : Document) (w : StyleWrite) :
    (d.putStyle w).unstyled = d.unstyled := by
  unfold putStyle
  split
  · exact unstyled_setStyle _ _
  · exact unstyled_removeStyle _

/-- A write that was done is not done again. -/
theorem Shows.putStyle_eq (shows : d.Shows w) : d.putStyle w = d := by
  obtain ⟨tidy, held⟩ := shows
  cases value : w.value with
  | some text =>
      simp only [putStyle, value]
      exact setStyle_eq_self tidy (held.trans value)
  | none =>
      simp only [putStyle, value]
      exact removeStyle_eq_self tidy (held.trans value)

namespace Fits

theorem style? (fits : d.Fits w) (n : NodeId) (q : String) :
    (d.putStyle w).style? n q =
      if w.element = n ∧ q = w.property then w.value else d.style? n q := by
  cases value : w.value with
  | some text =>
      simp only [putStyle, value]
      rw [style?_setStyle (fits.clean text value)]
      by_cases here : w.element = n
      · subst here
        simp [fits.element]
      · simp [here]
  | none =>
      simp only [putStyle, value]
      exact style?_removeStyle ⟨_, fits.other.symm, fits.slow value⟩ q

theorem tidy (fits : d.Fits w) (before : d.Tidy n ∨ w.element = n) : (d.putStyle w).Tidy n := by
  cases value : w.value with
  | some text =>
      simp only [putStyle, value]
      exact tidy_setStyle (fits.clean text value) fits.element before
  | none =>
      simp only [putStyle, value]
      exact tidy_removeStyle ⟨_, fits.other.symm, fits.slow value⟩ before

/-- A write fits after another one. -/
theorem putStyle (here : d.Fits w) (fits : d.Fits v) : (d.putStyle w).Fits v where
  element := by rw [isElement_of_unstyled (unstyled_putStyle d w), fits.element]
  clean := fits.clean
  slow gone := by rw [here.style?, if_neg fun both => here.other both.2.symm, fits.slow gone]
  other := fits.other

end Fits

/-- A write is done by another one to the same place or elsewhere. -/
theorem Shows.putStyle (shows : d.Shows v) (fits : d.Fits w) (apart : w.cell ≠ v.cell) :
    (d.putStyle w).Shows v where
  tidy := fits.tidy (.inl shows.tidy)
  value := by
    rw [fits.style?, if_neg fun both => apart (Prod.ext both.1 both.2.symm)]
    exact shows.value

theorem Fits.shows (fits : d.Fits w) : (d.putStyle w).Shows w where
  tidy := fits.tidy (.inr rfl)
  value := by rw [fits.style?, if_pos ⟨rfl, rfl⟩]

/-! ## Many writes -/

/-- Write some style properties. -/
def putStyles (d : Document) (ws : List StyleWrite) : Document :=
  ws.foldl putStyle d

theorem unstyled_putStyles (d : Document) (ws : List StyleWrite) :
    (d.putStyles ws).unstyled = d.unstyled := by
  induction ws generalizing d with
  | nil => rfl
  | cons w rest ih => exact (ih (d.putStyle w)).trans (unstyled_putStyle d w)

theorem putStyles_eq_self (shows : ∀ w ∈ ws, d.Shows w) : d.putStyles ws = d := by
  induction ws with
  | nil => rfl
  | cons w rest ih =>
      have first : d.putStyle w = d := (shows w List.mem_cons_self).putStyle_eq
      have later := ih fun v member => shows v (List.mem_cons_of_mem w member)
      exact (congrArg (putStyles · rest) first).trans later

theorem Shows.putStyles (shows : d.Shows v) (fits : ∀ w ∈ ws, d.Fits w)
    (apart : v.cell ∉ ws.map StyleWrite.cell) : (d.putStyles ws).Shows v := by
  induction ws generalizing d with
  | nil => exact shows
  | cons w rest ih =>
      rw [List.map_cons, List.mem_cons, not_or] at apart
      have here := fits w List.mem_cons_self
      refine ih (shows.putStyle here (Ne.symm apart.1)) (fun u member => ?_) apart.2
      exact here.putStyle (fits u (List.mem_cons_of_mem w member))

/-- Writes to different places are all done in the end. -/
theorem shows_putStyles (fits : ∀ w ∈ ws, d.Fits w) (once : (ws.map StyleWrite.cell).Nodup) :
    ∀ w ∈ ws, (d.putStyles ws).Shows w := by
  induction ws generalizing d with
  | nil => simp
  | cons w rest ih =>
      rw [List.map_cons, List.nodup_cons] at once
      have here := fits w List.mem_cons_self
      have next : ∀ v ∈ rest, (d.putStyle w).Fits v := fun v member =>
        here.putStyle (fits v (List.mem_cons_of_mem w member))
      intro v member
      rcases List.mem_cons.1 member with rfl | later
      · exact here.shows.putStyles next once.1
      · exact ih next once.2 v later

/-- What is not written to stays as it was. -/
theorem style?_putStyles (fits : ∀ w ∈ ws, d.Fits w) {q : String}
    (absent : (n, q) ∉ ws.map StyleWrite.cell) : (d.putStyles ws).style? n q = d.style? n q := by
  induction ws generalizing d with
  | nil => rfl
  | cons w rest ih =>
      rw [List.map_cons, List.mem_cons, not_or] at absent
      have here := fits w List.mem_cons_self
      have later := ih (d := d.putStyle w)
        (fun v member => here.putStyle (fits v (List.mem_cons_of_mem w member))) absent.2
      refine later.trans ?_
      rw [here.style?, if_neg]
      rintro ⟨rfl, rfl⟩
      exact absent.1 rfl

/-- Writing to different places a second time changes nothing. -/
theorem putStyles_putStyles (fits : ∀ w ∈ ws, d.Fits w)
    (once : (ws.map StyleWrite.cell).Nodup) :
    (d.putStyles ws).putStyles ws = d.putStyles ws :=
  putStyles_eq_self (shows_putStyles fits once)

end Document

end Infographic.Markup
