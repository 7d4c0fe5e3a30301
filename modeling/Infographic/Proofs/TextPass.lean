/-
# Infographic.Proofs.TextPass -- of several texts the last one stays

Setting the text of a node has two parts: room is made for one text as its only content
(`Document.lodge`), and the text is written there (`Document.write`).  Where the text goes
(`Document.slot`) and what room is made depends on the shape of the tree alone, and once
room was made it stays.  So a pass over some nodes that sets their texts wipes out every
earlier pass over the same nodes (`Document.setTexts_setTexts`), even where one of the
nodes lies inside another.
-/
import Infographic.Proofs.Arena

namespace Infographic.Markup.Document

set_option autoImplicit false

variable {d : Document} {id n : NodeId}

/-! ## The two parts -/

/-- Make a text of a node. -/
def write (d : Document) (n : NodeId) (s : String) : Document :=
  d.modify n fun node => { node with kind := .text s }

/-- Take some nodes from their parent, on their side only. -/
def orphan (d : Document) (ids : List NodeId) : Document :=
  ids.foldl (fun d c => d.setParent c none) d

/-- Make room for one text as the whole content of a node. -/
def lodge (d : Document) (id : NodeId) : Document :=
  match d.kind? id with
  | some (.element _ _) =>
      let kept := (d.children id).find? d.isText
      let d := d.orphan ((d.children id).filter fun c => some c != kept)
      match kept with
      | some c => d.setChildren id [c]
      | none =>
          let (d, c) := d.create (.text "")
          (d.setParent c (some id)).setChildren id [c]
  | _ => d

/-- Where the text of a node goes. -/
def slot (d : Document) (id : NodeId) : NodeId :=
  match d.kind? id with
  | some (.element _ _) => ((d.children id).find? d.isText).getD d.nodeCount
  | _ => id

theorem write_setParent (s : String) (c : NodeId) (p : Option NodeId) :
    (d.write n s).setParent c p = (d.setParent c p).write n s :=
  modify_comm d fun _ _ => rfl

theorem write_setChildren (s : String) (c : NodeId) (cs : List NodeId) :
    (d.write n s).setChildren c cs = (d.setChildren c cs).write n s :=
  modify_comm d fun _ _ => rfl

theorem write_orphan (s : String) (ids : List NodeId) :
    (d.write n s).orphan ids = (d.orphan ids).write n s := by
  induction ids generalizing d with
  | nil => rfl
  | cons c rest ih =>
      have first : (d.write n s).setParent c none = (d.setParent c none).write n s :=
        write_setParent s c none
      exact (congrArg (fun d => orphan d rest) first).trans ih

theorem write_create (s : String) (kind : NodeKind) (old : n < d.nodeCount) :
    ((d.write n s).create kind).1 = (d.create kind).1.write n s := by
  refine ext_nodes rfl fun m => ?_
  have count : (d.write n s).nodeCount = d.nodeCount := nodeCount_modify d n _
  rw [nodes_create, count, write, write, nodes_modify, nodes_modify, nodes_create]
  by_cases last : m = d.nodeCount
  · have other : ¬ n = m := fun same => Nat.lt_irrefl n (by rw [same, last] at old ⊢; exact old)
    rw [if_pos last, if_neg other, if_pos last]
  · rw [if_neg last, if_neg last]

/-- A new text can be written after it was made. -/
theorem create_text (s : String) :
    (d.create (.text s)).1 = (d.create (.text "")).1.write d.nodeCount s := by
  refine ext_nodes rfl fun m => ?_
  rw [nodes_create, write, nodes_modify, nodes_create]
  by_cases last : m = d.nodeCount
  · rw [if_pos last, if_pos last.symm, if_pos last]
    rfl
  · rw [if_neg last, if_neg (Ne.symm last), if_neg last]

@[simp] theorem nodeCount_write (s : String) : (d.write n s).nodeCount = d.nodeCount :=
  nodeCount_modify d n _

theorem kind?_write (s : String) (m : NodeId) :
    (d.write n s).kind? m = if n = m then (d.kind? m).map fun _ => .text s else d.kind? m := by
  rw [write, kind?_modify, kind?, Option.map_map]
  rfl

@[simp] theorem children_write (s : String) (m : NodeId) :
    (d.write n s).children m = d.children m := by
  rw [write, children, nodes_modify, children]
  split
  · rw [Option.map_map]; rfl
  · rfl

@[simp] theorem nodeCount_orphan (ids : List NodeId) : (d.orphan ids).nodeCount = d.nodeCount := by
  induction ids generalizing d with
  | nil => rfl
  | cons c rest ih => exact (ih (d := d.setParent c none)).trans (nodeCount_setParent d c none)

@[simp] theorem kind?_orphan (ids : List NodeId) (m : NodeId) :
    (d.orphan ids).kind? m = d.kind? m := by
  induction ids generalizing d with
  | nil => rfl
  | cons c rest ih => exact (ih (d := d.setParent c none)).trans (kind?_setParent d c none m)

@[simp] theorem children_orphan (ids : List NodeId) (m : NodeId) :
    (d.orphan ids).children m = d.children m := by
  induction ids generalizing d with
  | nil => rfl
  | cons c rest ih => exact (ih (d := d.setParent c none)).trans (children_setParent d c none m)

/-- Setting a text is making room for it and writing it there. -/
theorem setText_eq (d : Document) (id : NodeId) (s : String) :
    d.setText id s = (d.lodge id).write (d.slot id) s := by
  cases kind : d.kind? id with
  | none =>
      simp only [setText, lodge, slot, kind]
      refine (modify_eq_self fun node found => ?_).symm
      simp [kind?, Option.mem_def.1 found] at kind
  | some k =>
      cases k with
      | text old => simp only [setText, lodge, slot, kind]; rfl
      | element tag as =>
          cases kept : (d.children id).find? d.isText with
          | some c =>
              simp only [setText, lodge, slot, kind, kept]
              exact write_setChildren s id [c]
          | none =>
              simp only [setText, lodge, slot, kind, kept, Option.getD_none]
              rw [← orphan, ← nodeCount_orphan ((d.children id).filter fun c => some c != none)]
              generalize d.orphan _ = emptied
              simp only [create_snd]
              rw [create_text, write_setParent, write_setChildren]

/-! ## The three cases -/

theorem not_element_of_kind? (other : ∀ tag as, d.kind? id ≠ some (.element tag as)) :
    d.isElement id = false := by
  cases element : d.isElement id with
  | false => rfl
  | true =>
      obtain ⟨tag, as, kind⟩ := isElement_iff.1 element
      exact absurd kind (other tag as)

theorem lodge_of_plain (plain : d.isElement id = false) : d.lodge id = d := by
  cases kind : d.kind? id with
  | none => simp only [lodge, kind]
  | some k =>
      cases k with
      | text s => simp only [lodge, kind]
      | element tag as => simp [isElement, tag?, kind] at plain

theorem slot_of_plain (plain : d.isElement id = false) : d.slot id = id := by
  cases kind : d.kind? id with
  | none => simp only [slot, kind]
  | some k =>
      cases k with
      | text s => simp only [slot, kind]
      | element tag as => simp [isElement, tag?, kind] at plain

theorem slot_of_element (element : d.isElement id = true) :
    d.slot id = ((d.children id).find? d.isText).getD d.nodeCount := by
  obtain ⟨tag, as, kind⟩ := isElement_iff.1 element
  simp only [slot, kind]

/-- A text that is there is kept. -/
theorem lodge_of_kept (element : d.isElement id = true) {c : NodeId}
    (kept : (d.children id).find? d.isText = some c) :
    d.lodge id =
      (d.orphan ((d.children id).filter fun x => some x != some c)).setChildren id [c] := by
  obtain ⟨tag, as, kind⟩ := isElement_iff.1 element
  simp only [lodge, kind, kept]

/-- Where there is no text a new one is made. -/
theorem lodge_of_new (element : d.isElement id = true)
    (bare : (d.children id).find? d.isText = none) :
    d.lodge id =
      (((d.orphan (d.children id)).create (.text "")).1.setParent d.nodeCount
        (some id)).setChildren id [d.nodeCount] := by
  obtain ⟨tag, as, kind⟩ := isElement_iff.1 element
  have all : (d.children id).filter (fun x => some x != none) = d.children id := by simp
  simp only [lodge, kind, bare, all, create_snd, nodeCount_orphan]

/-! ## Kinds and children after making room -/

theorem isElement_lodge (m : NodeId) : (d.lodge id).isElement m = d.isElement m := by
  cases element : d.isElement id with
  | false => rw [lodge_of_plain element]
  | true =>
      cases kept : (d.children id).find? d.isText with
      | some c =>
          rw [lodge_of_kept element kept]
          exact isElement_congr (by simp)
      | none =>
          rw [lodge_of_new element kept]
          by_cases last : m = d.nodeCount
          · have out : d.kind? m = none := by
              rw [kind?, nodes_eq_none (Nat.le_of_eq last.symm)]
              rfl
            simp [isElement, tag?, kind?_create, ← last, out]
          · exact isElement_congr (by simp [kind?_create, last])

theorem isText_lodge {m : NodeId} (text : d.isText m = true) : (d.lodge id).isText m = true := by
  cases element : d.isElement id with
  | false => rwa [lodge_of_plain element]
  | true =>
      cases kept : (d.children id).find? d.isText with
      | some c =>
          rw [lodge_of_kept element kept, ← text]
          exact isText_congr (by simp)
      | none =>
          obtain ⟨s, kind⟩ := isText_iff.1 text
          have old := lt_of_kind? kind
          rw [lodge_of_new element kept, ← text]
          exact isText_congr (by simp [kind?_create, Nat.ne_of_lt old])

theorem children_lodge_of_ne {m : NodeId} (other : id ≠ m) :
    (d.lodge id).children m = d.children m := by
  cases element : d.isElement id with
  | false => rw [lodge_of_plain element]
  | true =>
      cases kept : (d.children id).find? d.isText with
      | some c => rw [lodge_of_kept element kept]; simp [children_setChildren, other]
      | none => rw [lodge_of_new element kept]; simp [children_setChildren, other]

/-- The room is for one text only. -/
theorem children_lodge (element : d.isElement id = true) :
    (d.lodge id).children id = [d.slot id] ∧ (d.lodge id).isText (d.slot id) = true := by
  have inside := lt_of_isElement element
  rw [slot_of_element element]
  cases kept : (d.children id).find? d.isText with
  | some c =>
      have text : d.isText c = true := by simpa using List.find?_some kept
      refine ⟨?_, isText_lodge text⟩
      rw [lodge_of_kept element kept]
      simp [children_setChildren, inside]
  | none =>
      rw [lodge_of_new element kept]
      constructor
      · have grown : id < d.nodeCount + 1 := Nat.lt_succ_of_lt inside
        rw [children_setChildren, if_pos ⟨rfl, by simpa using grown⟩]
        rfl
      · simp [isText, kind?_create]

theorem isElement_slot : (d.lodge id).isElement (d.slot id) = false := by
  cases element : d.isElement id with
  | false => rw [lodge_of_plain element, slot_of_plain element, element]
  | true =>
      obtain ⟨s, kind⟩ := isText_iff.1 (children_lodge element).2
      exact not_element_of_kind? fun tag as same => by simp [kind] at same

/-! ## Room that was made -/

/-- A node that is no element, or has one text as its only content. -/
def Settled (d : Document) (id : NodeId) : Prop :=
  d.isElement id = true → ∃ c, d.children id = [c] ∧ d.isText c = true

theorem lodge_of_settled (settled : d.Settled id) : d.lodge id = d := by
  cases element : d.isElement id with
  | false => exact lodge_of_plain element
  | true =>
      obtain ⟨c, only, text⟩ := settled element
      have kept : (d.children id).find? d.isText = some c := by simp [only, text]
      have none_else : [c].filter (fun x => some x != some c) = [] := by simp
      rw [lodge_of_kept element kept, only, none_else]
      change d.setChildren id [c] = d
      refine modify_eq_self fun node found => ?_
      have same : node.children = [c] := by
        rw [children, Option.mem_def.1 found] at only
        exact only
      rw [← same]

theorem settled_lodge (d : Document) (id : NodeId) : (d.lodge id).Settled id := by
  intro element
  rw [isElement_lodge] at element
  exact ⟨_, children_lodge element⟩

theorem Settled.lodge (settled : d.Settled n) (id : NodeId) : (d.lodge id).Settled n := by
  by_cases same : id = n
  · rw [same]
    exact settled_lodge d n
  · intro element
    rw [isElement_lodge] at element
    obtain ⟨c, only, text⟩ := settled element
    exact ⟨c, (children_lodge_of_ne same).trans only, isText_lodge text⟩

theorem slot_of_settled (settled : d.Settled n) (element : d.isElement n = true) :
    d.children n = [d.slot n] := by
  obtain ⟨c, only, text⟩ := settled element
  rw [slot_of_element element, only]
  simp [text]

/-- Making room does not move a text that has its place. -/
theorem Settled.slot_lodge (settled : d.Settled n) (id : NodeId) :
    (d.lodge id).slot n = d.slot n := by
  cases element : d.isElement n with
  | false => rw [slot_of_plain element, slot_of_plain (by rw [isElement_lodge, element])]
  | true =>
      have after := slot_of_settled (settled.lodge id) (by rw [isElement_lodge, element])
      by_cases same : id = n
      · subst same
        rw [lodge_of_settled settled]
      · rw [children_lodge_of_ne same, slot_of_settled settled element] at after
        simpa using after.symm

theorem slot_lodge_self (d : Document) (id : NodeId) : (d.lodge id).slot id = d.slot id := by
  cases element : d.isElement id with
  | false => rw [lodge_of_plain element]
  | true =>
      have after := slot_of_settled (settled_lodge d id) (by rw [isElement_lodge, element])
      rw [(children_lodge element).1] at after
      simpa using after.symm

/-! ## Writing changes no room -/

section

variable (plain : d.isElement n = false) (s : String)

include plain

theorem isElement_write (m : NodeId) : (d.write n s).isElement m = d.isElement m := by
  rw [isElement, tag?, kind?_write]
  by_cases same : n = m
  · subst same
    rw [if_pos rfl]
    cases kind : d.kind? n with
    | none => simp [isElement, tag?, kind]
    | some k =>
        rw [plain]
        rfl
  · rw [if_neg same]
    rfl

theorem isText_write (m : NodeId) : (d.write n s).isText m = d.isText m := by
  rw [isText, kind?_write]
  by_cases same : n = m
  · subst same
    rw [if_pos rfl]
    cases kind : d.kind? n with
    | none => simp [isText, kind]
    | some k =>
        cases k with
        | text old => simp [isText, kind]
        | element tag as => simp [isElement, tag?, kind] at plain
  · rw [if_neg same]
    rfl

theorem find?_isText_write (cs : List NodeId) :
    cs.find? (d.write n s).isText = cs.find? d.isText :=
  congrArg (fun p => cs.find? p) (funext (isText_write plain s))

theorem slot_write (id : NodeId) : (d.write n s).slot id = d.slot id := by
  cases element : d.isElement id with
  | false => rw [slot_of_plain element, slot_of_plain (by rw [isElement_write plain, element])]
  | true =>
      rw [slot_of_element element, slot_of_element (by rw [isElement_write plain, element]),
        children_write, find?_isText_write plain, nodeCount_write]

/-- What is written does not matter for the room that is made. -/
theorem lodge_write (old : n < d.nodeCount) (id : NodeId) :
    (d.write n s).lodge id = (d.lodge id).write n s := by
  cases element : d.isElement id with
  | false => rw [lodge_of_plain element, lodge_of_plain (by rw [isElement_write plain, element])]
  | true =>
      have element' : (d.write n s).isElement id = true := by rw [isElement_write plain, element]
      cases kept : (d.children id).find? d.isText with
      | some c =>
          have kept' : ((d.write n s).children id).find? (d.write n s).isText = some c := by
            rw [children_write, find?_isText_write plain, kept]
          rw [lodge_of_kept element kept, lodge_of_kept element' kept', children_write,
            write_orphan, write_setChildren]
      | none =>
          have bare' : ((d.write n s).children id).find? (d.write n s).isText = none := by
            rw [children_write, find?_isText_write plain, kept]
          rw [lodge_of_new element kept, lodge_of_new element' bare', children_write,
            nodeCount_write, write_orphan, write_create s _ (by rwa [nodeCount_orphan]),
            write_setParent, write_setChildren]

theorem Settled.write (settled : d.Settled id) : (d.write n s).Settled id := by
  intro element
  rw [isElement_write plain] at element
  obtain ⟨c, only, text⟩ := settled element
  exact ⟨c, by rw [children_write, only], by rw [isText_write plain, text]⟩

end

/-! ## Passes -/

/-- Set the texts of some nodes, one after the other. -/
def setTexts (d : Document) (ws : List (NodeId × String)) : Document :=
  ws.foldl (fun d w => d.setText w.1 w.2) d

/-- Make room in some nodes, one after the other. -/
def lodgeAll (d : Document) (ids : List NodeId) : Document :=
  ids.foldl lodge d

/-- Write some texts where `place` says. -/
def writeAll (place : NodeId → NodeId) (d : Document) (ws : List (NodeId × String)) : Document :=
  ws.foldl (fun d w => d.write (place w.1) w.2) d

theorem le_nodeCount_lodge (d : Document) (id : NodeId) : d.nodeCount ≤ (d.lodge id).nodeCount := by
  cases element : d.isElement id with
  | false => exact Nat.le_of_eq (by rw [lodge_of_plain element])
  | true =>
      cases kept : (d.children id).find? d.isText with
      | some c => rw [lodge_of_kept element kept]; simp
      | none => rw [lodge_of_new element kept]; simp

theorem le_nodeCount_lodgeAll (d : Document) (ids : List NodeId) :
    d.nodeCount ≤ (d.lodgeAll ids).nodeCount := by
  induction ids generalizing d with
  | nil => exact Nat.le_refl _
  | cons id rest ih => exact Nat.le_trans (le_nodeCount_lodge d id) (ih (d.lodge id))

theorem slot_lt_nodeCount (inside : id < d.nodeCount) : d.slot id < (d.lodge id).nodeCount := by
  cases element : d.isElement id with
  | false =>
      rw [slot_of_plain element, lodge_of_plain element]
      exact inside
  | true =>
      obtain ⟨s, kind⟩ := isText_iff.1 (children_lodge element).2
      exact lt_of_kind? kind

theorem le_nodeCount_setTexts (d : Document) (ws : List (NodeId × String)) :
    d.nodeCount ≤ (d.setTexts ws).nodeCount := by
  induction ws generalizing d with
  | nil => exact Nat.le_refl _
  | cons w rest ih =>
      have first : d.nodeCount ≤ (d.setText w.1 w.2).nodeCount := by
        rw [setText_eq, nodeCount_write]
        exact le_nodeCount_lodge d w.1
      exact Nat.le_trans first (ih (d.setText w.1 w.2))

theorem lodgeAll_write (plain : d.isElement n = false) (old : n < d.nodeCount) (s : String)
    (ids : List NodeId) : (d.write n s).lodgeAll ids = (d.lodgeAll ids).write n s := by
  induction ids generalizing d with
  | nil => rfl
  | cons id rest ih =>
      have first := lodge_write plain s old id
      have still : (d.lodge id).isElement n = false := by rw [isElement_lodge, plain]
      have later := ih still (Nat.lt_of_lt_of_le old (le_nodeCount_lodge d id))
      exact (congrArg (fun d => lodgeAll d rest) first).trans later

theorem Settled.lodgeAll (settled : d.Settled n) (ids : List NodeId) :
    (d.lodgeAll ids).Settled n ∧ (d.lodgeAll ids).slot n = d.slot n := by
  induction ids generalizing d with
  | nil => exact ⟨settled, rfl⟩
  | cons id rest ih =>
      obtain ⟨still, same⟩ := ih (settled.lodge id)
      exact ⟨still, same.trans (settled.slot_lodge id)⟩

theorem isElement_lodgeAll (ids : List NodeId) (m : NodeId) :
    (d.lodgeAll ids).isElement m = d.isElement m := by
  induction ids generalizing d with
  | nil => rfl
  | cons id rest ih => exact (ih (d := d.lodge id)).trans (isElement_lodge m)

/-- Room that is made stays, and so does the place of its text. -/
theorem settled_lodgeAll {ids : List NodeId} (member : n ∈ ids) : (d.lodgeAll ids).Settled n := by
  induction ids generalizing d with
  | nil => simp at member
  | cons id rest ih =>
      rcases List.mem_cons.1 member with rfl | later
      · exact ((settled_lodge d n).lodgeAll rest).1
      · exact ih later

theorem lodgeAll_of_settled {ids : List NodeId} (settled : ∀ id ∈ ids, d.Settled id) :
    d.lodgeAll ids = d := by
  induction ids with
  | nil => rfl
  | cons id rest ih =>
      have first := lodge_of_settled (settled id List.mem_cons_self)
      have later := ih fun id member => settled id (List.mem_cons_of_mem _ member)
      exact (congrArg (fun d => lodgeAll d rest) first).trans later

/-- A pass first makes all the room and then writes all the texts. -/
theorem setTexts_eq (ws : List (NodeId × String)) (inside : ∀ w ∈ ws, w.1 < d.nodeCount) :
    d.setTexts ws = writeAll (d.lodgeAll (ws.map Prod.fst)).slot
      (d.lodgeAll (ws.map Prod.fst)) ws := by
  induction ws generalizing d with
  | nil => rfl
  | cons w rest ih =>
      have here := inside w List.mem_cons_self
      let room := d.lodge w.1
      have plain : room.isElement (d.slot w.1) = false := isElement_slot
      have old : d.slot w.1 < room.nodeCount := slot_lt_nodeCount here
      have later := ih (d := room.write (d.slot w.1) w.2) fun v member => by
        rw [nodeCount_write]
        exact Nat.lt_of_lt_of_le (inside v (List.mem_cons_of_mem _ member))
          (le_nodeCount_lodge d w.1)
      have place : (room.lodgeAll (rest.map Prod.fst)).slot w.1 = d.slot w.1 :=
        ((settled_lodge d w.1).lodgeAll _).2.trans (slot_lodge_self d w.1)
      have still : (room.lodgeAll (rest.map Prod.fst)).isElement (d.slot w.1) = false := by
        rw [isElement_lodgeAll, plain]
      rw [lodgeAll_write plain old, funext (slot_write still w.2)] at later
      change (d.setText w.1 w.2).setTexts rest = writeAll (room.lodgeAll (rest.map Prod.fst)).slot
        ((room.lodgeAll (rest.map Prod.fst)).write
          ((room.lodgeAll (rest.map Prod.fst)).slot w.1) w.2) rest
      rw [setText_eq, place]
      exact later

/-! ## The last pass -/

theorem isElement_slot_of_settled (settled : d.Settled id) : d.isElement (d.slot id) = false := by
  have after : (d.lodge id).isElement (d.slot id) = false := isElement_slot
  rwa [lodge_of_settled settled] at after

/-- Texts are written into places that are no elements, so nothing else changes. -/
theorem writeAll_frame {place : NodeId → NodeId} {ws : List (NodeId × String)}
    (plain : ∀ w ∈ ws, d.isElement (place w.1) = false) :
    (∀ id, d.Settled id → (writeAll place d ws).Settled id) ∧
      (writeAll place d ws).slot = d.slot ∧ (writeAll place d ws).nodeCount = d.nodeCount := by
  induction ws generalizing d with
  | nil => exact ⟨fun _ settled => settled, rfl, rfl⟩
  | cons w rest ih =>
      have here := plain w List.mem_cons_self
      obtain ⟨settled, slot, count⟩ := ih (d := d.write (place w.1) w.2) fun v member => by
        rw [isElement_write here]
        exact plain v (List.mem_cons_of_mem _ member)
      refine ⟨fun id before => settled id (before.write here w.2), ?_, ?_⟩
      · exact slot.trans (funext (slot_write here w.2))
      · exact count.trans (nodeCount_write w.2)

theorem write_write (s t : String) : (d.write n s).write n t = d.write n t :=
  modify_modify d n _ _

/-- A text is lost when its place is written again. -/
theorem writeAll_write_of_mem {place : NodeId → NodeId} {ws : List (NodeId × String)}
    (member : n ∈ ws.map fun w => place w.1) (s : String) :
    writeAll place (d.write n s) ws = writeAll place d ws := by
  induction ws generalizing d with
  | nil => simp at member
  | cons w rest ih =>
      by_cases here : place w.1 = n
      · have same := write_write (d := d) (n := n) s w.2
        change writeAll place ((d.write n s).write (place w.1) w.2) rest = _
        rw [here, same, ← here]
        rfl
      · have later : n ∈ rest.map fun w => place w.1 := by
          rcases List.mem_cons.1 member with first | later
          · exact absurd first.symm here
          · exact later
        have swap : (d.write n s).write (place w.1) w.2 = (d.write (place w.1) w.2).write n s :=
          modify_comm d fun same => absurd same.symm here
        change writeAll place ((d.write n s).write (place w.1) w.2) rest = _
        rw [swap, ih later]
        rfl

theorem writeAll_writeAll {place : NodeId → NodeId} {earlier later : List (NodeId × String)}
    (covered : ∀ w ∈ earlier, place w.1 ∈ later.map fun v => place v.1) :
    writeAll place (writeAll place d earlier) later = writeAll place d later := by
  induction earlier generalizing d with
  | nil => rfl
  | cons w rest ih =>
      have rest_lost := ih (d := d.write (place w.1) w.2) fun v member =>
        covered v (List.mem_cons_of_mem _ member)
      exact rest_lost.trans (writeAll_write_of_mem (covered w List.mem_cons_self) w.2)

/-- A pass over some nodes wipes out every earlier pass over the same nodes. -/
theorem setTexts_setTexts {earlier later : List (NodeId × String)}
    (same : earlier.map Prod.fst = later.map Prod.fst)
    (inside : ∀ w ∈ later, w.1 < d.nodeCount) :
    (d.setTexts earlier).setTexts later = d.setTexts later := by
  have inside_earlier : ∀ w ∈ earlier, w.1 < d.nodeCount := by
    intro w member
    have known : w.1 ∈ later.map Prod.fst := same ▸ List.mem_map_of_mem member
    obtain ⟨v, there, first⟩ := List.mem_map.1 known
    exact first ▸ inside v there
  let room := d.lodgeAll (later.map Prod.fst)
  have settled : ∀ id ∈ later.map Prod.fst, room.Settled id := fun id => settled_lodgeAll
  have plain : ∀ w ∈ earlier, room.isElement (room.slot w.1) = false := fun w member =>
    isElement_slot_of_settled (settled w.1 (same ▸ List.mem_map_of_mem member))
  obtain ⟨kept, slot, count⟩ := writeAll_frame plain
  have grown : d.nodeCount ≤ room.nodeCount := le_nodeCount_lodgeAll d _
  have first : d.setTexts earlier = writeAll room.slot room earlier := by
    rw [setTexts_eq earlier inside_earlier, same]
  have second : (d.setTexts earlier).setTexts later =
      writeAll room.slot (writeAll room.slot room earlier) later := by
    rw [first, setTexts_eq later fun w member => ?_,
      lodgeAll_of_settled fun id member => kept id (settled id member), slot]
    rw [count]
    exact Nat.lt_of_lt_of_le (inside w member) grown
  rw [second, setTexts_eq later inside, writeAll_writeAll]
  intro w member
  have known : w.1 ∈ later.map Prod.fst := same ▸ List.mem_map_of_mem member
  obtain ⟨v, there, first⟩ := List.mem_map.1 known
  exact List.mem_map.2 ⟨v, there, congrArg room.slot first⟩

end Infographic.Markup.Document
