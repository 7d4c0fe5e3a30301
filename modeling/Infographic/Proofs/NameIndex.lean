/-
# Infographic.Proofs.NameIndex -- an index lists names

`NameIndex.Lists` says that an index holds exactly the names of a list, each at its
position there.  Looking up, finding the name at a position and writing the names out
are then the list's own operations (`Lists.find?_eq_some_iff`, `Lists.nameAt?_eq`,
`Lists.names_eq`).  Renaming a position and closing a gap keep the index with the
renamed and the shortened list (`Lists.rename`, `Lists.drop`).
-/
import Infographic.Table.NameIndex
import Mathlib.Data.List.Induction
import Mathlib.Data.List.Nodup
import Mathlib.Data.List.Perm.Basic

namespace Infographic.NameIndex

set_option autoImplicit false

/-- The index holds exactly the names of a list, each name once and at its position. -/
structure Lists (ix : NameIndex) (names : List String) : Prop where
  distinct : names.Nodup
  once : (ix.entries.map Prod.fst).Nodup
  mem_iff : ∀ name i, (name, i) ∈ ix.entries ↔ names[i]? = some name

variable {ix : NameIndex} {names : List String}

/-! ## Looking up -/

/-- Names that stand at two positions stand at one. -/
theorem position_unique (distinct : names.Nodup) {name : String} {i j : Nat}
    (hi : names[i]? = some name) (hj : names[j]? = some name) : i = j := by
  obtain ⟨bound, -⟩ := List.getElem?_eq_some_iff.1 hi
  exact (List.getElem?_inj bound distinct).1 (hi.trans hj.symm)

theorem find?_of_mem (once : (ix.entries.map Prod.fst).Nodup) {name : String} {i : Nat}
    (member : (name, i) ∈ ix.entries) : ix.find? name = some i := by
  unfold find?
  cases found : ix.entries.find? fun e => e.1 == name with
  | none =>
      have absent := List.find?_eq_none.1 found _ member
      simp at absent
  | some e =>
      have key : e.1 = name := by simpa using List.find?_some found
      have same : e = (name, i) :=
        List.inj_on_of_nodup_map once (List.mem_of_find?_eq_some found) member key
      simp [same]

theorem mem_of_find? {name : String} {i : Nat} (found : ix.find? name = some i) :
    (name, i) ∈ ix.entries := by
  obtain ⟨e, he, rfl⟩ := Option.map_eq_some_iff.1 found
  have key : e.1 = name := by simpa using List.find?_some he
  exact key ▸ List.mem_of_find?_eq_some he

namespace Lists

theorem find?_eq_some_iff (h : ix.Lists names) {name : String} {i : Nat} :
    ix.find? name = some i ↔ names[i]? = some name :=
  ⟨fun found => (h.mem_iff name i).1 (mem_of_find? found),
    fun placed => find?_of_mem h.once ((h.mem_iff name i).2 placed)⟩

theorem has_iff (h : ix.Lists names) {name : String} : ix.has name ↔ name ∈ names := by
  rw [has, Option.isSome_iff_exists, List.mem_iff_getElem?]
  simp only [h.find?_eq_some_iff]

/-- The name found at a position is the one that stands there. -/
theorem nameAt?_eq (h : ix.Lists names) (i : Nat) : ix.nameAt? i = names[i]? := by
  unfold nameAt?
  cases found : ix.entries.find? fun e => e.2 == i with
  | none =>
      cases placed : names[i]? with
      | none => rfl
      | some name =>
          have absent := List.find?_eq_none.1 found _ ((h.mem_iff name i).2 placed)
          simp at absent
  | some e =>
      have position : e.2 = i := by simpa using List.find?_some found
      have placed := (h.mem_iff e.1 e.2).1 (List.mem_of_find?_eq_some found)
      simp [← position, placed]

theorem locate_name (h : ix.Lists names) {count i : Nat} {name : String} :
    ix.locate count (.name name) = some i ↔ names[i]? = some name :=
  h.find?_eq_some_iff

/-! ## The names in order -/

theorem perm_zipIdx (h : ix.Lists names) : ix.entries.Perm names.zipIdx := by
  refine (List.perm_ext_iff_of_nodup (List.Nodup.of_map _ h.once) ?_).2 fun e => ?_
  · exact List.Nodup.of_map Prod.fst (by simpa using h.distinct)
  · rw [show e = (e.1, e.2) from rfl, h.mem_iff, List.mk_mem_zipIdx_iff_getElem?]

/-- The index writes its names out in the order of the list. -/
theorem names_eq (h : ix.Lists names) : ix.names = names := by
  have sorted : (ix.entries.mergeSort fun a b => a.2 ≤ b.2).Pairwise fun a b => a.2 ≤ b.2 := by
    have total (a b : String × Nat) : (decide (a.2 ≤ b.2) || decide (b.2 ≤ a.2)) = true := by
      simpa using Nat.le_total a.2 b.2
    have trans (a b c : String × Nat) : decide (a.2 ≤ b.2) = true → decide (b.2 ≤ c.2) = true →
        decide (a.2 ≤ c.2) = true := by
      simpa using Nat.le_trans
    simpa using List.pairwise_mergeSort trans total ix.entries
  have placed : names.zipIdx.Pairwise fun a b => a.2 ≤ b.2 := by
    rw [List.pairwise_iff_getElem]
    intro i j hi hj less
    simp only [List.getElem_zipIdx]
    omega
  have merged : ix.entries.mergeSort (fun a b => a.2 ≤ b.2) = names.zipIdx := by
    refine List.Perm.eq_of_pairwise (fun a b ha hb ab ba => ?_) sorted placed
      ((List.mergeSort_perm _ _).trans h.perm_zipIdx)
    -- two entries at one position carry one name
    have first := (h.mem_iff a.1 a.2).1 (List.mem_mergeSort.1 ha)
    have second := List.mk_mem_zipIdx_iff_getElem?.1 hb
    have position : a.2 = b.2 := Nat.le_antisymm ab ba
    rw [position, second] at first
    exact Prod.ext (Option.some.inj first).symm position
  rw [NameIndex.names, merged]
  simp

end Lists

/-! ## Changing -/

theorem mem_erase {name other : String} {i : Nat} :
    (other, i) ∈ (ix.erase name).entries ↔ other ≠ name ∧ (other, i) ∈ ix.entries := by
  simp [erase, and_comm]

theorem mem_insert {name other : String} {i j : Nat} :
    (other, j) ∈ (ix.insert name i).entries ↔
      (other ≠ name ∧ (other, j) ∈ ix.entries) ∨ (other = name ∧ j = i) := by
  simp [insert, mem_erase]

theorem mem_close {name : String} {i j : Nat} :
    (name, j) ∈ (ix.close i).entries ↔
      ∃ k, (name, k) ∈ ix.entries ∧ j = if i < k then k - 1 else k := by
  simp [close, eq_comm]

/-- What is left of a list when a gap is closed. -/
theorem getElem?_eraseIdx_eq_some_iff {α : Type} {xs : List α} {a : α} {i j : Nat} :
    (xs.eraseIdx i)[j]? = some a ↔
      ∃ k, k ≠ i ∧ xs[k]? = some a ∧ j = if i < k then k - 1 else k := by
  rw [List.getElem?_eraseIdx]
  constructor
  · intro placed
    by_cases before : j < i
    · rw [if_pos before] at placed
      exact ⟨j, Nat.ne_of_lt before, placed, by rw [if_neg (by omega)]⟩
    · rw [if_neg before] at placed
      exact ⟨j + 1, by omega, placed, by rw [if_pos (by omega), Nat.add_sub_cancel]⟩
  · rintro ⟨k, apart, placed, rfl⟩
    by_cases behind : i < k
    · rw [if_pos behind, if_neg (by omega), Nat.sub_add_cancel (by omega), placed]
    · rw [if_neg behind, if_pos (by omega), placed]

theorem once_erase (once : (ix.entries.map Prod.fst).Nodup) (name : String) :
    ((ix.erase name).entries.map Prod.fst).Nodup :=
  once.sublist (List.filter_sublist.map _)

theorem once_insert (once : (ix.entries.map Prod.fst).Nodup) (name : String) (i : Nat) :
    ((ix.insert name i).entries.map Prod.fst).Nodup := by
  simp only [insert, List.map_append, List.map_cons, List.map_nil]
  refine List.Nodup.append (once_erase once name) (List.nodup_singleton _) ?_
  intro other member last
  obtain ⟨e, he, rfl⟩ := List.mem_map.1 member
  exact (mem_erase.1 he).1 (List.mem_singleton.1 last)

theorem once_close (once : (ix.entries.map Prod.fst).Nodup) (i : Nat) :
    ((ix.close i).entries.map Prod.fst).Nodup := by
  simpa [close, Function.comp_def] using once

/-- A name can be forgotten before or after a gap is closed. -/
theorem erase_close (name : String) (i : Nat) :
    (ix.close i).erase name = (ix.erase name).close i := by
  simp [close, erase, List.filter_map, Function.comp_def]

namespace Lists

/-- A name that is new is put behind the others. -/
theorem push (h : ix.Lists names) {name : String} (fresh : name ∉ names) :
    (ix.insert name names.length).Lists (names ++ [name]) where
  distinct := by
    refine List.Nodup.append h.distinct (List.nodup_singleton _) ?_
    intro other member last
    exact fresh (List.mem_singleton.1 last ▸ member)
  once := once_insert h.once _ _
  mem_iff other j := by
    rw [mem_insert, h.mem_iff, List.getElem?_append]
    constructor
    · rintro (⟨-, placed⟩ | ⟨rfl, rfl⟩)
      · rw [if_pos (List.getElem?_eq_some_iff.1 placed).1, placed]
      · simp
    · split
      · intro placed
        exact .inl ⟨fun same => fresh (same ▸ List.mem_of_getElem? placed), placed⟩
      · intro placed
        obtain ⟨bound, last⟩ := List.getElem?_eq_some_iff.1 placed
        simp only [List.length_singleton] at bound
        refine .inr ⟨?_, by omega⟩
        simpa using last.symm

/-- The name at a position is exchanged for a new one. -/
theorem rename (h : ix.Lists names) {old new : String} {i : Nat} (here : names[i]? = some old)
    (fresh : new ∉ names) : ((ix.erase old).insert new i).Lists (names.set i new) where
  distinct := h.distinct.set fresh
  once := once_insert (once_erase h.once _) _ _
  mem_iff other j := by
    obtain ⟨bound, -⟩ := List.getElem?_eq_some_iff.1 here
    rw [mem_insert, mem_erase, h.mem_iff, List.getElem?_set]
    by_cases same : i = j
    · subst same
      rw [if_pos rfl, if_pos bound, here]
      simp only [Option.some.injEq]
      constructor
      · rintro (⟨-, other_ne, rfl⟩ | ⟨rfl, -⟩)
        · exact absurd rfl other_ne
        · rfl
      · rintro rfl
        exact .inr ⟨rfl, trivial⟩
    · rw [if_neg same]
      constructor
      · rintro (⟨-, -, placed⟩ | ⟨-, rfl⟩)
        · exact placed
        · exact absurd rfl same
      · intro placed
        refine .inl ⟨fun eq => fresh (eq ▸ List.mem_of_getElem? placed), fun eq => same ?_, placed⟩
        exact position_unique h.distinct here (eq ▸ placed)

/-- The name at a position goes, and the gap is closed. -/
theorem drop (h : ix.Lists names) {old : String} {i : Nat} (here : names[i]? = some old) :
    ((ix.erase old).close i).Lists (names.eraseIdx i) where
  distinct := h.distinct.sublist (List.eraseIdx_sublist _ _)
  once := once_close (once_erase h.once _) _
  mem_iff other j := by
    rw [mem_close, getElem?_eraseIdx_eq_some_iff]
    refine exists_congr fun k => ?_
    rw [mem_erase, h.mem_iff]
    constructor
    · rintro ⟨⟨apart, placed⟩, rfl⟩
      refine ⟨?_, placed, rfl⟩
      rintro rfl
      exact apart (Option.some.inj (placed.symm.trans here))
    · rintro ⟨apart, placed, rfl⟩
      exact ⟨⟨fun eq => apart (position_unique h.distinct (eq ▸ placed) here), placed⟩, rfl⟩

end Lists

/-- A list of distinct names is what its index lists. -/
theorem lists_ofNames (distinct : names.Nodup) : (ofNames names).Lists names := by
  induction names using List.reverseRecOn with
  | nil => exact ⟨List.nodup_nil, List.nodup_nil, by simp [ofNames, empty]⟩
  | append_singleton names name ih =>
      obtain ⟨before, -, apart⟩ := List.nodup_append.1 distinct
      have fresh : name ∉ names := fun member => apart name member name (by simp) rfl
      have grown := (ih before).push fresh
      simpa [ofNames, List.zipIdx_append] using grown

end Infographic.NameIndex
