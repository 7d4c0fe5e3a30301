/-
# Infographic.Proofs.RepeatedNames -- positions where names repeat

A table looks a cell up by the name of its column, also if the column is addressed by its position.
An index keeps one position of a name, the last one, so where a name stands twice in a list of
names both positions show the cell at the later one, or at the last that the row reaches
(`Row.get?_ofCells`); and where one of them is dropped the other shows nothing
(`Row.get?_delete_ofCells`).  Positions are read as they are counted exactly if the names are
distinct (`positional_access`).
-/
import Infographic.Proofs.ManualStats

namespace Infographic

set_option autoImplicit false

/-! ## Indexes -/

namespace NameIndex

variable {ix : NameIndex} {name other : String} {i j : Nat}

/-- Each name has one position and each position one name. -/
structure OneToOne (ix : NameIndex) : Prop where
  once : (ix.entries.map Prod.fst).Nodup
  apart : (ix.entries.map Prod.snd).Nodup

theorem OneToOne.nameAt?_of_mem (h : ix.OneToOne) (member : (name, i) ∈ ix.entries) :
    ix.nameAt? i = some name := by
  unfold nameAt?
  cases found : ix.entries.find? fun e => e.2 == i with
  | none => simpa using List.find?_eq_none.1 found _ member
  | some e =>
      have position : e.2 = i := by simpa using List.find?_some found
      have same : e = (name, i) :=
        List.inj_on_of_nodup_map h.apart (List.mem_of_find?_eq_some found) member position
      rw [same]
      rfl

theorem find?_erase (ix : NameIndex) (name other : String) :
    (ix.erase name).find? other = if other = name then none else ix.find? other := by
  rw [find?, erase, List.find?_filter]
  split
  · rename_i same
    subst same
    simp
  · rename_i apart
    rw [find?]
    congr 2
    funext e
    by_cases here : e.1 = other
    · simp [here, apart]
    · simp [here]

theorem find?_insert (ix : NameIndex) (name other : String) (i : Nat) :
    (ix.insert name i).find? other = if other = name then some i else ix.find? other := by
  have erased := find?_erase ix name other
  rw [find?] at erased ⊢
  rw [insert, List.find?_append, Option.map_or, erased]
  by_cases same : other = name
  · simp [same]
  · simp [same, Ne.symm same]

theorem find?_close (ix : NameIndex) (name : String) (i : Nat) :
    (ix.close i).find? name = (ix.find? name).map fun k => if i < k then k - 1 else k := by
  rw [find?, close, List.find?_map, find?, Option.map_map, Option.map_map]
  rfl

theorem ofNames_concat (names : List String) (name : String) :
    ofNames (names ++ [name]) = (ofNames names).insert name names.length := by
  simp [ofNames, List.zipIdx_append]

/-- A list of names gives positions in it, one to a name. -/
theorem oneToOne_ofNames (names : List String) :
    (ofNames names).OneToOne ∧ ∀ e ∈ (ofNames names).entries, e.2 < names.length := by
  induction names using List.reverseRecOn with
  | nil => exact ⟨⟨List.nodup_nil, List.nodup_nil⟩, by simp [ofNames, empty]⟩
  | append_singleton names name ih =>
      obtain ⟨whole, below⟩ := ih
      have kept : ∀ e ∈ ((ofNames names).erase name).entries, e.2 < names.length :=
        fun e member => below e (List.mem_of_mem_filter member)
      rw [ofNames_concat]
      refine ⟨⟨once_insert whole.once _ _, ?_⟩, fun e member => ?_⟩
      · rw [insert, List.map_append]
        refine List.Nodup.append (whole.apart.sublist (List.filter_sublist.map _))
          (List.nodup_singleton _) ?_
        intro position first last
        obtain ⟨e, member, rfl⟩ := List.mem_map.1 first
        have bound := kept e member
        have new := List.mem_singleton.1 last
        omega
      · rw [List.length_append, List.length_singleton]
        rcases List.mem_append.1 member with first | last
        · exact Nat.lt_succ_of_lt (kept e first)
        · rw [List.mem_singleton.1 last]
          exact Nat.lt_succ_self _

end NameIndex

/-! ## Rows -/

namespace Row

/-- The cell under a name in some cells: at the last of the positions of the name that the cells
reach. -/
def lastUnder (names : List String) (cells : List (Option Cell)) (name : String) : Option Cell :=
  ((names.zip cells).reverse.lookup name).join

variable {names : List String} {cells : List (Option Cell)} {r : Row} {name : String}

/-- The last position that the cells reach is the one that counts. -/
theorem lastUnder_eq {i : Nat} (here : names[i]? = some name) (reached : i < cells.length)
    (last : ∀ j, i < j → j < cells.length → names[j]? ≠ some name) :
    lastUnder names cells name = cells[i]?.join := by
  have place : (names.zip cells)[i]? = some (name, cells[i]) :=
    List.getElem?_zip_eq_some.2 ⟨here, List.getElem?_eq_getElem reached⟩
  obtain ⟨bound, there⟩ := List.getElem?_eq_some_iff.1 place
  have cut : names.zip cells =
      (names.zip cells).take i ++ (name, cells[i]) :: (names.zip cells).drop (i + 1) := by
    rw [← there, List.getElem_cons_drop, List.take_append_drop]
  have found : (names.zip cells).reverse.lookup name = some cells[i] := by
    refine List.lookup_eq_some_iff.2 ⟨((names.zip cells).drop (i + 1)).reverse,
      ((names.zip cells).take i).reverse, by simpa using congrArg List.reverse cut, ?_⟩
    intro e member
    obtain ⟨k, later⟩ := List.mem_iff_getElem?.1 (List.mem_reverse.1 member)
    rw [List.getElem?_drop, List.getElem?_zip_eq_some] at later
    obtain ⟨named, celled⟩ := later
    have other := last (i + 1 + k) (by omega) (List.getElem?_eq_some_iff.1 celled).1
    rw [named] at other
    simpa using fun same => other (congrArg some same.symm)
  rw [lastUnder, found, Option.join_some, List.getElem?_eq_getElem reached, Option.join_some]

/-- A name that does not stand above any cell has none. -/
theorem lastUnder_eq_none (behind : ∀ j, j < cells.length → names[j]? ≠ some name) :
    lastUnder names cells name = none := by
  have missing : (names.zip cells).reverse.lookup name = none := by
    refine List.lookup_eq_none_iff.2 fun e member => ?_
    obtain ⟨k, there⟩ := List.mem_iff_getElem?.1 (List.mem_reverse.1 member)
    obtain ⟨named, celled⟩ := List.getElem?_zip_eq_some.1 there
    have other := behind k (List.getElem?_eq_some_iff.1 celled).1
    rw [named] at other
    simpa using fun same => other (congrArg some same.symm)
  rw [lastUnder, missing, Option.join_none]

theorem ofCells_eq (cells : List (Option Cell)) (names : List String) :
    ofCells cells names =
      ⟨(names.zip cells).map Prod.snd, .ofNames ((names.zip cells).map Prod.fst)⟩ := by
  have both (k : Nat) (names : List String) (cells : List (Option Cell))
      (count : k = min cells.length names.length) :
      (names.zip cells).map Prod.fst = names.take k ∧
        (names.zip cells).map Prod.snd = cells.take k := by
    induction names generalizing k cells with
    | nil => simp [count]
    | cons name names ih =>
        cases cells with
        | nil => simp [count]
        | cons cell cells =>
            obtain ⟨first, second⟩ := ih _ cells rfl
            simp [count, first, second, Nat.succ_min_succ]
  obtain ⟨first, second⟩ := both _ names cells rfl
  rw [ofCells, first, second]

/-- In a new row a name shows the cell at its last position. -/
theorem get?_ofCells (cells : List (Option Cell)) (names : List String) (name : String) :
    (ofCells cells names).get? (.name name) = lastUnder names cells name := by
  rw [ofCells_eq, lastUnder]
  generalize names.zip cells = places
  change ((NameIndex.ofNames (places.map Prod.fst)).find? name).bind
    (fun i => (places.map Prod.snd)[i]?.join) = _
  induction places using List.reverseRecOn with
  | nil => rfl
  | append_singleton places place ih =>
      obtain ⟨last, cell⟩ := place
      rw [List.map_append, List.map_singleton, NameIndex.ofNames_concat, NameIndex.find?_insert,
        List.reverse_append, List.reverse_singleton, List.singleton_append]
      by_cases same : name = last
      · subst same
        simp
      · have other : (name == last) = false := by simpa using same
        rw [if_neg same, List.lookup_cons, other, ← ih]
        refine Option.bind_congr fun i found => ?_
        have below := (NameIndex.oneToOne_ofNames (places.map Prod.fst)).2 _
          (NameIndex.mem_of_find? found)
        rw [List.map_append, List.getElem?_append_left (by simpa using below)]

/-- A cell that is taken out takes its name along; the other names keep their cells. -/
theorem get?_delete (h : r.index.OneToOne) (target name : String) :
    (r.delete (.name target)).get? (.name name) =
      if name = target then none else r.get? (.name name) := by
  cases found : r.index.find? target with
  | none =>
      have kept : r.delete (.name target) = r := by
        rw [delete, locate, NameIndex.locate, found]
      rw [kept]
      split
      · rename_i same
        rw [same, get?, locate, NameIndex.locate, found, Option.bind_none]
      · rfl
  | some i =>
      have member := NameIndex.mem_of_find? found
      have taken : r.delete (.name target) =
          ⟨r.cells.eraseIdx i, (r.index.close i).erase target⟩ := by
        rw [delete, locate, NameIndex.locate, found]
        dsimp only
        rw [h.nameAt?_of_mem member]
      rw [taken, get?, locate, NameIndex.locate, NameIndex.find?_erase, NameIndex.find?_close]
      split
      · rfl
      · rename_i other
        rw [get?, locate, NameIndex.locate, Option.bind_map]
        refine Option.bind_congr fun k here => ?_
        have apart : k ≠ i := by
          rintro rfl
          have named := h.nameAt?_of_mem (NameIndex.mem_of_find? here)
          rw [h.nameAt?_of_mem member] at named
          exact other (Option.some.inj named).symm
        dsimp only [Function.comp]
        rw [List.getElem?_eraseIdx]
        split <;> split <;> first | rfl | omega | (congr 2; omega)

/-- Under distinct names a cell is under the name at its own position. -/
theorem lastUnder_of_nodup (distinct : names.Nodup) {i : Nat} (here : names[i]? = some name)
    (cells : List (Option Cell)) : lastUnder names cells name = cells[i]?.join := by
  by_cases reached : i < cells.length
  · refine lastUnder_eq here reached fun j later _ there => ?_
    have := NameIndex.position_unique distinct here there
    omega
  · rw [List.getElem?_eq_none (Nat.le_of_not_lt reached), Option.join_none]
    refine lastUnder_eq_none fun j bound there => ?_
    have := NameIndex.position_unique distinct here there
    omega

/-- Cells of which the last one, at a position, differs from all others. -/
def marked (i : Nat) : List (Option Cell) :=
  List.replicate i (some (.text "")) ++ [some (.text "last")]

theorem marked_last (i : Nat) : (marked i)[i]?.join = some (.text "last") := by
  simp [marked]

theorem marked_of_lt {i j : Nat} (before : i < j) : (marked j)[i]?.join = some (.text "") := by
  simp [marked, List.getElem?_append, before]

theorem lastUnder_marked {i : Nat} (here : names[i]? = some name) :
    lastUnder names (marked i) name = some (.text "last") := by
  have length : (marked i).length = i + 1 := by simp [marked]
  rw [lastUnder_eq here (by omega) fun j later bound => by omega, marked_last]

end Row

/-! ## Tables -/

namespace Table

variable {t : Table}

theorem get?_position (t : Table) (row p : Nat) :
    t.get? row (.position p) =
      t.columnNames[p]?.bind fun name => t.rows[row]?.bind fun r => r.get? (.name name) := by
  rw [get?, column?_position, columnNames, List.getElem?_map]
  cases t.columns[p]? <;> cases t.rows[row]? <;> rfl

theorem drop_position_of_none {i : Nat} (behind : t.columnNames[i]? = none) :
    t.drop (.position i) = t := by
  have bound : ¬ i < t.columns.length := by
    simpa [columnNames] using List.getElem?_eq_none_iff.1 behind
  rw [drop, locate, NameIndex.locate, if_neg bound]

theorem drop_position_of_some {i : Nat} {name : String} (here : t.columnNames[i]? = some name) :
    t.drop (.position i) =
      { rows := t.rows.map fun r => r.delete (.name name)
        columns := t.columns.eraseIdx i
        index := (t.index.erase name).close i } := by
  rw [columnNames, List.getElem?_map] at here
  obtain ⟨c, place, rfl⟩ := Option.map_eq_some_iff.1 here
  rw [drop, locate, NameIndex.locate, if_pos (List.getElem?_eq_some_iff.1 place).1]
  dsimp only
  rw [place]

theorem columnNames_ofRows (rows : List (List (Option Cell))) (names : List String) :
    (ofRows rows names).columnNames = names := by
  rw [ofRows, columnNames_computeStats]
  simp [columnNames, Column.plain, Function.comp_def]

/-- Where a column is dropped, its name shows nothing any more. -/
theorem get?_drop_position (whole : ∀ r ∈ t.rows, r.index.OneToOne) (i row p : Nat) :
    (t.drop (.position i)).get? row (.position p) =
      (t.columnNames.eraseIdx i)[p]?.bind fun name =>
        if t.columnNames[i]? = some name then none
        else t.rows[row]?.bind fun r => r.get? (.name name) := by
  cases here : t.columnNames[i]? with
  | none =>
      rw [drop_position_of_none here, get?_position,
        List.eraseIdx_of_length_le (List.getElem?_eq_none_iff.1 here)]
      simp only [reduceCtorEq, if_false]
  | some target =>
      rw [get?_position, drop_position_of_some here, columnNames, ← List.eraseIdx_map]
      refine Option.bind_congr fun name _ => ?_
      dsimp only
      rw [List.getElem?_map, Option.bind_map]
      simp only [Option.some.injEq, eq_comm (a := target)]
      cases place : t.rows[row]? with
      | none => simp
      | some r =>
          exact Row.get?_delete (whole r (List.mem_of_getElem? place)) target name

section

variable (rows : List (List (Option Cell))) (names : List String)

theorem oneToOne_ofRows : ∀ r ∈ (ofRows rows names).rows, r.index.OneToOne := by
  intro r member
  obtain ⟨cells, -, rfl⟩ := List.mem_map.1 member
  exact (NameIndex.oneToOne_ofNames _).1

/-- In a new table a name shows the cells at its last position. -/
theorem get?_rows_ofRows (row : Nat) (name : String) :
    ((ofRows rows names).rows[row]?.bind fun r => r.get? (.name name)) =
      rows[row]?.bind fun cells => Row.lastUnder names cells name := by
  have made : (ofRows rows names).rows = rows.map fun cells => Row.ofCells cells names := rfl
  rw [made, List.getElem?_map, Option.bind_map]
  exact Option.bind_congr fun cells _ => Row.get?_ofCells cells names name

theorem get?_ofRows_position (row p : Nat) :
    (ofRows rows names).get? row (.position p) =
      names[p]?.bind fun name => rows[row]?.bind fun cells => Row.lastUnder names cells name := by
  rw [get?_position, columnNames_ofRows]
  simp only [get?_rows_ofRows]

theorem get?_drop_ofRows (i row p : Nat) :
    ((ofRows rows names).drop (.position i)).get? row (.position p) =
      (names.eraseIdx i)[p]?.bind fun name =>
        if names[i]? = some name then none
        else rows[row]?.bind fun cells => Row.lastUnder names cells name := by
  rw [get?_drop_position (oneToOne_ofRows rows names), columnNames_ofRows]
  simp only [get?_rows_ofRows]

end

/-- **What positions address.**  A position of a new table shows in each row the cell at the last
of the positions of its name that the row reaches.  When a column is dropped, a position shows
nothing if the name that it then has is that of the dropped column, and else the same cell as its
name did before.  So positions are those of the cells of every row, at first and after a drop,
exactly if the names are distinct. -/
theorem positional_access (names : List String) :
    (∀ rows row p, (ofRows rows names).get? row (.position p) =
      names[p]?.bind fun name => rows[row]?.bind fun cells => Row.lastUnder names cells name) ∧
    (∀ rows i row p, ((ofRows rows names).drop (.position i)).get? row (.position p) =
      (names.eraseIdx i)[p]?.bind fun name =>
        if names[i]? = some name then none
        else rows[row]?.bind fun cells => Row.lastUnder names cells name) ∧
    (names.Nodup ↔ ∀ rows row p, (ofRows rows names).get? row (.position p) =
      names[p]?.bind fun _ => rows[row]?.bind fun cells => cells[p]?.join) ∧
    (names.Nodup ↔ ∀ rows i row p,
      ((ofRows rows names).drop (.position i)).get? row (.position p) =
        (names.eraseIdx i)[p]?.bind fun _ =>
          rows[row]?.bind fun cells => (cells.eraseIdx i)[p]?.join) := by
  refine ⟨fun rows row p => get?_ofRows_position rows names row p,
    fun rows i row p => get?_drop_ofRows rows names i row p,
    ⟨fun distinct rows row p => ?_, fun all => ?_⟩,
    ⟨fun distinct rows i row p => ?_, fun all => ?_⟩⟩
  · rw [get?_ofRows_position]
    exact Option.bind_congr fun name here => Option.bind_congr fun cells _ =>
      Row.lastUnder_of_nodup distinct here cells
  · -- the first of two positions of a name shows the cell at the second one
    refine List.nodup_iff_getElem?_ne_getElem?.2 fun i j before bound same => ?_
    have here := List.getElem?_eq_getElem bound
    have shown := all [Row.marked j] 0 i
    rw [get?_ofRows_position, same, here] at shown
    simp only [List.getElem?_cons_zero, Option.bind_some, Row.lastUnder_marked here,
      Row.marked_of_lt before, Option.some.injEq, Cell.text.injEq] at shown
    exact absurd shown (by decide)
  · rw [get?_drop_ofRows]
    refine Option.bind_congr fun name here => ?_
    obtain ⟨q, apart, place, moved⟩ : ∃ q, q ≠ i ∧ names[q]? = some name ∧
        ∀ cells : List (Option Cell), (cells.eraseIdx i)[p]? = cells[q]? := by
      rcases Nat.lt_or_ge p i with before | behind
      · rw [List.getElem?_eraseIdx_of_lt before] at here
        exact ⟨p, by omega, here, fun _ => List.getElem?_eraseIdx_of_lt before⟩
      · rw [List.getElem?_eraseIdx_of_ge behind] at here
        exact ⟨p + 1, by omega, here, fun _ => List.getElem?_eraseIdx_of_ge behind⟩
    rw [if_neg fun dropped => apart (NameIndex.position_unique distinct place dropped)]
    refine Option.bind_congr fun cells _ => ?_
    rw [Row.lastUnder_of_nodup distinct place, moved]
  · -- when the first of two positions of a name is dropped, the second shows nothing
    refine List.nodup_iff_getElem?_ne_getElem?.2 fun i j before bound same => ?_
    have here := List.getElem?_eq_getElem bound
    have shown := all [Row.marked j] i 0 (j - 1)
    have next : j - 1 + 1 = j := by omega
    rw [get?_drop_ofRows, List.getElem?_eraseIdx_of_ge (by omega), next, here] at shown
    simp only [same, here, Option.bind_some, if_true, List.getElem?_cons_zero,
      List.getElem?_eraseIdx_of_ge (by omega : i ≤ j - 1), next, Row.marked_last] at shown
    exact absurd shown (by decide)

/-- Of two columns of one name, both positions show the cell of the second. -/
theorem not_positional_access :
    ¬ ∀ rows names row p, (ofRows rows names).get? row (.position p) =
      names[p]?.bind fun _ => rows[row]?.bind fun cells => cells[p]?.join := by
  intro all
  have shown : some (Cell.text "y") = some (.text "x") :=
    all [[some (.text "x"), some (.text "y")]] ["A", "A"] 0 0
  rw [Option.some.injEq, Cell.text.injEq] at shown
  exact absurd shown (by decide)

end Table

end Infographic
