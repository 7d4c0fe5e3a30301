/-
# Infographic.Proofs.StatsScan -- computed statistics are those of the cells

Statistics are computed in one pass over the readings of a column, from bounds at the ends of all
numbers.  `Stats.Scans` is what holds after every reading (`Scans.add`), so it holds of all of them
(`scans_ofReadings`): the bounds are the least and the greatest reading, and one of the readings
each as soon as one is a number; the sum is that of all readings in order.  In a table in step the
readings of a column are those of its cells (`InStep.summarizes`), and computing statistics puts
them into the selected columns of numbers and changes nothing else (`computed_stats_scan`).
-/
import Infographic.Proofs.FloatOrder
import Infographic.Proofs.ManualStats

namespace Infographic

set_option autoImplicit false

/-! ## Readings -/

namespace Stats

open Number (infinity)

variable {s : Stats} {m : Float} {xs : List Float}

/-- An order of numbers read from one of its ends, which is a number too. -/
structure FromEnd (before : Float → Float → Prop) (ahead : Float → Float → Prop) (last : Float) :
    Prop where
  self : ∀ x, x.isNaN = false → before x x
  trans : ∀ x y z, x.isNaN = false → y.isNaN = false → z.isNaN = false →
    before x y → before y z → before x z
  of_ahead : ∀ x y, ahead x y → x.isNaN = false ∧ (y.isNaN = false → before x y)
  of_not_ahead : ∀ x y, x.isNaN = false → y.isNaN = false → ¬ ahead x y → before y x
  number : last.isNaN = false
  eq_last : ∀ x, x.isNaN = false → before last x → x = last

theorem upward : FromEnd (· ≤ ·) (· < ·) infinity where
  self _ := Number.le_self
  trans _ _ _ := Number.le_trans
  of_ahead _ _ less :=
    let number := Number.isNaN_eq_false_of_lt (.inl less)
    ⟨number, fun other => Number.le_of_lt number other less⟩
  of_not_ahead _ _ first second := (Number.not_lt_iff first second).1
  number := by decide +kernel
  eq_last _ number low :=
    Number.eq_infinity number ((Number.not_lt_iff number (by decide +kernel)).2 low)

theorem downward : FromEnd (· ≥ ·) (· > ·) (-infinity) where
  self _ := Number.le_self
  trans _ _ _ first second third high low := Number.le_trans third second first low high
  of_ahead _ _ more :=
    let number := Number.isNaN_eq_false_of_lt (.inr more)
    ⟨number, fun other => Number.le_of_lt other number more⟩
  of_not_ahead _ _ first second := (Number.not_lt_iff second first).1
  number := by decide +kernel
  eq_last _ number high :=
    Number.eq_neg_infinity number ((Number.not_lt_iff (by decide +kernel) number).2 high)

variable {before ahead : Float → Float → Prop} {last : Float}

/-- The foremost of some readings; the last number of all where no reading is a number. -/
structure Foremost (before : Float → Float → Prop) (last m : Float) (xs : List Float) : Prop where
  number : m.isNaN = false
  before : ∀ x ∈ xs, x.isNaN = false → before m x
  found : m ∈ xs ∨ m = last

theorem Foremost.start (order : FromEnd before ahead last) : Foremost before last last [] :=
  ⟨order.number, by simp, .inr rfl⟩

theorem Foremost.add (order : FromEnd before ahead last) (foremost : Foremost before last m xs)
    (x : Float) [Decidable (ahead x m)] :
    Foremost before last (if ahead x m then x else m) (xs ++ [x]) := by
  split
  · rename_i further
    obtain ⟨number, first⟩ := order.of_ahead x m further
    refine ⟨number, fun y member proper => ?_, .inl (by simp)⟩
    rcases List.mem_append.1 member with old | new
    · exact order.trans x m y number foremost.number proper (first foremost.number)
        (foremost.before y old proper)
    · rw [List.mem_singleton.1 new]
      exact order.self x number
  · rename_i behind
    refine ⟨foremost.number, fun y member proper => ?_,
      foremost.found.imp_left fun old => by simp [old]⟩
    rcases List.mem_append.1 member with old | new
    · exact foremost.before y old proper
    · obtain rfl := List.mem_singleton.1 new
      exact order.of_not_ahead y m proper foremost.number behind

/-- The foremost reading is one of them as soon as one is a number. -/
theorem Foremost.mem (order : FromEnd before ahead last) (foremost : Foremost before last m xs)
    {x : Float} (member : x ∈ xs) (proper : x.isNaN = false) : m ∈ xs := by
  rcases foremost.found with known | rfl
  · exact known
  · rwa [← order.eq_last x proper (foremost.before x member proper)]

/-- What is known of statistics after a scan of some readings, the mean apart. -/
structure Scans (s : Stats) (xs : List Float) : Prop where
  least : Foremost (· ≤ ·) infinity s.min xs
  greatest : Foremost (· ≥ ·) (-infinity) s.max xs
  sum : s.sum = xs.foldl (· + ·) 0.0

theorem scans_empty : Scans .empty [] where
  least := .start upward
  greatest := .start downward
  sum := rfl

/-- **Step**: one more reading. -/
theorem Scans.add (scans : s.Scans xs) (x : Float) : (s.add x).Scans (xs ++ [x]) where
  least := scans.least.add upward x
  greatest := scans.greatest.add downward x
  sum := by
    rw [List.foldl_append, ← scans.sum]
    rfl

/-- **Run**: all readings in order. -/
theorem scans_foldl (xs : List Float) : (xs.foldl Stats.add .empty).Scans xs := by
  induction xs using List.reverseRecOn with
  | nil => exact scans_empty
  | append_singleton xs x ih =>
      rw [List.foldl_append]
      exact ih.add x

theorem scans_ofReadings (xs : List Float) : (ofReadings xs).Scans xs :=
  let scans := scans_foldl xs
  ⟨scans.least, scans.greatest, scans.sum⟩

end Stats

/-! ## Columns -/

namespace Table

variable {t : Table} {i : Nat} {c : Column}

/-- What the statistics of a column say of the cells under its name.  Cells that are no numbers
have no part in the bounds, and spoil the sum as missing ones do. -/
structure Summarizes (t : Table) (name : String) (s : Stats) : Prop where
  bounds : ∀ row cell, t.get? row (.name name) = some cell → cell.toNumber.isNaN = false →
    s.min ≤ cell.toNumber ∧ cell.toNumber ≤ s.max
  attained : (∃ row cell, t.get? row (.name name) = some cell ∧ cell.toNumber.isNaN = false) →
    (∃ row cell, t.get? row (.name name) = some cell ∧ cell.toNumber = s.min) ∧
      (∃ row cell, t.get? row (.name name) = some cell ∧ cell.toNumber = s.max) ∧ s.min ≤ s.max
  sum : s.sum = (List.range t.rows.length).foldl
    (fun sum row => sum + Cell.reading (t.get? row (.name name))) 0.0
  avg : s.avg = s.sum / Float.ofNat t.rows.length
  manual : s.manual = false

/-- Computing statistics changes no cell. -/
theorem get?_computeStats (t : Table) (selection : List String) (row : Nat) (key : ColumnKey) :
    (t.computeStats selection).get? row key = t.get? row key := by
  have rows : (t.computeStats selection).rows = t.rows := rfl
  have index : (t.computeStats selection).index = t.index := rfl
  exact get?_congr rows index (columnNames_computeStats t selection) row key

/-- The readings of a column in a table in step, row by row. -/
theorem InStep.readings_eq (h : t.InStep) (here : t.columns[i]? = some c) :
    t.readings c.name =
      (List.range t.rows.length).map fun row => Cell.reading (t.get? row (.name c.name)) := by
  refine List.ext_getElem (by simp [readings]) fun row inside _ => ?_
  have known : row < t.rows.length := by simpa [readings] using inside
  simp [readings, h.get?_rows here, List.getElem?_eq_getElem known]

theorem InStep.mem_readings (h : t.InStep) (here : t.columns[i]? = some c) {x : Float}
    (number : x.isNaN = false) :
    x ∈ t.readings c.name ↔
      ∃ row cell, t.get? row (.name c.name) = some cell ∧ cell.toNumber = x := by
  rw [h.readings_eq here, List.mem_map]
  constructor
  · rintro ⟨row, -, rfl⟩
    cases found : t.get? row (.name c.name) with
    | none =>
        rw [found] at number
        exact absurd number (by decide +kernel)
    | some cell => exact ⟨row, cell, found, rfl⟩
  · rintro ⟨row, cell, found, rfl⟩
    refine ⟨row, List.mem_range.2 ?_, by rw [found]; rfl⟩
    obtain ⟨r, known, -⟩ := Option.bind_eq_some_iff.1 ((h.get?_rows here row).symm.trans found)
    exact (List.getElem?_eq_some_iff.1 known).1

/-- Statistics of the readings of a column summarize its cells. -/
theorem InStep.summarizes (h : t.InStep) (here : t.columns[i]? = some c) :
    t.Summarizes c.name (.ofReadings (t.readings c.name)) := by
  obtain ⟨least, greatest, sum⟩ := Stats.scans_ofReadings (t.readings c.name)
  refine ⟨fun row cell found number => ?_, fun ⟨row, cell, found, number⟩ => ?_, ?_, ?_,
    Stats.ofReadings_manual _⟩
  · have member := (h.mem_readings here number).2 ⟨row, cell, found, rfl⟩
    exact ⟨least.before _ member number, greatest.before _ member number⟩
  · have member := (h.mem_readings here number).2 ⟨row, cell, found, rfl⟩
    refine ⟨(h.mem_readings here least.number).1 (least.mem Stats.upward member number),
      (h.mem_readings here greatest.number).1 (greatest.mem Stats.downward member number), ?_⟩
    exact Number.le_trans least.number number greatest.number (least.before _ member number)
      (greatest.before _ member number)
  · rw [sum, h.readings_eq here, List.foldl_map]
  · rw [Stats.ofReadings]
    simp [readings]

/-- The selected columns of numbers without statistics from outside. -/
def Picked (selection : List String) (c : Column) : Prop :=
  (selection = [] ∨ c.name ∈ selection) ∧ c.kind = .number ∧ c.hasManualStats = false

theorem picked_iff {selection : List String} :
    (selects selection c && c.isComputed) = true ↔ Picked selection c := by
  simp [selects, Column.isComputed, Picked]

/-- **Computed statistics are those of the cells.**  Whatever a table of distinct names went
through, computing statistics gives each selected column of numbers without statistics from outside
those that summarize its cells.  Every other column stays as it is, and so do all cells, names,
kinds and formats. -/
theorem computed_stats_scan (rows : List (List (Option Cell))) (names : List String)
    (distinct : names.Nodup) (changes : List Change) (selection : List String) :
    let t := (ofRows rows names).run changes
    let after := t.computeStats selection
    after.rows = t.rows ∧ after.index = t.index ∧ after.columns.length = t.columns.length ∧
      (∀ row key, after.get? row key = t.get? row key) ∧
      ∀ (i : Nat) c, t.columns[i]? = some c →
        (¬ Picked selection c → after.columns[i]? = some c) ∧
        (Picked selection c → ∃ s, after.columns[i]? = some { c with stats := some s } ∧
          t.Summarizes c.name s) := by
  intro t after
  have inStep : t.InStep := (inStep_ofRows rows distinct).run changes
  have column (i : Nat) : after.columns[i]? = t.columns[i]?.map fun c =>
      if selects selection c && c.isComputed then
        { c with stats := some (.ofReadings (t.readings c.name)) }
      else c := List.getElem?_map ..
  refine ⟨rfl, rfl, List.length_map _, fun row key => ?_, fun i c here => ⟨fun left => ?_,
    fun picked => ⟨.ofReadings (t.readings c.name), ?_, inStep.summarizes here⟩⟩⟩
  · exact get?_computeStats t selection row key
  · rw [column, here, Option.map_some, if_neg (mt picked_iff.1 left)]
  · rw [column, here, Option.map_some, if_pos (picked_iff.2 picked)]

/-- The theorem at a column with a text that is a number, one that is none, and a missing cell,
beside a column that is not selected. -/
theorem computed_stats_scan_mixed :
    ["A", "B"].Nodup ∧
      let t := (ofRows [[some (.number 7.0), some (.number 1.0)], [some (.text " 3 ")],
        [some (.text "x"), some (.number 2.0)], []] ["A", "B"]).run
          [.set 0 (.name "A") (some (.number 9.0)), .set 0 (.name "B") none]
      ∃ s, ((t.computeStats ["A"]).columns[0]?.bind Column.stats) = some s ∧ s.min ≤ 3.0 ∧
        9.0 ≤ s.max ∧ s.sum.isNaN = true ∧ (t.computeStats ["A"]).columns[1]? = t.columns[1]? := by
  refine ⟨by decide, ?_⟩
  intro t
  obtain ⟨-, -, -, -, columns⟩ := computed_stats_scan
    [[some (.number 7.0), some (.number 1.0)], [some (.text " 3 ")],
      [some (.text "x"), some (.number 2.0)], []] ["A", "B"] (by decide)
    [.set 0 (.name "A") (some (.number 9.0)), .set 0 (.name "B") none] ["A"]
  obtain ⟨s, made, summary⟩ := (columns 0 _ rfl).2 ⟨by decide, rfl, by decide +kernel⟩
  have three : t.get? 1 (.name "A") = some (.text " 3 ") := rfl
  have nine : t.get? 0 (.name "A") = some (.number 9.0) := rfl
  have reads : (Cell.text " 3 ").toNumber = 3.0 := by decide +kernel
  refine ⟨s, by rw [made]; rfl, ?_, ?_, ?_, ?_⟩
  · exact reads ▸ (summary.bounds 1 _ three (by rw [reads]; decide +kernel)).1
  · exact (summary.bounds 0 _ nine (by decide +kernel)).2
  · rw [summary.sum]
    decide +kernel
  · exact ((columns 1 _ rfl).1 fun picked => absurd picked.1 (by decide +kernel)).trans rfl

end Table

end Infographic
