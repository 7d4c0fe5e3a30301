/-
# Infographic.Proofs.DisplayedCells -- what is shown for the cells of a message

Every column of the table of a message has a standard and a compact format, so a cell is always
shown by one of these, after the cast of its column (`display_ofMessage`).  A column that declares
no format gets the one for texts: it shows the texts among its cells and marks the numbers as
failures, which are all the cells of a column declared as one of numbers (`display_unformatted`).
-/
import Infographic.Proofs.MessageTable

namespace Infographic

set_option autoImplicit false

/-- With both formats a column shows every cell by the one asked for. -/
theorem Column.write_of_formats {c : Column} {f g : DisplayFormat} (standard : c.standard = some f)
    (compact : c.compact = some g) (short : Bool) (cell : Cell) :
    c.write short cell = (if short then g else f).write cell := by
  rw [write, standard, compact]
  cases short <;> rfl

namespace Table

variable {t : Table} {i : Nat} {c : Column} {d : MessageColumn} {key : ColumnKey}

/-- A cell of a column in a table in step is shown by the column, however it is addressed. -/
theorem InStep.display_eq (h : t.InStep) (here : t.columns[i]? = some c)
    (addressed : key = .name c.name ∨ key = .position i) (row : Nat) (compact : Bool) :
    t.display row key compact =
      (t.get? row (.name c.name)).elim failureMark (c.write compact) := by
  have found : t.column? key = some c := by
    rcases addressed with rfl | rfl
    · exact h.column?_name here
    · rw [column?_position, here]
  rw [display, found]
  dsimp only
  cases t.get? row (.name c.name) <;> rfl

section

variable (m : Message) (locale : Locale)

/-- A cell of a message is shown by the declared format of its column, after the cast of the
column. -/
theorem display_ofMessage (distinct : m.labels.Nodup) (declares : m.columns[i]? = some d)
    (addressed : key = .name d.label ∨ key = .position i) (row : Nat) (compact : Bool) :
    (ofMessage m locale).display row key compact =
      (m.rows[row]?.bind fun cells => cells[i]?.join).elim failureMark fun cell =>
        (DisplayFormat.ofColumn d compact locale).write (castCell d.kind.toColumnKind? cell) := by
  obtain ⟨c, here, name, -, standard, short, -⟩ :=
    getElem?_ofMessage m locale distinct declares
  rw [← name] at addressed
  rw [(inStep_ofMessage m locale distinct).display_eq here addressed, name,
    get?_ofMessage m locale distinct declares]
  cases m.rows[row]?.bind fun cells => cells[i]?.join with
  | none => rfl
  | some cell =>
      rw [Option.map_some, Option.elim_some, Option.elim_some, c.write_of_formats standard short]
      cases compact <;> rfl

/-- What is shown of a cell where only texts are shown. -/
def shownText : Option Cell → String
  | some (.text s) => s
  | _ => failureMark

theorem write_text (cell : Cell) : DisplayFormat.text.write cell = shownText (some cell) := by
  cases cell <;> rfl

/-- **How columns without a format show their cells.**  A column that declares no format shows the
texts among its cells, and the mark of failure for missing cells and for numbers.  Declared as one
of strings it shows the text of every cell that the message has.  Declared as one of numbers it
shows nothing but the mark, and any other column shows the texts among the cells of the message. -/
theorem display_unformatted (distinct : m.labels.Nodup) (declares : m.columns[i]? = some d)
    (unformatted : d.format = none) (addressed : key = .name d.label ∨ key = .position i)
    (row : Nat) (compact : Bool) :
    let t := ofMessage m locale
    let cell := m.rows[row]?.bind fun cells => cells[i]?.join
    t.display row key compact = shownText (t.get? row key) ∧
      (d.kind = .string → t.display row key compact = cell.elim failureMark Cell.toText) ∧
      (d.kind = .number → t.display row key compact = failureMark) ∧
      (d.kind = .date ∨ d.kind = .other → t.display row key compact = shownText cell) := by
  intro t cell
  have plain : DisplayFormat.ofColumn d compact locale = .text := by
    rw [DisplayFormat.ofColumn, unformatted]
  have cells := get?_ofMessage m locale distinct declares row
  have shown : t.display row key compact =
      shownText (cell.map (castCell d.kind.toColumnKind?)) := by
    rw [display_ofMessage m locale distinct declares addressed, plain]
    change cell.elim _ _ = _
    cases cell with
    | none => rfl
    | some cell => exact write_text _
  refine ⟨?_, fun string => ?_, fun number => ?_, fun other => ?_⟩
  · obtain ⟨c, here, name, -⟩ := getElem?_ofMessage m locale distinct declares
    have same : t.get? row key = t.get? row (.name d.label) := by
      rcases addressed with rfl | rfl
      · rfl
      · rw [← name, (inStep_ofMessage m locale distinct).get?_name here]
    rw [shown, same, cells]
  · rw [shown, string]
    cases cell <;> rfl
  · rw [shown, number]
    cases cell <;> rfl
  · have kept : castCell d.kind.toColumnKind? = id := by
      rcases other with date | other
      · rw [date]; rfl
      · rw [other]; rfl
    rw [shown, kept, Option.map_id, id]

end

/-- A message about columns without formats. -/
def plainMessage : Message :=
  { version := "1", resultName := "orders", rowCount := 2, availableRowCount := 2
    rows := [[some (.number 5.0), some (.number 7.0), some (.text "2019-03-01")],
      [some (.text "6"), none, some (.number 21609.0)]]
    columns := [⟨"bi1", "Amount", .number, none, none, none⟩,
      ⟨"bi2", "Code", .string, none, none, none⟩, ⟨"bi3", "Day", .date, none, none, none⟩] }

/-- The theorem at this message. -/
theorem display_unformatted_orders :
    let t := ofMessage plainMessage .english
    plainMessage.labels.Nodup ∧ t.display 1 (.name "Amount") true = "???" ∧
      t.display 0 (.position 1) false = "7" ∧ t.display 1 (.name "Code") false = "???" ∧
      t.display 0 (.name "Day") true = "2019-03-01" ∧ t.display 1 (.name "Day") false = "???" := by
  have distinct : plainMessage.labels.Nodup := by decide
  have amount := display_unformatted plainMessage .english distinct (i := 0) rfl rfl (.inl rfl)
  have code (key : ColumnKey) (addressed : key = .name "Code" ∨ key = .position 1) :=
    display_unformatted plainMessage .english distinct (i := 1) rfl rfl addressed
  have day := display_unformatted plainMessage .english distinct (i := 2) rfl rfl (.inl rfl)
  have seven : (Cell.number 7.0).toText = "7" := by decide +kernel
  refine ⟨distinct, (amount 1 true).2.2.1 rfl, ((code _ (.inr rfl) 0 false).2.1 rfl).trans seven,
    (code _ (.inl rfl) 1 false).2.1 rfl, (day 0 true).2.2.2 (.inl rfl),
    (day 1 false).2.2.2 (.inl rfl)⟩

/-- A column declared as one of numbers does not show its numbers if it declares no format. -/
theorem not_display_unformatted :
    ¬ ∀ (m : Message) (locale : Locale), m.labels.Nodup → ∀ (i : Nat) d, m.columns[i]? = some d →
      d.format = none → ∀ row compact cell,
        (ofMessage m locale).get? row (.name d.label) = some cell →
        (ofMessage m locale).display row (.name d.label) compact = cell.toText := by
  intro all
  have shown := all plainMessage .english (by decide) 0 _ rfl rfl 0 false (.number 5.0) rfl
  exact absurd shown (by decide +kernel)

end Table

end Infographic
