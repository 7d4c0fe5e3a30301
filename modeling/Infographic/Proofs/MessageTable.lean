/-
# Infographic.Proofs.MessageTable -- what the table of a message holds

A message says of every column its name, its kind and its format, and its rows bring the cells.
Each step of the three loops that build the table changes the column under one name and leaves the
others alone, so with distinct labels every column gets its own change once (`foldl_own`).  Casts
change the cells of their column (`InStep.get?_cast`) and keep statistics those of the cells
(`InStep.tallied_cast`); formats change neither.  `ofMessage_columns` puts the whole table together.
-/
import Infographic.Proofs.LabelReading
import Infographic.Proofs.StatsPresence
import Infographic.Proofs.StatsScan

namespace Infographic

set_option autoImplicit false

/-! ## Rows -/

/-- Replacing a cell that is there changes what is found under its name only. -/
theorem Row.InStep.get?_set {r : Row} {names : List String} (h : r.InStep names)
    {target : String} {old : Cell} (found : r.get? (.name target) = some old)
    (cell : Option Cell) (name : String) :
    (r.set (.name target) cell).get? (.name name) =
      if target = name then cell else r.get? (.name name) := by
  obtain ⟨i, located, -⟩ := Option.bind_eq_some_iff.1 found
  obtain ⟨bound, place⟩ := h.locate_name.1 located
  unfold Row.set
  rw [located]
  change ((r.locate (.name name)).bind fun j => (r.cells.set i cell)[j]?.join) = _
  split
  · rename_i same
    subst same
    rw [located, Option.bind_some, List.getElem?_set_self bound, Option.join_some]
  · rename_i other
    rw [Row.get?]
    refine Option.bind_congr fun j found => ?_
    obtain ⟨-, place'⟩ := h.locate_name.1 found
    have apart : i ≠ j := by
      rintro rfl
      exact other (Option.some.inj (place.symm.trans place'))
    rw [List.getElem?_set_ne apart]

namespace Table

variable {t : Table} {i : Nat} {c : Column} {name : String} {d : MessageColumn}

/-! ## Steps under distinct names -/

/-- Steps under distinct names change what is seen under a name once: by the step of that name. -/
theorem foldl_own {α β : Type} {step : Table → α → Table} {key : α → String}
    (Holds : Table → Prop) (view : Table → β) (own : α → β → β)
    (keeps : ∀ t a, Holds t → Holds (step t a))
    (sees : ∀ t a, Holds t → view (step t a) = if key a = name then own a (view t) else view t)
    {as : List α} (distinct : (as.map key).Nodup) {a : α} (member : a ∈ as) (named : key a = name)
    (holds : Holds t) : view (as.foldl step t) = own a (view t) := by
  have others (as : List α) (apart : ∀ b ∈ as, key b ≠ name) (t : Table) (holds : Holds t) :
      view (as.foldl step t) = view t := by
    induction as generalizing t with
    | nil => rfl
    | cons b rest ih =>
        rw [List.foldl_cons, ih (fun b known => apart b (List.mem_cons_of_mem _ known)) _
          (keeps t b holds), sees t b holds, if_neg (apart b List.mem_cons_self)]
  induction as generalizing t with
  | nil => cases member
  | cons b rest ih =>
      obtain ⟨fresh, distinct⟩ := List.nodup_cons.1 distinct
      rw [List.foldl_cons]
      rcases List.mem_cons.1 member with rfl | later
      · rw [others rest _ _ (keeps t a holds), sees t a holds, if_pos named]
        intro b known same
        exact fresh (List.mem_map.2 ⟨b, known, same.trans named.symm⟩)
      · have other : key b ≠ name := fun same =>
          fresh (List.mem_map.2 ⟨a, later, named.trans same.symm⟩)
        rw [ih distinct later (keeps t b holds), sees t b holds, if_neg other]

/-! ## Cells -/

/-- A cell after a cast of its column, if there is one. -/
def castCell : Option ColumnKind → Cell → Cell
  | some .number, cell => .number cell.toNumber
  | some .string, cell => .text cell.toText
  | _, cell => cell

theorem castCell_none : castCell none = id := rfl

theorem castCell_date : castCell (some .date) = id := rfl

/-- In a table in step the cells under any name are those of the rows. -/
theorem InStep.get?_by_name (h : t.InStep) (row : Nat) (name : String) :
    t.get? row (.name name) = t.rows[row]?.bind fun r => r.get? (.name name) := by
  by_cases known : name ∈ t.columnNames
  · obtain ⟨c, member, rfl⟩ := List.mem_map.1 known
    obtain ⟨i, here⟩ := List.mem_iff_getElem?.1 member
    exact h.get?_rows here row
  · have nothing : t.column? (.name name) = none := by
      rw [← Option.not_isSome_iff_eq_none]
      exact mt h.hasColumn_iff.1 known
    rw [get?, nothing]
    refine Option.bind_congr fun r place => ?_
    have missing : r.locate (.name name) = none := by
      rw [Option.eq_none_iff_forall_ne_some]
      intro j located
      have here := ((h.rows r (List.mem_of_getElem? place)).locate_name.1 located).2
      exact known (List.mem_of_getElem? here)
    rw [Row.get?, missing]
    rfl

theorem InStep.get?_mapCells (h : t.InStep) (target : String) (f : Cell → Cell) (row : Nat)
    (name : String) :
    (t.mapCells target f).get? row (.name name) =
      if target = name then (t.get? row (.name name)).map f else t.get? row (.name name) := by
  rw [(h.mapCells target f).get?_by_name, h.get?_by_name, Table.mapCells, List.getElem?_map]
  cases place : t.rows[row]? with
  | none => simp
  | some r =>
      have rowStep := h.rows r (List.mem_of_getElem? place)
      rw [Option.map_some, Option.bind_some, Option.bind_some]
      by_cases same : target = name
      · subst same
        rw [if_pos rfl]
        cases found : r.get? (.name target) with
        | none => exact found
        | some old => exact (rowStep.get?_set found _ target).trans (if_pos rfl)
      · rw [if_neg same]
        cases found : r.get? (.name target) with
        | none => rfl
        | some old => exact (rowStep.get?_set found _ name).trans (if_neg same)

/-- A cast changes the cells of its column. -/
theorem InStep.get?_cast (h : t.InStep) (target : String) (kind : ColumnKind) (row : Nat)
    (name : String) :
    (t.cast (.name target) kind).get? row (.name name) =
      if target = name then (t.get? row (.name name)).map (castCell (some kind))
      else t.get? row (.name name) := by
  have typed (kind : ColumnKind) :
      (t.modifyColumn (.name target) fun c => { c with kind }).get? row (.name name) =
        t.get? row (.name name) := by
    refine get?_modifyColumn t _ (fun c => ?_) row _
    rfl
  have inStep (kind : ColumnKind) :
      (t.modifyColumn (.name target) fun c => { c with kind }).InStep :=
    h.modifyColumn _ fun _ => rfl
  unfold Table.cast
  cases found : t.column? (.name target) with
  | none =>
      dsimp only
      split
      · rename_i same
        rw [← same, get?, found]
        cases t.rows[row]? <;> rfl
      · rfl
  | some c =>
      obtain rfl := h.name_of_column? found
      cases kind with
      | string => rw [(inStep .string).get?_mapCells, typed]; rfl
      | number => rw [get?_computeStats, (inStep .number).get?_mapCells, typed]; rfl
      | date => rw [typed, castCell_date, Option.map_id, id, ite_self]

theorem InStep.get?_castDeclared (h : t.InStep) (d : MessageColumn) (row : Nat) (name : String) :
    (t.castDeclared d).get? row (.name name) =
      if d.label = name then (t.get? row (.name name)).map (castCell d.kind.toColumnKind?)
      else t.get? row (.name name) := by
  unfold Table.castDeclared
  cases d.kind.toColumnKind? with
  | none => rw [castCell_none, Option.map_id, id, ite_self]
  | some kind => exact h.get?_cast d.label kind row name

/-- Casting columns to declared kinds changes the cells of each by its own. -/
theorem InStep.get?_castAll (h : t.InStep) {declared : List MessageColumn}
    (distinct : (declared.map MessageColumn.label).Nodup) (member : d ∈ declared) (row : Nat) :
    (declared.foldl Table.castDeclared t).get? row (.name d.label) =
      (t.get? row (.name d.label)).map (castCell d.kind.toColumnKind?) :=
  foldl_own InStep (fun t => t.get? row (.name d.label))
    (fun d cell => cell.map (castCell d.kind.toColumnKind?))
    (fun _ d inStep => inStep.castDeclared d)
    (fun _ e inStep => inStep.get?_castDeclared e row d.label) distinct member rfl h

/-! ## Statistics -/

/-- The statistics of a column are computed, those of a column of numbers from its cells. -/
structure Tallied (t : Table) (c : Column) : Prop where
  computed : c.hasManualStats = false
  scanned : c.kind = .number → c.stats = some (.ofReadings (t.readings c.name))

theorem tallied_ofRows (rows : List (List (Option Cell))) (names : List String) :
    ∀ c ∈ (ofRows rows names).columns, (ofRows rows names).Tallied c := by
  intro c member
  obtain ⟨b, plain, made⟩ := List.mem_map.1 member
  obtain ⟨⟨name, place⟩, -, rfl⟩ := List.mem_map.1 plain
  dsimp only at made
  split at made
  · subst made
    exact ⟨Stats.ofReadings_manual _, fun _ => rfl⟩
  · rename_i left
    subst made
    refine ⟨rfl, fun number => absurd ?_ left⟩
    exact picked_iff.2 ⟨.inl rfl, number, rfl⟩

theorem length_rows_cast (t : Table) (key : ColumnKey) (kind : ColumnKind) :
    (t.cast key kind).rows.length = t.rows.length := by
  unfold Table.cast
  split
  · rfl
  · cases kind <;> simp [Table.mapCells, rows_modifyColumn, Table.computeStats]

theorem length_rows_castAll (t : Table) (declared : List MessageColumn) :
    (declared.foldl castDeclared t).rows.length = t.rows.length := by
  induction declared generalizing t with
  | nil => rfl
  | cons d rest ih =>
      refine (ih _).trans ?_
      unfold castDeclared
      split
      · exact length_rows_cast _ _ _
      · rfl

/-- Readings follow the cells. -/
theorem InStep.readings_congr {t' : Table} (h : t.InStep) (h' : t'.InStep)
    (here : t.columns[i]? = some c) (there : t'.columns[i]? = some c)
    (rows : t'.rows.length = t.rows.length)
    (cells : ∀ row, t'.get? row (.name c.name) = t.get? row (.name c.name)) :
    t'.readings c.name = t.readings c.name := by
  rw [h'.readings_eq there, h.readings_eq here, rows]
  exact List.map_congr_left fun row _ => congrArg Cell.reading (cells row)

/-- A cast computes the statistics of its column if they are to be of numbers, and changes no others
nor their cells. -/
theorem InStep.tallied_cast (h : t.InStep) (tallied : ∀ c ∈ t.columns, t.Tallied c)
    (name : String) (kind : ColumnKind) :
    ∀ c ∈ (t.cast (.name name) kind).columns, (t.cast (.name name) kind).Tallied c := by
  intro c' member
  obtain ⟨i, here⟩ := List.mem_iff_getElem?.1 member
  obtain ⟨c, before⟩ : ∃ c, t.columns[i]? = some c := by
    refine ⟨_, List.getElem?_eq_getElem ?_⟩
    rw [← length_columns_cast t (.name name) kind]
    exact (List.getElem?_eq_some_iff.1 here).1
  obtain ⟨computed, scanned⟩ := tallied c (List.mem_of_getElem? before)
  by_cases own : name = c.name
  · subst own
    have made := h.getElem?_cast_self before computed kind
    cases here.symm.trans made
    by_cases number : kind = .number
    · simp only [if_pos number]
      exact ⟨Stats.ofReadings_manual _, fun _ => rfl⟩
    · simp only [if_neg number]
      exact ⟨computed, fun numbers => absurd numbers number⟩
  · have same := h.getElem?_cast_other before own kind
    obtain rfl : c = c' := Option.some.inj (same.symm.trans here)
    refine ⟨computed, fun number => ?_⟩
    have cells (row : Nat) := (h.get?_cast name kind row c.name).trans (if_neg own)
    rw [h.readings_congr (h.cast _ kind) before same (length_rows_cast t _ kind) cells]
    exact scanned number

/-- Casting columns to declared kinds keeps statistics those of the cells. -/
theorem InStep.tallied_castAll (h : t.InStep) (tallied : ∀ c ∈ t.columns, t.Tallied c)
    (declared : List MessageColumn) :
    (declared.foldl Table.castDeclared t).InStep ∧
      ∀ c ∈ (declared.foldl Table.castDeclared t).columns,
        (declared.foldl Table.castDeclared t).Tallied c := by
  induction declared generalizing t with
  | nil => exact ⟨h, tallied⟩
  | cons d rest ih =>
      refine ih (h.castDeclared d) ?_
      unfold Table.castDeclared
      cases d.kind.toColumnKind? with
      | none => exact tallied
      | some kind => exact h.tallied_cast tallied d.label kind

/-! ## Formats -/

theorem InStep.getElem?_setFormat (h : t.InStep) (place : t.columnNames[i]? = some name)
    (target : String) (compact : Bool) (f : DisplayFormat) :
    (t.setFormat (.name target) compact f).columns[i]? =
      if target = name then t.columns[i]?.map (·.setFormat compact f) else t.columns[i]? := by
  rw [Table.setFormat, getElem?_modifyColumn]
  have located : t.locate (.name target) = some i ↔ target = name := by
    rw [locate, h.index.locate_name, place, Option.some.injEq, eq_comm]
  simp only [located]

/-- Formats under distinct names go to the columns of these names. -/
theorem InStep.getElem?_setFormats_own (h : t.InStep) (place : t.columnNames[i]? = some name)
    {formats : List (String × DisplayFormat)} (distinct : (formats.map Prod.fst).Nodup)
    {f : DisplayFormat} (member : (name, f) ∈ formats) (compact : Bool) :
    (t.setFormats formats compact).columns[i]? = t.columns[i]?.map (·.setFormat compact f) := by
  have keeps (t : Table) (e : String × DisplayFormat)
      (both : t.InStep ∧ t.columnNames[i]? = some name) :
      (t.setFormat (.name e.1) compact e.2).InStep ∧
        (t.setFormat (.name e.1) compact e.2).columnNames[i]? = some name :=
    ⟨both.1.setFormat _ _ _, by rw [columnNames_setFormat, both.2]⟩
  have sees (t : Table) (e : String × DisplayFormat)
      (both : t.InStep ∧ t.columnNames[i]? = some name) :=
    both.1.getElem?_setFormat both.2 e.1 compact e.2
  exact foldl_own _ (fun t => t.columns[i]?) (fun e => Option.map (Column.setFormat · compact e.2))
    keeps sees distinct member rfl ⟨h, place⟩

/-- Formats change no cell and no name. -/
theorem setFormats_frame (t : Table) (formats : List (String × DisplayFormat)) (compact : Bool) :
    (t.setFormats formats compact).rows = t.rows ∧
      (t.setFormats formats compact).index = t.index ∧
      (t.setFormats formats compact).columnNames = t.columnNames := by
  unfold Table.setFormats
  induction formats generalizing t with
  | nil => exact ⟨rfl, rfl, rfl⟩
  | cons e rest ih =>
      obtain ⟨rows, index, names⟩ := ih (t.setFormat (.name e.1) compact e.2)
      exact ⟨rows.trans (rows_modifyColumn ..), index.trans (index_modifyColumn ..),
        names.trans (columnNames_setFormat ..)⟩

theorem get?_setFormats (t : Table) (formats : List (String × DisplayFormat)) (compact : Bool)
    (row : Nat) (key : ColumnKey) :
    (t.setFormats formats compact).get? row key = t.get? row key :=
  let ⟨rows, index, names⟩ := setFormats_frame t formats compact
  get?_congr rows index names row key

/-- The columns of a message get the formats of their declarations. -/
theorem InStep.getElem?_declaredFormats (h : t.InStep) {m : Message} (distinct : m.labels.Nodup)
    (declares : m.columns[i]? = some d) (place : t.columnNames[i]? = some d.label)
    (locale : Locale) :
    ((t.setFormats (declaredFormats m false locale) false).setFormats
      (declaredFormats m true locale) true).columns[i]? = t.columns[i]?.map fun c =>
        { c with
          standard := some (.ofColumn d false locale)
          compact := some (.ofColumn d true locale) } := by
  have labels (compact : Bool) : ((declaredFormats m compact locale).map Prod.fst).Nodup := by
    simpa [declaredFormats, Message.labels, Function.comp_def] using distinct
  have member (compact : Bool) :
      (d.label, DisplayFormat.ofColumn d compact locale) ∈ declaredFormats m compact locale :=
    List.mem_map.2 ⟨d, List.mem_of_getElem? declares, rfl⟩
  have between : (t.setFormats (declaredFormats m false locale) false).columnNames[i]? =
      some d.label := by
    rw [(setFormats_frame t _ _).2.2, place]
  rw [(h.setFormats _ false).getElem?_setFormats_own between (labels true) (member true) true,
    h.getElem?_setFormats_own place (labels false) (member false) false, Option.map_map]
  rfl

/-! ## Messages -/

/-- In a new table the cell under a name is the one at the place of the name, if the row is long
enough. -/
theorem get?_ofRows (rows : List (List (Option Cell))) {names : List String}
    (distinct : names.Nodup) (here : names[i]? = some name) (row : Nat) :
    (ofRows rows names).get? row (.name name) = rows[row]?.bind fun cells => cells[i]?.join := by
  obtain ⟨c, place, rfl, -⟩ := getElem?_ofRows rows here
  have cells : (ofRows rows names).cells =
      rows.map fun cells => cells.take (min cells.length names.length) := by
    simp [ofRows, Table.computeStats, cells, Row.ofCells, Function.comp_def]
  have bound := (List.getElem?_eq_some_iff.1 here).1
  rw [(inStep_ofRows rows distinct).get?_column place, cells, List.getElem?_map]
  cases rows[row]? with
  | none => rfl
  | some cells =>
      rw [Option.map_some, Option.bind_some, Option.bind_some, List.getElem?_take]
      split
      · rfl
      · rw [List.getElem?_eq_none (by omega)]

section

variable (m : Message) (locale : Locale)

theorem inStep_ofMessage (distinct : m.labels.Nodup) : (ofMessage m locale).InStep := by
  rw [ofMessage_eq_run]
  exact (inStep_ofRows m.rows distinct).run _

/-- The rows of the table of a message are made by the casts. -/
theorem rows_ofMessage :
    (ofMessage m locale).rows = (m.columns.foldl castDeclared (ofRows m.rows m.labels)).rows :=
  (setFormats_frame ..).1.trans (setFormats_frame ..).1

theorem length_rows_ofMessage : (ofMessage m locale).rows.length = m.rows.length := by
  rw [rows_ofMessage, length_rows_castAll]
  exact List.length_map _

/-- The columns of the table of a message. -/
theorem getElem?_ofMessage (distinct : m.labels.Nodup) (declares : m.columns[i]? = some d) :
    ∃ c, (ofMessage m locale).columns[i]? = some c ∧ c.name = d.label ∧
      c.kind = d.kind.toColumnKind?.getD (kindOf (m.rows.head?.getD [])[i]?.join) ∧
      c.standard = some (.ofColumn d false locale) ∧ c.compact = some (.ofColumn d true locale) ∧
      (c.kind = .number →
        c.stats = some (.ofReadings ((ofMessage m locale).readings c.name))) := by
  have start := inStep_ofRows m.rows distinct
  obtain ⟨inStep, tallied⟩ := start.tallied_castAll (tallied_ofRows m.rows m.labels) m.columns
  have named : m.labels[i]? = some d.label := by simp [Message.labels, declares]
  obtain ⟨a, first, name, kind, computed⟩ := getElem?_ofRows m.rows named
  obtain ⟨b, second, name', kind', -⟩ :=
    start.getElem?_castAll first computed distinct (List.mem_of_getElem? declares) name.symm
  have label : b.name = d.label := name'.trans name
  have made := inStep.getElem?_declaredFormats distinct declares
    ((columnNames_getElem? second).trans (congrArg some label)) locale
  rw [second, Option.map_some] at made
  refine ⟨_, made, label, kind'.trans (congrArg _ kind), rfl, rfl, fun number => ?_⟩
  rw [Table.readings, rows_ofMessage]
  exact (tallied b (List.mem_of_getElem? second)).scanned number

/-- The cells of the table of a message are those of its rows, each after the cast of its column. -/
theorem get?_ofMessage (distinct : m.labels.Nodup) (declares : m.columns[i]? = some d)
    (row : Nat) :
    (ofMessage m locale).get? row (.name d.label) =
      (m.rows[row]?.bind fun cells => cells[i]?.join).map (castCell d.kind.toColumnKind?) := by
  have named : m.labels[i]? = some d.label := by simp [Message.labels, declares]
  rw [← get?_ofRows m.rows distinct named row,
    ← (inStep_ofRows m.rows distinct).get?_castAll distinct (List.mem_of_getElem? declares)]
  exact (get?_setFormats ..).trans (get?_setFormats ..)

/-- **What the table of a message holds.**  With distinct labels the table has the rows and the
columns of the message.  A column has the kind that it declares, or the one by its first cell.  Its
cells are those at its place in the rows: numbers in a column declared as one of numbers, texts in
one of strings, as they are in any other, and missing where the row is too short or has none.  Its
formats are those of its declaration, and if it is one of numbers its statistics are those of the
cells that it holds. -/
theorem ofMessage_columns (distinct : m.labels.Nodup) :
    let t := ofMessage m locale
    t.rows.length = m.rows.length ∧ t.columns.length = m.columns.length ∧
      ∀ (i : Nat) d, m.columns[i]? = some d → ∃ c, t.columns[i]? = some c ∧ c.name = d.label ∧
        c.kind = d.kind.toColumnKind?.getD (kindOf (m.rows.head?.getD [])[i]?.join) ∧
        c.standard = some (.ofColumn d false locale) ∧
        c.compact = some (.ofColumn d true locale) ∧
        (∀ row, t.get? row (.name d.label) = (m.rows[row]?.bind fun cells => cells[i]?.join).map
          (castCell d.kind.toColumnKind?)) ∧
        (c.kind = .number → ∃ s, c.stats = some s ∧ t.Summarizes d.label s ∧
          s = .ofReadings ((List.range t.rows.length).map fun row =>
            Cell.reading (t.get? row (.name d.label)))) := by
  intro t
  have inStep : t.InStep := inStep_ofMessage m locale distinct
  refine ⟨length_rows_ofMessage m locale, length_columns_ofMessage m locale,
    fun i d declares => ?_⟩
  obtain ⟨c, here, name, kind, standard, compact, scanned⟩ :=
    getElem?_ofMessage m locale distinct declares
  refine ⟨c, here, name, kind, standard, compact, get?_ofMessage m locale distinct declares,
    fun number => ⟨_, scanned number, ?_, ?_⟩⟩
  · rw [← name]
    exact inStep.summarizes here
  · rw [← name]
    exact congrArg Stats.ofReadings (inStep.readings_eq here)

end

/-- A message with a short first row, and with cells of other kinds than its columns declare. -/
def retypedMessage : Message :=
  { version := "1", resultName := "prices", rowCount := 2, availableRowCount := 2
    rows := [[some (.text "5")], [some (.number 2.0), some (.number 3.0), some (.text "x")]]
    columns := [⟨"bi1", "Price", .number, none, none, some ⟨"COMMA", 12, 2, "COMMA12.2"⟩⟩,
      ⟨"bi2", "Code", .string, none, none, none⟩, ⟨"bi3", "Note", .other, none, none, none⟩] }

/-- The theorem at this message: the prices have the formats of their declaration, and the notes,
which are shown as texts, are numbers by the first row. -/
theorem ofMessage_columns_retyped :
    retypedMessage.labels.Nodup ∧
      let t := ofMessage retypedMessage .english
      let decimals := { NumberFormat.plain .english with minFraction := some 2, maxFraction := some 2 }
      t.get? 0 (.name "Price") = some (.number 5.0) ∧ t.get? 0 (.name "Code") = none ∧
        t.get? 1 (.name "Code") = some (.text "3") ∧
        (∃ c, t.columns[0]? = some c ∧ c.standard = some (.number "" decimals) ∧
          c.compact = some (.number "" { decimals with maxSignificant := some 3, compact := true })) ∧
        ∃ c, t.columns[2]? = some c ∧ c.kind = .number ∧ c.standard = some .text ∧
          c.compact = some .text ∧ c.stats.isSome = true := by
  refine ⟨by decide, ?_⟩
  intro t decimals
  obtain ⟨-, -, columns⟩ := ofMessage_columns retypedMessage .english (by decide)
  obtain ⟨p, there, -, -, exact, short, prices, -⟩ := columns 0 _ rfl
  obtain ⟨-, -, -, -, -, -, codes, -⟩ := columns 1 _ rfl
  obtain ⟨c, here, -, kind, standard, compact, -, scanned⟩ := columns 2 _ rfl
  obtain ⟨s, stats, -⟩ := scanned kind
  have five : (Cell.text "5").toNumber = 5.0 := by decide +kernel
  have three : (Cell.number 3.0).toText = "3" := by decide +kernel
  have declared (compact : Bool) : DisplayFormat.ofColumn
      ⟨"bi1", "Price", .number, none, none, some ⟨"COMMA", 12, 2, "COMMA12.2"⟩⟩ compact .english =
        .number "" (DisplayFormat.declaredNumber ⟨"COMMA", 12, 2, "COMMA12.2"⟩ compact .english) := by
    cases compact <;> decide +kernel
  exact ⟨(prices 0).trans (by rw [← five]; rfl), codes 0, (codes 1).trans (by rw [← three]; rfl),
    ⟨p, there, exact.trans (congrArg some (declared false)),
      short.trans (congrArg some (declared true))⟩,
    c, here, kind, standard, compact, by rw [stats]; rfl⟩

end Table

end Infographic
