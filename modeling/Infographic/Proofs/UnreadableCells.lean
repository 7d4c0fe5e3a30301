/-
# Infographic.Proofs.UnreadableCells -- texts in columns of numbers

A display format marks a text as a failure if it is a format for numbers.  But a column that is
declared as one of numbers makes numbers of its cells before they are shown, not-a-number of a text
that stands for none, and no number is shown as the mark: what is written for it has a digit in it,
a colon, or the word or the sign for a number that is not finite (`writeNumber_ne_failureMark`).  So
the mark stands for missing cells only, and an unreadable text shows as its format writes
not-a-number (`unreadable_cells`).
-/
import Infographic.Proofs.CellNumerals
import Infographic.Proofs.DisplayedCells

namespace Infographic

set_option autoImplicit false

open Infographic.Number

/-! ## Numerals -/

namespace Number

/-- A numeral has a digit before the point. -/
def Numeral.HasDigit (n : Numeral) : Prop := ∃ c ∈ n.whole, isDigit c = true

theorem Numeral.hasDigit_ofUnits (units places : Nat) : (ofUnits units places).HasDigit := by
  have all := (allDigits_replicate (places + 1 - (digitsOf units).length)).append
    (allDigits_digitsOf units)
  have length : places < (List.replicate (places + 1 - (digitsOf units).length) '0' ++
      digitsOf units).length := by
    rw [List.length_append, List.length_replicate]
    omega
  unfold HasDigit ofUnits
  dsimp only
  generalize List.replicate (places + 1 - (digitsOf units).length) '0' ++ digitsOf units = padded
    at all length
  obtain ⟨c, member⟩ : ∃ c, c ∈ padded.take (padded.length - places) := by
    refine List.exists_mem_of_ne_nil _ fun empty => ?_
    have none := congrArg List.length empty
    rw [List.length_take, List.length_nil] at none
    omega
  exact ⟨c, member, all c (List.mem_of_mem_take member)⟩

theorem hasDigit_roundedNumeral (x : Float) (places : Int) :
    (roundedNumeral x places).HasDigit := by
  unfold roundedNumeral toPlaces?
  split
  · exact Numeral.hasDigit_ofUnits _ _
  · exact ⟨'0', List.mem_singleton_self _, by decide⟩

theorem hasDigit_fixed (x : Float) (least most : Nat) : (fixed x least most).HasDigit :=
  hasDigit_roundedNumeral x _

theorem hasDigit_significant (x : Float) (count : Nat) : (significant x count).HasDigit := by
  unfold significant
  split
  · exact ⟨'0', List.mem_singleton_self _, by decide⟩
  · exact hasDigit_roundedNumeral x _

end Number

/-! ## Number formats -/

namespace Grouping

variable {c : Char} {ds : List Char}

theorem mem_separateReversed (sep : List Char) (size left : Nat) (member : c ∈ ds) :
    c ∈ separateReversed sep size left ds := by
  induction ds generalizing left with
  | nil => cases member
  | cons d rest ih =>
      cases left with
      | zero =>
          refine List.mem_append_right _ (List.mem_cons.2 ?_)
          exact (List.mem_cons.1 member).imp_right (ih _)
      | succ left => exact List.mem_cons.2 ((List.mem_cons.1 member).imp_right (ih left))

theorem mem_separate (sep : List Char) (last size : Nat) (member : c ∈ ds) :
    c ∈ separate sep last size ds :=
  List.mem_reverse.2 (mem_separateReversed sep size last (List.mem_reverse.2 member))

theorem mem_apply (style : Grouping) (sep : List Char) (member : c ∈ ds) :
    c ∈ style.apply sep ds := by
  unfold apply
  split
  · exact mem_separate sep _ _ member
  · exact member

/-- Grouping leaves out no digit. -/
theorem mem_groupFrom (numbers : NumberConvention) (fuel : Nat) (member : c ∈ ds) :
    c ∈ groupFrom numbers fuel ds := by
  induction fuel generalizing ds with
  | zero => exact member
  | succ fuel ih =>
      rw [groupFrom]
      dsimp only
      split
      · exact mem_apply _ _ member
      · rw [← List.take_append_drop (ds.length - 36) ds] at member
        rcases List.mem_append.1 member with first | last
        · exact List.mem_append_left _ (List.mem_append_left _ (ih first))
        · exact List.mem_append_right _ (mem_separate _ 3 3 last)

end Grouping

namespace NumberFormat

variable {f : NumberFormat} {c : Char}

theorem mem_localized {n : Numeral} (member : c ∈ n.whole) : c ∈ f.localized n := by
  have grouped : c ∈ if f.grouped then Grouping.group f.locale.numbers n.whole else n.whole := by
    split
    · exact Grouping.mem_groupFrom _ _ member
    · exact member
  unfold localized
  dsimp only
  split
  · exact grouped
  · exact List.mem_append_left _ (List.mem_append_left _ grouped)

theorem hasDigit_abbreviateFrom (f : NumberFormat) (x : Float) (left : Nat) :
    (f.abbreviateFrom x left).1.HasDigit := by
  have compact (y : Float) : (f.compactNumeral y).HasDigit := by
    unfold compactNumeral
    split
    · exact hasDigit_significant _ _
    · split
      · exact hasDigit_significant _ _
      · exact hasDigit_fixed _ _ _
  have level (k : Nat) : (f.atLevel x k).1.HasDigit := compact _
  induction left with
  | zero => exact level 4
  | succ left ih =>
      rw [abbreviateFrom]
      split
      · exact ih
      · exact level _

/-- A written magnitude has a digit. -/
theorem exists_digit_body (f : NumberFormat) (x : Float) : ∃ c ∈ f.body x, isDigit c = true := by
  unfold body
  split
  · obtain ⟨c, member, digit⟩ := f.hasDigit_abbreviateFrom x (4 - magnitudeOf x)
    exact ⟨c, List.mem_append_left _ (mem_localized member), digit⟩
  · obtain ⟨c, member, digit⟩ : (f.plainNumeral x).HasDigit := by
      unfold plainNumeral
      split
      · exact hasDigit_significant _ _
      · exact hasDigit_fixed _ _ _
    exact ⟨c, mem_localized member, digit⟩

theorem mem_affixed (f : NumberFormat) (negative : Bool) {digits : List Char}
    (member : c ∈ digits) : c ∈ f.affixed negative digits := by
  unfold affixed
  dsimp only
  split
  · simp [member]
  · simp [member]
  · split
    · simp [member]
    · split <;> simp [member]

/-- A written number is not made of question marks. -/
theorem exists_mem_write (f : NumberFormat) (x : Float) : ∃ c ∈ f.write x, c ≠ '?' := by
  unfold write
  dsimp only
  generalize (if f.style = .percent then x * 100.0 else x) = scaled
  split
  · exact ⟨'N', f.mem_affixed _ (by decide), by decide⟩
  · split
    · exact ⟨'∞', f.mem_affixed _ (by decide), by decide⟩
    · obtain ⟨c, member, digit⟩ := f.exists_digit_body scaled.abs
      refine ⟨c, f.mem_affixed _ member, ?_⟩
      rintro rfl
      exact absurd digit (by decide)

theorem write_of_isNaN (f : NumberFormat) {x : Float} (plain : x.isNaN = true)
    (hundredfold : (x * 100.0).isNaN = true) : f.write x = f.affixed false "NaN".toList := by
  have scaled : (if f.style = .percent then x * 100.0 else x).isNaN = true := by
    split
    · exact hundredfold
    · exact plain
  rw [write, if_pos scaled]

end NumberFormat

/-! ## Display formats -/

namespace DisplayFormat

/-- What is shown for not-a-number. -/
def ofNaN : DisplayFormat → String
  | .number lead format => lead ++ String.ofList (format.affixed false "NaN".toList)
  | .hours format => String.ofList (format.affixed false "NaN".toList)
  | .time => "NaN:NaN:NaN"
  | .hoursMinutes => "NaN:NaN"
  | .minutesSeconds => "NaN:NaN"
  | .text => failureMark

theorem writeNumber_nan (f : DisplayFormat) : f.writeNumber nan = f.ofNaN := by
  cases f with
  | number lead format =>
      rw [writeNumber, NumberFormat.format,
        format.write_of_isNaN (by decide +kernel) (by decide +kernel), ofNaN]
  | hours format =>
      rw [writeNumber, NumberFormat.format,
        format.write_of_isNaN (by decide +kernel) (by decide +kernel), ofNaN]
  | time => decide +kernel
  | hoursMinutes => decide +kernel
  | minutesSeconds => decide +kernel
  | text => rfl

/-- No number is shown as the mark of failure, where numbers are shown. -/
theorem writeNumber_ne_failureMark {f : DisplayFormat} (numbers : f ≠ .text) (x : Float) :
    f.writeNumber x ≠ failureMark := by
  obtain ⟨c, member, other⟩ : ∃ c ∈ (f.writeNumber x).toList, c ≠ '?' := by
    have clock {before after : List Char} :
        ∃ c ∈ (String.ofList (before ++ ':' :: after)).toList, c ≠ '?' :=
      ⟨':', by simp, by decide⟩
    cases f with
    | number lead format =>
        obtain ⟨c, member, other⟩ := format.exists_mem_write x
        exact ⟨c, by simp [writeNumber, NumberFormat.format, member], other⟩
    | hours format =>
        obtain ⟨c, member, other⟩ := format.exists_mem_write (floor (x / 3600.0))
        exact ⟨c, by simp [writeNumber, NumberFormat.format, member], other⟩
    | time => exact clock
    | hoursMinutes => exact clock
    | minutesSeconds => exact clock
    | text => exact absurd rfl numbers
  intro same
  have marks : failureMark.toList = List.replicate 3 '?' := rfl
  rw [same, marks] at member
  exact other (List.eq_of_mem_replicate member)

/-- A declared format is one for numbers. -/
theorem ofDeclared_ne_text (f : DeclaredFormat) (compact : Bool) (locale : Locale) :
    ofDeclared f compact locale ≠ .text := by
  unfold ofDeclared
  dsimp only
  repeat' split
  all_goals exact DisplayFormat.noConfusion

/-- Not-a-number is shown alike in both formats of a column. -/
theorem ofNaN_ofDeclared (f : DeclaredFormat) (compact : Bool) (locale : Locale) :
    (ofDeclared f compact locale).ofNaN = (ofDeclared f false locale).ofNaN := by
  unfold ofDeclared
  dsimp only
  repeat' split
  all_goals rfl

end DisplayFormat

/-! ## Cells of a message -/

namespace Table

section

variable {i : Nat} {d : MessageColumn} {key : ColumnKey} {f : DeclaredFormat}
variable (m : Message) (locale : Locale)

/-- **How unreadable cells show.**  A column that is declared as one of numbers and declares a
format shows the mark of failure for missing cells and for no others, short or long: the format has
the mark for texts, but it gets to see numbers only.  A text that is not written as a number shows
as not-a-number does in the format, and a blank one as zero does. -/
theorem unreadable_cells (distinct : m.labels.Nodup) (declares : m.columns[i]? = some d)
    (number : d.kind = .number) (formatted : d.format = some f)
    (addressed : key = .name d.label ∨ key = .position i) (row : Nat) (compact : Bool) :
    let shown := (ofMessage m locale).display row key compact
    let cell := m.rows[row]?.bind fun cells => cells[i]?.join
    (shown = failureMark ↔ cell = none) ∧
      (∀ s, (DisplayFormat.ofDeclared f compact locale).write (.text s) = failureMark) ∧
      (∀ s, cell = some (.text s) → ¬ IsCellNumber s.toList →
        shown = (DisplayFormat.ofDeclared f false locale).ofNaN) ∧
      (∀ s, cell = some (.text s) → Text.trim s.toList = [] →
        shown = (DisplayFormat.ofDeclared f compact locale).writeNumber 0.0) := by
  intro shown cell
  have numbers := DisplayFormat.ofDeclared_ne_text f compact locale
  have format : DisplayFormat.ofColumn d compact locale = .ofDeclared f compact locale := by
    rw [DisplayFormat.ofColumn, formatted, number]
  have cast : shown = cell.elim failureMark fun cell =>
      (DisplayFormat.ofDeclared f compact locale).writeNumber cell.toNumber := by
    rw [← format]
    exact (display_ofMessage m locale distinct declares addressed row compact).trans
      (by rw [number]; rfl)
  refine ⟨?_, fun s => if_neg numbers, fun s text other => ?_, fun s text blank => ?_⟩
  · rw [cast]
    cases cell with
    | none => exact iff_of_true rfl rfl
    | some cell =>
        exact iff_of_false (DisplayFormat.writeNumber_ne_failureMark numbers _)
          (Option.some_ne_none cell)
  · rw [cast, text, Option.elim_some, Cell.toNumber, readCell_of_not_isCellNumber other,
      DisplayFormat.writeNumber_nan, DisplayFormat.ofNaN_ofDeclared]
  · rw [cast, text, Option.elim_some, Cell.toNumber, readCell, blank]
    rfl

end

/-- A message with a text in a column of numbers. -/
def misreadMessage : Message :=
  { version := "1", resultName := "sales", rowCount := 1, availableRowCount := 1
    rows := [[some (.text "abc")]]
    columns := [⟨"bi1", "A", .number, none, none, some ⟨"COMMA", 12, 2, "COMMA12.2"⟩⟩] }

/-- The theorem at this message. -/
theorem unreadable_cells_abc :
    misreadMessage.labels.Nodup ∧ ¬ IsCellNumber "abc".toList ∧
      (ofMessage misreadMessage .english).display 0 (.name "A") false = "NaN" ∧
      (ofMessage misreadMessage .english).display 0 (.position 0) true = "NaN" ∧
      (ofMessage misreadMessage .english).display 1 (.name "A") false = failureMark := by
  have distinct : misreadMessage.labels.Nodup := by decide
  have other : ¬ IsCellNumber "abc".toList := by decide
  have shown (key : ColumnKey) (addressed : key = .name "A" ∨ key = .position 0) :=
    unreadable_cells misreadMessage .english distinct (i := 0) rfl rfl rfl addressed
  exact ⟨distinct, other, (shown _ (.inl rfl) 0 false).2.2.1 _ rfl other,
    (shown _ (.inr rfl) 0 true).2.2.1 _ rfl other, (shown _ (.inl rfl) 1 false).1.2 rfl⟩

/-- A text in a column of numbers does not show as the mark of failure. -/
theorem not_unreadable_cells :
    ¬ ∀ (m : Message) (locale : Locale), m.labels.Nodup → ∀ (i : Nat) d f, m.columns[i]? = some d →
      d.kind = .number → d.format = some f → ∀ row compact s,
        (m.rows[row]?.bind fun cells => cells[i]?.join) = some (.text s) →
        ¬ IsCellNumber s.toList →
        (ofMessage m locale).display row (.name d.label) compact = failureMark := by
  intro marked
  have shown := marked misreadMessage .english (by decide) 0 _ _ rfl rfl rfl 0 false "abc" rfl
    (by decide)
  exact absurd shown (by decide +kernel)

end Table

end Infographic
