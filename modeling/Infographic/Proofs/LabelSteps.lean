/-
# Infographic.Proofs.LabelSteps -- what one label does to a table

A label with a tag names a column by what is left of it without its tags, its base.  A range of
finite numbers pins the bounds of that column; one of the words of a carrier passes the carrier's
own statistic on.  `Table.LabelStep` lists what reading a label can do: nothing, an override of the
label's own column, an override of the column under the base after which the label's column goes,
or a new name, the base, for the label's column.
-/
import Infographic.Directive.StatsLabel
import Infographic.Proofs.TextPieces

namespace Infographic

set_option autoImplicit false

namespace Directive

/-- What is left of a label without its tags. -/
def baseOf (label : String) : String :=
  String.ofList (stripTags label.toList)

/-- The first tag of a label is a range of finite numbers. -/
def Pins (label : String) (low high : Float) : Prop :=
  ∃ directive, ofText label = .ok directive ∧ pinned? directive.name = some (low, high)

/-- The first tag of a label is the word for a statistic; from a carrier with some statistics it
makes an update of that one. -/
def PassesOn (label : String) (carrier : Option Stats) (u : StatsUpdate) : Prop :=
  ∃ directive, ofText label = .ok directive ∧ pinned? directive.name = none ∧
    carried? directive.name carrier = some u

/-! ## A base is shorter than its label -/

theorem mem_consPlain {c : Char} {body : List Char} {ps : List Piece} (member : .tag body ∈ ps) :
    .tag body ∈ Piece.consPlain c ps := by
  cases ps with
  | nil => simp at member
  | cons p rest =>
      cases p with
      | plain cs => simpa [Piece.consPlain] using member
      | tag other => exact List.mem_cons_of_mem _ member

/-- A text with a tag has one among its pieces. -/
theorem exists_mem_pieces {cs : List Char} (tagged : hasTag cs = true) :
    ∃ body, .tag body ∈ pieces cs := by
  induction cs with
  | nil => simp [hasTag, firstTag?] at tagged
  | cons c rest ih =>
      rw [pieces, piecesFrom]
      cases here : tagBody? (c :: rest) with
      | some body => exact ⟨body, List.mem_cons_self⟩
      | none =>
          have later : hasTag rest = true := by simpa [hasTag, firstTag?, here] using tagged
          obtain ⟨body, member⟩ := ih later
          exact ⟨body, mem_consPlain member⟩

/-- What of a piece is left without tags. -/
def Piece.plainText : Piece → List Char
  | .plain cs => cs
  | .tag _ => []

theorem Piece.length_plainText_le (ps : List Piece) :
    (ps.flatMap plainText).length ≤ (ps.flatMap text).length := by
  induction ps with
  | nil => exact Nat.le_refl 0
  | cons p rest ih =>
      have first : p.plainText.length ≤ p.text.length := by
        cases p with
        | plain cs => exact Nat.le_refl _
        | tag body => exact Nat.zero_le _
      simpa using Nat.add_le_add first ih

theorem replaceTags_nil (cs : List Char) :
    replaceTags (fun _ => []) cs = (pieces cs).flatMap Piece.plainText := by
  unfold replaceTags
  congr 1

theorem length_stripTags_lt {cs : List Char} (tagged : hasTag cs = true) :
    (stripTags cs).length < cs.length := by
  obtain ⟨body, member⟩ := exists_mem_pieces tagged
  obtain ⟨before, after, cut⟩ := List.append_of_mem member
  have trimmed : (stripTags cs).length ≤ (replaceTags (fun _ => []) cs).length :=
    (Text.trimWhere_sublist _ _).length_le
  have whole := congrArg List.length (concat_pieces cs)
  rw [replaceTags_nil, cut] at trimmed
  rw [cut] at whole
  have first := Piece.length_plainText_le before
  have last := Piece.length_plainText_le after
  -- the tag itself counts in the text and not in the rest
  simp only [List.flatMap_append, List.flatMap_cons, List.length_append, Piece.plainText,
    Piece.text, wholeTag, openBraces, List.length_cons, List.length_nil] at trimmed whole
  omega

/-- A label with a tag is not its own base. -/
theorem baseOf_ne {label : String} (tagged : hasTag label.toList = true) :
    baseOf label ≠ label := by
  intro same
  have shorter := length_stripTags_lt tagged
  rw [← String.toList_ofList (l := stripTags label.toList), ← baseOf, same] at shorter
  exact Nat.lt_irrefl _ shorter

end Directive

namespace Table

open Directive (hasTag baseOf baseOf_ne Pins PassesOn)

variable {t : Table} {label : String}

/-- What reading a label can do to a table. -/
inductive LabelStep (t : Table) (label : String) : Table → Prop
  | idle : LabelStep t label t
  /-- A range without a base: the bounds are those of the column itself. -/
  | own {low high : Float} (tagged : hasTag label.toList = true) (pins : Pins label low high)
      (blank : (baseOf label).isEmpty = true) :
      LabelStep t label (t.overrideStats (.name label) (.bounds low high))
  /-- The column under the base is there: it gets the statistics, and the label's column goes. -/
  | folded {u : StatsUpdate} (tagged : hasTag label.toList = true)
      (known : t.hasColumn (baseOf label) = true)
      (source : (∃ low high, Pins label low high ∧ u = .bounds low high) ∨
        PassesOn label (t.stats? (.name label)) u) :
      LabelStep t label ((t.overrideStats (.name (baseOf label)) u).drop (.name label))
  /-- No column has the base for its name: the label's column takes it. -/
  | renamed {low high : Float} (tagged : hasTag label.toList = true) (pins : Pins label low high)
      (free : t.hasColumn (baseOf label) = false) :
      LabelStep t label
        ((t.rename (.name label) (baseOf label)).overrideStats (.name (baseOf label))
          (.bounds low high))

/-- **What reading a label does.** -/
theorem labelStep_readLabel (t : Table) (label : String) :
    LabelStep t label (t.readLabel label) := by
  unfold readLabel
  split
  · exact .idle
  · rename_i reads
    obtain ⟨tagged, here⟩ : hasTag label.toList = true ∧ t.hasColumn label = true := by
      simpa using reads
    split
    · exact .idle
    · rename_i directive read
      dsimp only
      split
      · rename_i low high pinned
        have pins : Pins label low high := ⟨directive, read, pinned⟩
        unfold pin
        dsimp only
        split
        · rename_i blank
          exact .own tagged pins blank
        · split
          · rename_i known
            exact .folded tagged known (.inl ⟨low, high, pins, rfl⟩)
          · rename_i free
            exact .renamed tagged pins (Bool.eq_false_iff.2 free)
      · rename_i unpinned
        unfold passOn
        split
        · exact .idle
        · rename_i apart
          have known : t.hasColumn (baseOf label) = true := by
            simpa [baseOf] using (not_or.1 apart).2
          split
          · rename_i u carried
            exact .folded tagged known (.inr ⟨directive, read, unpinned, carried⟩)
          · exact .idle

end Table

end Infographic
