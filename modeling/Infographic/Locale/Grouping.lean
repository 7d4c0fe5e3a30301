/-
# Infographic.Locale.Grouping -- group separators

The whole digits of a number are grouped from the right.  A run whose value reaches
`2 ^ 128` is cut: its last 36 digits are set in threes, whatever the locale's style,
and what stands before them is grouped in turn.
-/
import Infographic.Locale.Basic
import Infographic.Number.Literal

namespace Infographic.Grouping

set_option autoImplicit false

/-- The sizes of the last group and of the groups before it; `none` when digits are
not grouped. -/
def sizes? : Grouping → Option (Nat × Nat)
  | .threes => some (3, 3)
  | .threeThenTwos => some (3, 2)
  | .none => Option.none

/-- Put `sep` into a run of digits written backwards: after `left` more digits, then
after every `size` digits, as long as digits follow. -/
def separateReversed (sep : List Char) (size : Nat) : Nat → List Char → List Char
  | _, [] => []
  | 0, c :: rest => sep.reverse ++ c :: separateReversed sep size (size - 1) rest
  | left + 1, c :: rest => c :: separateReversed sep size left rest

/-- Separate a run of digits into a last group of `last` digits and groups of `size`
digits before it. -/
def separate (sep : List Char) (last size : Nat) (ds : List Char) : List Char :=
  (separateReversed sep size last ds.reverse).reverse

/-- Group a run of digits in a given style. -/
def apply (style : Grouping) (sep ds : List Char) : List Char :=
  match style.sizes? with
  | some (last, size) => separate sep last size ds
  | Option.none => ds

/-- Group a run of digits by the conventions of a locale, cutting off 36 digits at a
time while the run stands for `2 ^ 128` or more. -/
def groupFrom (numbers : NumberConvention) : Nat → List Char → List Char
  | 0, ds => ds
  | fuel + 1, ds =>
      let sep := numbers.separator.toList
      if Number.digitsValue ds < Nat.pow 2 128 then numbers.grouping.apply sep ds
      else
        let head := ds.take (ds.length - 36)
        let tail := ds.drop (ds.length - 36)
        groupFrom numbers fuel head ++ sep ++ separate sep 3 3 tail

/-- Group a run of digits by the conventions of a locale. -/
def group (numbers : NumberConvention) (ds : List Char) : List Char :=
  groupFrom numbers (ds.length + 1) ds

end Infographic.Grouping
