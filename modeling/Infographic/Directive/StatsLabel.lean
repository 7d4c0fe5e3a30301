/-
# Infographic.Directive.StatsLabel -- statistics in column labels

A label may carry statistics in a tag.  A range, as in `Expenses {{0..300}}`, sets the
bounds of the column named by the rest of the label.  One of the words `min`, `max`,
`sum` and `avg`, as in `Revenue {{max}}`, makes the column a carrier: that statistic of
the carrier becomes the one of the column named by the rest, and the carrier goes.
-/
import Infographic.Directive.Basic
import Infographic.Directive.Range
import Infographic.Table.Basic

namespace Infographic

set_option autoImplicit false

namespace Directive

/-- What a carrier passes on, by the word in its tag.  Letter case does not matter. -/
def carried? (word : String) (stats : Option Stats) : Option StatsUpdate :=
  let word := String.ofList (word.toList.map Char.toLower)
  if word = "min" then some { StatsUpdate.none with min := stats.map Stats.min }
  else if word = "max" then some { StatsUpdate.none with max := stats.map Stats.max }
  else if word = "sum" then some { StatsUpdate.none with sum := stats.map Stats.sum }
  else if word = "avg" then some { StatsUpdate.none with avg := stats.map Stats.avg }
  else none

/-- The bounds a directive name pins, if it is a pair of finite numbers. -/
def pinned? (name : String) : Option (Float × Float) :=
  match Range.ofText name.toList with
  | .pair low high => if low.isFinite && high.isFinite then some (low, high) else none
  | .single _ => none

end Directive

namespace Table

/-- Set the bounds of the column a label names without its tags.  If there is no such
column the label's own column takes that name; a label of tags only keeps its name. -/
def pin (t : Table) (label base : String) (low high : Float) : Table :=
  let update := StatsUpdate.bounds low high
  if base.isEmpty then t.overrideStats (.name label) update
  else if t.hasColumn base then (t.overrideStats (.name base) update).drop (.name label)
  else (t.rename (.name label) base).overrideStats (.name base) update

/-- Pass a statistic of the column under a label on to the column the label names
without its tags, and drop the carrier. -/
def passOn (t : Table) (label base word : String) : Table :=
  if base = label ∨ !t.hasColumn base then t
  else
    match Directive.carried? word (t.stats? (.name label)) with
    | some update => (t.overrideStats (.name base) update).drop (.name label)
    | none => t

/-- Act on the tag in one label. -/
def readLabel (t : Table) (label : String) : Table :=
  if !Directive.hasTag label.toList || !t.hasColumn label then t
  else
    match Directive.ofText label with
    | .error _ => t
    | .ok directive =>
        let base := String.ofList (Directive.stripTags label.toList)
        match Directive.pinned? directive.name with
        | some (low, high) => t.pin label base low high
        | none => t.passOn label base directive.name

/-- Act on the tags in all labels, in order. -/
def readLabels (t : Table) : Table :=
  t.names.foldl readLabel t

end Table

end Infographic
