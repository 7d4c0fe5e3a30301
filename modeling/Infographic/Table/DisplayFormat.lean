/-
# Infographic.Table.DisplayFormat -- display formats of cells

A display format turns a cell into text: numbers with a number format, durations in
seconds as hours, minutes and seconds, texts as they are.  A format that does not fit
the cell shows a mark instead.
-/
import Infographic.Locale.NumberFormat
import Infographic.Table.Cell

namespace Infographic

set_option autoImplicit false

open Infographic.Number

/-- What is shown for a cell that is missing or does not fit its format. -/
def failureMark : String := "???"

/-- How cells are shown. -/
inductive DisplayFormat where
  /-- A number, behind a literal lead. -/
  | number (lead : String) (format : NumberFormat)
  /-- The whole hours of a duration. -/
  | hours (format : NumberFormat)
  /-- A duration as `hh:mm:ss`. -/
  | time
  /-- A duration as `hh:mm`. -/
  | hoursMinutes
  /-- A duration as `mm:ss`. -/
  | minutesSeconds
  /-- Texts as they are. -/
  | text
  deriving Repr, DecidableEq

namespace DisplayFormat

/-- Round to the nearest integer, a half toward positive infinity. -/
def roundSeconds (x : Float) : Float :=
  floor (x + 0.5)

/-- At least two characters, filled up with zeros in front. -/
def pad2 (x : Float) : List Char :=
  let cs := Number.plain x
  List.replicate (2 - cs.length) '0' ++ cs

/-- A duration in seconds as hours, minutes and seconds. -/
def clock (seconds : Float) : Float × Float × Float :=
  let whole := roundSeconds seconds
  let rest := remainder whole 3600
  (floor (whole / 3600.0), floor (rest / 60.0), ceil (remainder rest 60))

def writeTime (x : Float) : List Char :=
  let (h, m, s) := clock x
  pad2 h ++ ':' :: (pad2 m ++ ':' :: pad2 s)

def writeHoursMinutes (x : Float) : List Char :=
  let (h, m, _) := clock x
  pad2 h ++ ':' :: pad2 m

def writeMinutesSeconds (x : Float) : List Char :=
  let whole := roundSeconds x
  pad2 (floor (whole / 60.0)) ++ ':' :: pad2 (ceil (remainder (remainder whole 3600) 60))

/-- Show a number. -/
def writeNumber (x : Float) : DisplayFormat → String
  | .number lead format => lead ++ format.format x
  | .hours format => format.format (floor (x / 3600.0))
  | .time => String.ofList (writeTime x)
  | .hoursMinutes => String.ofList (writeHoursMinutes x)
  | .minutesSeconds => String.ofList (writeMinutesSeconds x)
  | .text => failureMark

/-- Show a cell. -/
def write (f : DisplayFormat) : Cell → String
  | .number x => f.writeNumber x
  | .text s => if f = .text then s else failureMark

end DisplayFormat

end Infographic
