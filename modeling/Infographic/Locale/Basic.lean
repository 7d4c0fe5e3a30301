/-
# Infographic.Locale.Basic -- locales

A locale is chosen by a language tag such as `de-CH`.  Separators and grouping come
from the table of number conventions, for the whole tag if it is listed and else for
its language.  Currency, percent and abbreviation habits go by language; a language
without habits of its own has the English ones.
-/
import Infographic.Locale.Numbers

namespace Infographic

set_option autoImplicit false

/-- What stands behind an abbreviated number: for thousands, millions, billions and
trillions.  An empty unit means that the magnitude is not abbreviated. -/
structure CompactUnits where
  thousand : String
  million : String
  billion : String
  trillion : String
  deriving Repr, DecidableEq

namespace CompactUnits

def toList (u : CompactUnits) : List String :=
  [u.thousand, u.million, u.billion, u.trillion]

/-- The unit for a power of a thousand; a number below a thousand has none. -/
def unit (u : CompactUnits) : Nat → String
  | 0 => ""
  | 1 => u.thousand
  | 2 => u.million
  | 3 => u.billion
  | _ => u.trillion

end CompactUnits

/-- Separators and affixes of written numbers. -/
structure Locale where
  numbers : NumberConvention
  /-- The currency symbol follows the number. -/
  currencyAfter : Bool
  percentSign : String
  units : CompactUnits
  deriving Repr, DecidableEq

namespace Locale

def english : Locale :=
  { numbers := ⟨"en", ".", ",", .threes⟩
    currencyAfter := false
    percentSign := "%"
    units := ⟨"K", "M", "B", "T"⟩ }

def german : Locale :=
  { numbers := ⟨"de", ",", ".", .threes⟩
    currencyAfter := true
    percentSign := "\u00a0%"
    units := ⟨"", "\u00a0Mio.", "\u00a0Mrd.", "\u00a0Bio."⟩ }

def french : Locale :=
  { numbers := ⟨"fr", ",", "\u202f", .threes⟩
    currencyAfter := true
    percentSign := "\u00a0%"
    units := ⟨"\u00a0k", "\u00a0M", "\u00a0Md", "\u00a0Bn"⟩ }

/-- The locale whose habits a language follows. -/
def ofLanguage (language : String) : Locale :=
  if language = "de" then german else if language = "fr" then french else english

/-- The language of a tag, in lower case. -/
def languageOf (tag : String) : String :=
  let cs := tag.toList.takeWhile fun c => c != '-' && c != '_'
  String.ofList (cs.map Char.toLower)

/-- The locale of a language tag. -/
def ofTag (tag : String) : Locale :=
  let language := languageOf tag
  let habits := ofLanguage language
  let name := String.ofList (tag.toList.map fun c => if c = '_' then '-' else c)
  match NumberConvention.find? name with
  | some numbers => { habits with numbers }
  | none =>
      match NumberConvention.find? language with
      | some numbers => { habits with numbers }
      | none => habits

/-- The symbol of a currency; a currency without one is written by its code. -/
def currencySymbol (code : String) : String :=
  if code = "USD" then "$"
  else if code = "EUR" then "€"
  else if code = "GBP" then "£"
  else if code = "JPY" then "¥"
  else if code = "CNY" then "CN¥"
  else code

end Locale

end Infographic
