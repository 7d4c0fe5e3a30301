/-
# Infographic.Session.Settings -- what a host can set

Four texts, each with a default: where the drawing is, which repairs to make on it, which
families of bindings to make, and the locale of numbers.  They come as parameters or as a
JSON record, and are written as one.
-/
import Infographic.Binding.Registry
import Infographic.Json.Value
import Infographic.Locale.Basic

namespace Infographic

set_option autoImplicit false

/-- The settings of a host. -/
structure Settings where
  /-- Where the drawing is; fetching it is up to the host. -/
  svg : String
  /-- Names of repairs. -/
  clean : String
  /-- Names of families. -/
  dynamics : String
  locale : String
  deriving Repr, DecidableEq

namespace Settings

def default : Settings := ⟨"test.svg", "all", "all", "en-US"⟩

/-- Set one parameter; unknown ones set nothing. -/
def set (s : Settings) (parameter : String × String) : Settings :=
  match parameter with
  | ("svg", value) => { s with svg := value }
  | ("clean", value) => { s with clean := value }
  | ("dynamics", value) => { s with dynamics := value }
  | ("locale", value) => { s with locale := value }
  | _ => s

/-- The defaults with some parameters set. -/
def ofParameters (parameters : List (String × String)) : Settings :=
  parameters.foldl set default

/-- The names of repairs, one by one. -/
def repairs (s : Settings) : List String :=
  (((Text.splitAt ',' s.clean.toList).map Text.trim).filter fun name => !name.isEmpty).map
    String.ofList

def families (s : Settings) : Families := .ofText s.dynamics

def numberLocale (s : Settings) : Locale := .ofTag s.locale

/-! ## As a record -/

/-- The names of the fields, in order. -/
def fieldNames : List String := ["svg", "clean", "dynamics", "locale"]

/-- Read settings; a field that is left out has its default. -/
def ofJson? (text : String) : Option Settings := do
  match ← (← Json.read text).fields? fieldNames with
  | [svg, clean, dynamics, locale] =>
      return {
        svg := ← Json.orElse default.svg Json.Value.text? svg
        clean := ← Json.orElse default.clean Json.Value.text? clean
        dynamics := ← Json.orElse default.dynamics Json.Value.text? dynamics
        locale := ← Json.orElse default.locale Json.Value.text? locale }
  | _ => none

/-- A field as it is written. -/
def writeField (name value : String) : List Char :=
  Json.quote name.toList ++ ':' :: Json.quote value.toList

/-- Write settings as a record. -/
def toJson (s : Settings) : String :=
  let fields := fieldNames.zipWith writeField [s.svg, s.clean, s.dynamics, s.locale]
  String.ofList ('\x7b' :: (Text.join [','] fields ++ ['\x7d']))

end Settings

end Infographic
