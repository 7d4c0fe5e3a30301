/-
# Infographic.Directive.Basic -- directives

A directive is what the first tag of a text says: a name, options, or both.  A text
without a tag is a name as it stands, so reading a name again changes nothing.
-/
import Infographic.Directive.Escape
import Infographic.Directive.OptionList
import Infographic.Directive.Tag

namespace Infographic

set_option autoImplicit false

/-- A name and options by key. -/
structure Directive where
  name : String
  options : Directive.Options

namespace Directive

/-- An option list that cannot be read. -/
structure Fault where
  list : String
  cause : OptionFault

def Fault.message (f : Fault) : String :=
  "Directive error: Invalid option list '" ++ f.list ++ "': " ++ f.cause.message

/-- Read the option list of a directive. -/
def readOptions (list : List Char) : Except Fault Options :=
  match Options.ofText list with
  | .ok opts => .ok opts
  | .error cause => .error ⟨String.ofList list, cause⟩

/-- Read the body of a tag: a name and an option list around a bar, an option list
alone if there is a colon, or a name alone. -/
def ofBody (body : List Char) : Except Fault Directive :=
  match Text.cutWhere (· == '|') body with
  | some (name, list) => do
      let opts ← readOptions list
      return ⟨String.ofList (Text.trimWhere (fun c => c == ' ' || c == '-') name), opts⟩
  | none =>
      if body.contains ':' then do
        let opts ← readOptions body
        return ⟨"", opts⟩
      else .ok ⟨String.ofList (Text.trim body), []⟩

/-- Read the first tag of a text. -/
def ofText (text : String) : Except Fault Directive :=
  let cs := decode text.toList
  match firstTag? cs with
  | some body => ofBody body
  | none => .ok ⟨String.ofList cs, []⟩

/-- The directive of a text, if it has a tag that can be read. -/
def ofTagged? (text : String) : Option Directive :=
  if hasTag text.toList then (ofText text).toOption else none

end Directive

end Infographic
