import Ttm.Files.Volume
import Ttm.Settings.Table
import Ttm.Text.Quoted
import Ttm.Toml.Document

/-!
Settings files, and why one cannot be used.
-/

namespace Ttm.Settings

inductive Error
  | unreadable (path reason : String)
  | malformed (path : String)
  deriving DecidableEq, Repr

namespace Error

def message : Error → String
  | unreadable path reason => s!"Failed to read configuration file '{path}': {reason}"
  | malformed path => s!"Invalid TOML in configuration file '{path}'"

/-- The error as a value with its fields, as a run that ends with it shows it. -/
def shown (e : Error) : String :=
  let fields (name path text : String) : String :=
    name ++ " \x7b path: " ++ Text.Quoted.encode path ++ ", message: " ++ Text.Quoted.encode text
      ++ " \x7d"
  match e with
  | unreadable path reason => fields "Io" path reason
  | malformed path => fields "Parse" path "invalid TOML"

end Error

/-- The settings that a text asks for, on top of given ones. -/
def ofText? (text : String) (start : Settings) : Option Settings := do
  ofTable? (← Toml.parse? text) start

/-- The settings that a file asks for, on top of given ones. -/
def load (path : String) (start : Settings) (v : Files.Volume) : Except Error Settings :=
  match v.read path with
  | .error e => .error (.unreadable path e.text)
  | .ok content =>
    match String.fromUTF8? content with
    | none => .error (.unreadable path "stream did not contain valid UTF-8")
    | some text =>
      match ofText? text start with
      | some s => .ok s
      | none => .error (.malformed path)

end Ttm.Settings
