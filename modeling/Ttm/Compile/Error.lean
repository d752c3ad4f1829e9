import Ttm.Postfix.Error
import Ttm.Program.Error
import Ttm.Source.Error
import Ttm.SourceFile

/-!
Why a compilation fails, and the short form in which a failure is handed on.
-/

namespace Ttm.Compile

inductive Error
  | file (cause : SourceFile.Error)
  | source (cause : Source.Error)
  | program (cause : Program.Error)
  | postfixOrder (cause : Postfix.Error)
  | internal (message : String)
  deriving DecidableEq, Repr

/-- A code and the place it belongs to. -/
structure Diagnostic where
  code : Code
  line : Option Nat
  column : Option Nat
  deriving DecidableEq, Repr

def Diagnostic.text (d : Diagnostic) : String :=
  match d.line, d.column with
  | some line, some column => s!"error {d.code.number} at line {line}, column {column}"
  | some line, none => s!"error {d.code.number} at line {line}"
  | none, _ => s!"error {d.code.number}"

namespace Error

/-- The stage that failed. -/
def name : Error → String
  | file _ => "FileProcessing"
  | source _ => "LexicalAnalysis"
  | program _ => "Scanning"
  | postfixOrder _ => "Conversion"
  | internal _ => "Pipeline"

/-- The name of the cause. -/
def causeName : Error → String
  | file cause => cause.name
  | source cause => cause.name
  | program cause => cause.name
  | postfixOrder cause => cause.name
  | internal _ => ""

def message : Error → String
  | file cause => s!"File processing failed: {cause.message}"
  | source cause => s!"Lexical analysis failed: {cause.message}"
  | program cause => s!"Scanning failed: {cause.message}"
  | postfixOrder cause => s!"Postfix conversion failed: {cause.message}"
  | internal message => s!"Pipeline error: {message}"

def code : Error → Code
  | file cause => cause.code
  | source cause => cause.code
  | program cause => cause.code
  | postfixOrder cause => cause.code
  | internal _ => .internalError

def line : Error → Option Nat
  | source cause => cause.line
  | program cause => cause.line
  | postfixOrder cause => cause.line
  | file _ | internal _ => none

def column : Error → Option Nat
  | source cause => cause.column
  | _ => none

def diagnostic (e : Error) : Diagnostic := ⟨e.code, e.line, e.column⟩

end Error
end Ttm.Compile
