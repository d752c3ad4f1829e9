import Ttm.Limits
import Ttm.Log.Event

/-!
What the compiler does and how far its bounds reach, as text.
-/

namespace Ttm.Compile

structure Overview where
  stages : List String := ["read", "preprocess", "split", "scan", "convert"]
  limits : Limits
  extensions : List String := ["ttm"]
  reportDiagnostics : Bool
  deriving DecidableEq, Repr

namespace Overview
variable (o : Overview)

def report : String :=
  "TTM Front End Pipeline:\n"
    ++ s!"- Pipeline Stages: {o.stages.length} (" ++ " -> ".intercalate o.stages ++ ")\n"
    ++ s!"- Max File Size: {o.limits.maxFileSize / 1024} KB\n"
    ++ s!"- Symbol Table Capacity: {o.limits.maxSymbols}\n"
    ++ s!"- Lexeme Table Capacity: {o.limits.maxLexemes}\n"
    ++ "- Supported Extensions: " ++ ", ".intercalate o.extensions ++ "\n"
    ++ s!"- Cargo-style Output: {Log.Event.yesNo o.reportDiagnostics}"

def summary : String :=
  s!"{o.stages.length}-stage TTM front end for ." ++ ", .".intercalate o.extensions ++ " sources"

end Overview
end Ttm.Compile
