import Ttm.Limits
import Ttm.Log.Session

/-!
How a run begins to log: the logger that its settings ask for, and a summary of both.
-/

namespace Ttm.Log

open Files (Fault Volume)

/-- What a run has chosen about its logging. Both are chosen once. -/
structure Startup where
  settings : Option LogSettings := none
  logger : Option Logger := none

namespace Startup

inductive Refusal
  | settingsChosen
  | loggerChosen
  deriving DecidableEq, Repr

def Refusal.text : Refusal → String
  | settingsChosen => "Runtime preferences already initialized"
  | loggerChosen => "Global logger already initialized"

def chooseSettings (s : LogSettings) (c : Startup) : Except Refusal Startup :=
  match c.settings with
  | none => .ok { c with settings := some s }
  | some _ => .error .settingsChosen

def chooseLogger (l : Logger) (c : Startup) : Except Refusal Startup :=
  match c.logger with
  | none => .ok { c with logger := some l }
  | some _ => .error .loggerChosen

end Startup

namespace Logger

/-- Logs to the console. Without a log file this is so even where the settings turn the console
off. -/
def toConsole (s : LogSettings) : Logger := ⟨s.minLevel, [.console s.minLevel s.structured]⟩

/-- Logs to a file as well. The directory of the file is made where it is missing, and the file has
to be one that can be written. -/
def toFile (path : String) (s : LogSettings) (v : Volume) : Except Fault (Logger × Volume) := do
  let v ← v.makeParent path
  let v ← v.append path .empty
  let console := if s.console then [Outlet.console s.minLevel s.structured] else []
  return (⟨s.minLevel, console ++ [.file path s.minLevel s.structured]⟩, v)

end Logger

end Ttm.Log

namespace Ttm

/-- The limits and settings of logging, line by line. -/
def LogSettings.summary (limits : Limits) (s : LogSettings) : String :=
  "Logging Configuration:\n=== Limits (Compile-time) ===\n"
    ++ s!"- Log buffer size: {limits.logBufferSize}\n"
    ++ s!"- Max events per file: {limits.maxLogEventsPerFile}\n"
    ++ s!"- Max collected errors: {limits.maxErrorCollection}\n"
    ++ "=== User Preferences (Runtime) ===\n"
    ++ s!"- Min log level: {s.minLevel.title}\n"
    ++ s!"- Structured logging: {Log.Event.yesNo s.structured}\n"
    ++ s!"- Console logging: {Log.Event.yesNo s.console}\n"
    ++ s!"- Cargo-style output: {Log.Event.yesNo s.reportDiagnostics}\n"
    ++ s!"- Include file context: {Log.Event.yesNo s.fileContext}"

end Ttm
