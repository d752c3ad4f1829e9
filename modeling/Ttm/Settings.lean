import Ttm.Log.Event

/-!
What a user may choose about a run, and the choices made by environment variables. None of them
changes what a program compiles to.
-/

namespace Ttm

structure FileSettings where
  requireTtmExtension : Bool := false
  performanceLogging : Bool := true
  deriving DecidableEq, Repr

structure LexicalSettings where
  detailedMetrics : Bool := true
  traceTokens : Bool := false
  deriving DecidableEq, Repr

structure ScanSettings where
  logSymbols : Bool := false
  logScopes : Bool := false
  deriving DecidableEq, Repr

structure ConversionSettings where
  logStatements : Bool := false
  deriving DecidableEq, Repr

structure LogSettings where
  structured : Bool := false
  console : Bool := true
  minLevel : Log.Level := .info
  reportDiagnostics : Bool := true
  fileContext : Bool := true
  deriving DecidableEq, Repr

structure Settings where
  files : FileSettings := {}
  lexical : LexicalSettings := {}
  scan : ScanSettings := {}
  conversion : ConversionSettings := {}
  log : LogSettings := {}
  deriving DecidableEq, Repr

namespace Log.Level

def all : List Level := [error, warning, info, debug]

/-- The form in settings files. -/
def setting : Level → String
  | error => "error"
  | warning => "warning"
  | info => "info"
  | debug => "debug"

/-- The form in summaries. -/
def title : Level → String
  | error => "Error"
  | warning => "Warning"
  | info => "Info"
  | debug => "Debug"

def ofSetting? (s : String) : Option Level := all.find? (·.setting == s)

/-- The form in environment variables: a name in any case, or a rank. -/
def ofVariable? (s : String) : Option Level :=
  match s.toLower with
  | "error" | "0" => some error
  | "warning" | "warn" | "1" => some warning
  | "info" | "2" => some info
  | "debug" | "3" => some debug
  | _ => none

end Log.Level

namespace Settings

/-- A variable that is neither `true` nor `false` is as good as unset. -/
def flag? : String → Option Bool
  | "true" => some true
  | "false" => some false
  | _ => none

/-- The variables that settings are taken from. -/
def variableNames : List String :=
  [ "TTM_REQUIRE_TTM_EXTENSION", "TTM_ENABLE_PERFORMANCE_LOGGING", "TTM_LEXICAL_DETAILED_METRICS",
    "TTM_LEXICAL_TRACE_TOKENS", "TTM_SCANNER_LOG_SYMBOLS", "TTM_SCANNER_LOG_SCOPES",
    "TTM_CONVERSION_LOG_STATEMENTS", "TTM_LOGGING_USE_STRUCTURED", "TTM_LOGGING_ENABLE_CONSOLE",
    "TTM_LOGGING_MIN_LEVEL", "TTM_LOGGING_CARGO_STYLE", "TTM_LOGGING_INCLUDE_FILE_CONTEXT" ]

/-- The settings that hold where a settings file says nothing. -/
def ofEnvironment (environment : String → Option String) : Settings :=
  let flag (name : String) (default : Bool) : Bool :=
    ((environment name).bind flag?).getD default
  { files :=
      { requireTtmExtension := flag "TTM_REQUIRE_TTM_EXTENSION" false
        performanceLogging := flag "TTM_ENABLE_PERFORMANCE_LOGGING" true }
    lexical :=
      { detailedMetrics := flag "TTM_LEXICAL_DETAILED_METRICS" true
        traceTokens := flag "TTM_LEXICAL_TRACE_TOKENS" false }
    scan :=
      { logSymbols := flag "TTM_SCANNER_LOG_SYMBOLS" false
        logScopes := flag "TTM_SCANNER_LOG_SCOPES" false }
    conversion := { logStatements := flag "TTM_CONVERSION_LOG_STATEMENTS" false }
    log :=
      { structured := flag "TTM_LOGGING_USE_STRUCTURED" false
        console := flag "TTM_LOGGING_ENABLE_CONSOLE" true
        minLevel := ((environment "TTM_LOGGING_MIN_LEVEL").bind Log.Level.ofVariable?).getD .info
        reportDiagnostics := flag "TTM_LOGGING_CARGO_STYLE" true
        fileContext := flag "TTM_LOGGING_INCLUDE_FILE_CONTEXT" true } }

end Settings
end Ttm
