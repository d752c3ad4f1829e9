import Ttm.Settings
import Ttm.Toml.Value

/-!
Settings as a TOML table of sections, to be read and written. A section that is left out, and a
field left out of a section, keeps the value it has; a name that is not known says nothing.
-/

namespace Ttm.Settings

open Toml (Value Entries)

/-- A part of a record of settings: its name in the table, and how it is read and written. -/
structure Slot (σ : Type) where
  name : String
  read : Value → σ → Option σ
  write : σ → Value

namespace Slot
variable {σ τ : Type}

def flag (name : String) (get : σ → Bool) (set : σ → Bool → σ) : Slot σ where
  name
  read
    | .boolean b, s => some (set s b)
    | _, _ => none
  write s := .boolean (get s)

/-- A level is a string, or a table with the level as its one name and nothing in it. -/
def levelOf? : Value → Option Log.Level
  | .string s => Log.Level.ofSetting? s
  | .table _ [(name, .table _ [])] | .table _ [(name, .array [])] => Log.Level.ofSetting? name
  | _ => none

def level (name : String) (get : σ → Log.Level) (set : σ → Log.Level → σ) : Slot σ where
  name
  read v s := (levelOf? v).map (set s)
  write s := .string (get s).setting

/-- Slots by name. -/
def readNamed (slots : List (Slot σ)) (entries : Entries) (s : σ) : Option σ :=
  slots.foldlM (fun s f =>
    match entries.lookup f.name with
    | some v => f.read v s
    | none => some s) s

/-- Slots in their order. -/
def readListed (slots : List (Slot σ)) (items : List Value) (s : σ) : Option σ :=
  (slots.zip items).foldlM (fun s (f, v) => f.read v s) s

/-- A section is a table, or an array with the values of its slots; a date stands for an empty
one. -/
def parts (name : String) (slots : List (Slot σ)) (get : τ → σ) (set : τ → σ → τ) :
    Slot τ where
  name
  read v t :=
    (match v with
      | .table _ entries => readNamed slots entries (get t)
      | .array items => readListed slots items (get t)
      | .tables items => readListed slots (items.reverse.map (.table .header)) (get t)
      | .date => some (get t)
      | _ => none).map (set t)
  write t := .table .header (slots.map fun f => (f.name, f.write (get t)))

end Slot

open Slot

def fileSlots : List (Slot FileSettings) :=
  [ flag "require_ttm_extension" (·.requireTtmExtension)
      fun s b => { s with requireTtmExtension := b },
    flag "enable_performance_logging" (·.performanceLogging)
      fun s b => { s with performanceLogging := b } ]

def lexicalSlots : List (Slot LexicalSettings) :=
  [ flag "collect_detailed_metrics" (·.detailedMetrics) fun s b => { s with detailedMetrics := b },
    flag "trace_tokens" (·.traceTokens) fun s b => { s with traceTokens := b } ]

def scanSlots : List (Slot ScanSettings) :=
  [ flag "log_symbol_insertions" (·.logSymbols) fun s b => { s with logSymbols := b },
    flag "log_scope_transitions" (·.logScopes) fun s b => { s with logScopes := b } ]

def conversionSlots : List (Slot ConversionSettings) :=
  [flag "log_conversions" (·.logStatements) fun s b => { s with logStatements := b }]

def logSlots : List (Slot LogSettings) :=
  [ flag "use_structured_logging" (·.structured) fun s b => { s with structured := b },
    flag "enable_console_logging" (·.console) fun s b => { s with console := b },
    level "min_log_level" (·.minLevel) fun s l => { s with minLevel := l },
    flag "enable_cargo_style_output" (·.reportDiagnostics)
      fun s b => { s with reportDiagnostics := b },
    flag "include_file_context" (·.fileContext) fun s b => { s with fileContext := b } ]

def sections : List (Slot Settings) :=
  [ parts "file_processor" fileSlots (·.files) fun s files => { s with files },
    parts "lexical" lexicalSlots (·.lexical) fun s lexical => { s with lexical },
    parts "scanner" scanSlots (·.scan) fun s scan => { s with scan },
    parts "conversion" conversionSlots (·.conversion) fun s conversion => { s with conversion },
    parts "logging" logSlots (·.log) fun s log => { s with log } ]

/-- The settings that a table asks for, on top of given ones. -/
def ofTable? (entries : Entries) (start : Settings) : Option Settings :=
  readNamed sections entries start

def toTable (s : Settings) : Entries := sections.map fun f => (f.name, f.write s)

end Ttm.Settings
