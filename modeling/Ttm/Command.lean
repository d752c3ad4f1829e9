import Ttm.Command.Help
import Ttm.Command.Options
import Ttm.Compile
import Ttm.Compile.Check
import Ttm.Compile.Output
import Ttm.Log.Startup
import Ttm.Settings.File

/-!
A run of the program as a function of its arguments, its environment and the files it finds.
-/

namespace Ttm.Command

open Files (Volume)
open Log (Event Outputs Session)

/-- What a run finds. -/
structure Setting where
  program : String := "ttmc"
  arguments : List String
  environment : String → Option String
  volume : Volume
  clock : Timestamp := {}

/-- What a run leaves behind. -/
structure Outcome where
  exitCode : Nat
  outputs : Outputs

/-- Ends a run with a complaint. -/
def fail (complaint : String) (o : Outputs) : Outcome := ⟨1, o.printError complaint⟩

/-- Ends a run with an error that is shown as a quoted text. -/
def failQuoted (complaint : String) (o : Outputs) : Outcome :=
  fail s!"Error: {Text.Quoted.encode complaint}\n" o

/-- The files that a compiled program is written to, in order. -/
def products (o : Options) (c : Compiled) : List (String × String) :=
  (o.lex.map fun path => (path, c.program.lexemes.renderByLine)).toList
    ++ (o.id.map fun path => (path, c.program.symbols.render)).toList
    ++ (o.json.map fun path => (path, c.program.json.pretty)).toList

/-- Writes files up to the first that cannot be written. -/
def writeAll : List (String × String) → Outputs → Except Outcome Outputs
  | [], o => .ok o
  | (path, text) :: rest, o =>
    match o.volume.write path text.toUTF8 with
    | .ok volume => writeAll rest ({ o with volume }.print s!"  wrote {path}\n")
    | .error e => .error (failQuoted s!"Cannot write '{path}': {e.text}" o)

/-- The diagnostics of a session go to the error stream at its end. -/
def finish (exitCode : Nat) (s : Session) : Outcome :=
  ⟨exitCode, (s.printError (s.report.getD "")).outputs⟩

def succeeded (o : Options) (c : Compiled) (s : Session) : Outcome :=
  match writeAll (products o c) s.outputs with
  | .error outcome => outcome
  | .ok outputs =>
    finish 0 <| { s with outputs }.print <|
      s!"\nSUCCESS: {c.program.lexemes.size} lexemes, {c.program.symbols.size} symbols, "
        ++ s!"{c.conversion.statements} statements converted\n"

def failed (e : Compile.Error) (s : Session) : Outcome :=
  finish 1 (s.printError s!"\nFAILED: {e.message}\n  {e.diagnostic.text}\n")

/-- Compiles the source file in a session that has begun. -/
def compile (limits : Limits) (settings : Settings) (o : Options) (input : String) (s : Session) :
    Outcome :=
  match Compile.file limits settings input (s.print s!"Compiling: {input}\n") with
  | (.ok c, s) => succeeded o c s
  | (.error e, s) => failed e s

/-- The logger of a run, and the files once it has been set up. -/
def logger (o : Options) (settings : LogSettings) (v : Volume) :
    Except String (Log.Logger × Volume) :=
  match o.log with
  | none => .ok (.toConsole settings, v)
  | some path =>
    match Log.Logger.toFile path settings v with
    | .ok result => .ok result
    | .error e => .error s!"Cannot open log file '{path}': {e.text}"

/-- Begins a session, checks the stages and compiles. -/
def begin (limits : Limits) (setting : Setting) (o : Options) (input : String)
    (settings : Settings) : Outcome :=
  match logger o settings.log setting.volume with
  | .error complaint => failQuoted complaint (.begin setting.volume)
  | .ok (logger, volume) =>
    let s : Session :=
      { logger, settings := settings.log, outputs := .begin volume, clock := setting.clock }
    let (events, result) := Compile.check limits
    let s := s.logAll (Event.success .initialized "Global logging system initialized" :: events)
    match result with
    | .error complaint => failQuoted complaint s.outputs
    | .ok () => compile limits settings o input s

/-- The settings of a run: those of the environment, and on top of them those of a file. -/
def settings (setting : Setting) (o : Options) : Except Settings.Error Settings :=
  let start := Settings.ofEnvironment setting.environment
  match o.config with
  | none => .ok start
  | some path => Settings.load path start setting.volume

/-- Help is given without a look at any file. -/
def giveHelp (limits : Limits) (setting : Setting) : Outcome :=
  let reportDiagnostics := (Settings.ofEnvironment setting.environment).log.reportDiagnostics
  let outputs := Outputs.begin setting.volume
  ⟨0, outputs.print (help setting.program { limits, reportDiagnostics })⟩

def run (limits : Limits) (setting : Setting) : Outcome :=
  let outputs := Outputs.begin setting.volume
  let usage := usage setting.program
  match Options.read setting.arguments with
  | .error e => fail s!"Error: {e.message}\n{usage}" outputs
  | .ok o =>
    if o.help then giveHelp limits setting
    else match o.input with
      | none => fail usage outputs
      | some input =>
        match settings setting o with
        | .error e => fail s!"Error: {e.shown}\n" outputs
        | .ok chosen => begin limits setting o input chosen

end Ttm.Command
