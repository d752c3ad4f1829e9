import Ttm.Compile.Error
import Ttm.Compile.Report

/-!
Compilation: source bytes, tokens, program, program in postfix order. The first failure ends it.
-/

namespace Ttm

/-- A compiled program and the counts of every stage. -/
structure Compiled where
  program : Program
  tokenCount : Nat
  lexical : Source.Metrics
  scan : Program.Metrics
  conversion : Postfix.Metrics
  /-- Absent when the source came from memory. -/
  file : Option SourceFile.Metadata := none

namespace Compile

open Log (Event Session)

/-- The events of a stage and its outcome. -/
abbrev Outcome (α : Type) := List Event × Except Error α

variable (limits : Limits) (settings : Settings)

/-- Puts a scanned program into postfix order. -/
def convert (tokens : Source.Tokens) (program : Program) (scan : Program.Metrics) :
    Outcome Compiled :=
  let c := Postfix.convertAll program.symbols settings.conversion program.lexemes
  let events := c.notes.map Report.Postfix.event
  match c.result with
  | .error e => (events, .error (.postfixOrder e))
  | .ok conversion =>
    (events ++ [Report.Postfix.conversionDone conversion],
      .ok
        { program := { program with lexemes := c.lexemes }, tokenCount := tokens.tokens.length,
          lexical := tokens.metrics, scan, conversion })

/-- Scans tokens into fresh tables, and goes on. -/
def scan (tokens : Source.Tokens) : Outcome Compiled :=
  let s := Program.scan settings.scan limits.maxScopeDepth tokens.tokens
    (.empty limits.maxSymbols limits.maxLexemes)
  let events := s.notes.map Report.Program.event
  match s.result with
  | .error e => (events, .error (.program e))
  | .ok metrics =>
    let (later, result) := convert limits settings tokens s.program metrics
    (events ++ Report.Program.scanDone metrics :: later, result)

/-- All stages from source bytes on. -/
def stages (source : List UInt8) : Outcome Compiled :=
  let reading := Source.read limits settings.lexical source
  let events := reading.notes.map Report.Source.event
  match reading.result with
  | .error e => (events, .error (.source e))
  | .ok tokens =>
    let (later, result) := scan limits settings tokens
    (events ++ later, result)

def success (source : String) (c : Compiled) : Event :=
  (Event.success .compiled "TTM compilation succeeded").withContext
    [ ("source", source), ("tokens", Nat.repr c.tokenCount),
      ("lexemes", Nat.repr c.program.lexemes.size), ("symbols", Nat.repr c.program.symbols.size),
      ("statements", Nat.repr c.conversion.statements), ("duration_ms", "0.00"),
      ("processing_rate_tokens_per_sec", "0") ]

/-- Compiles a source held in memory. -/
def source (bytes : List UInt8) : Outcome Compiled :=
  let (events, result) := stages limits settings bytes
  match result with
  | .error e => (events, .error e)
  | .ok c => (events ++ [success "<memory>" c], .ok c)

/-- Compiles the file a path leads to, in a session. -/
def file (path : String) (s : Session) : Except Error Compiled × Session :=
  let s := (s.enterFile path 0).log
    ((Event.info "Starting TTM compilation").withContext [("file", path)])
  match SourceFile.read limits settings.files path s with
  | (.error e, s) => (.error (.file e), s.leaveFile)
  | (.ok found, s) =>
    let (events, result) := stages limits settings found.content.toList
    let s := s.logAll events
    match result with
    | .error e => (.error e, s.leaveFile)
    | .ok c =>
      let c := { c with file := some found.metadata }
      (.ok c, (s.log (success path c)).leaveFile)

end Compile
end Ttm
