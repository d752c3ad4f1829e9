import Ttm.Files.Volume
import Ttm.Log.Collector
import Ttm.Log.Memory
import Ttm.Settings

/-!
Logging over a session: where events go, which of them go there, and what is added to them on the
way. While a file is being worked on, its events carry its path and number, and its errors and
warnings are collected under its path.
-/

namespace Ttm.Log

open Files (Volume)

/-- What a session has written. -/
structure Outputs where
  volume : Volume := {}
  stdout : String := ""
  stderr : String := ""
  memory : Memory

inductive Outlet
  | memory
  /-- Errors go to the error stream, all else to the output stream. -/
  | console (level : Level) (structured : Bool)
  /-- Lines are added at the end of a file. A file that cannot be written is left alone. -/
  | file (path : String) (level : Level) (structured : Bool)
  deriving DecidableEq, Repr

namespace Outputs
variable (o : Outputs)

/-- Nothing is written yet. -/
def begin [limits : Limits] (volume : Volume := {}) : Outputs :=
  { volume, memory := .empty limits.logBufferSize }

def print (text : String) : Outputs := { o with stdout := o.stdout ++ text }

def printError (text : String) : Outputs := { o with stderr := o.stderr ++ text }

def deliver (e : Event) : Outlet → Outputs
  | .memory => { o with memory := o.memory.push e }
  | .console level structured =>
    if level.admits e.level then
      let line := e.written structured ++ "\n"
      if e.isError then o.printError line else o.print line
    else o
  | .file path level structured =>
    if level.admits e.level then
      { o with volume := o.volume.tryAppend path (e.written structured ++ "\n").toUTF8 }
    else o

end Outputs

/-- Hands every event up to its level to each of its outlets. -/
structure Logger where
  level : Level
  outlets : List Outlet
  deriving DecidableEq, Repr

def Logger.log (l : Logger) (e : Event) (o : Outputs) : Outputs :=
  if l.level.admits e.level then l.outlets.foldl (·.deliver e) o else o

/-- The file that a session is working on. -/
structure FileContext where
  path : String
  id : Nat
  deriving DecidableEq, Repr

/-- The context of the file overrides what an event says itself. -/
def FileContext.attach (f : FileContext) (e : Event) : Event :=
  e.withContext [("file", f.path), ("file_id", Nat.repr f.id)]

structure Session where
  logger : Logger
  settings : LogSettings := {}
  outputs : Outputs
  file : Option FileContext := none
  collector : Collector := .empty
  /-- The one reading of the clock that stamps the events of a session. -/
  clock : Timestamp := {}

namespace Session
variable [limits : Limits] (s : Session)

def enterFile (path : String) (id : Nat) : Session :=
  { s with file := some ⟨path, id⟩, collector := s.collector.beginFile path }

def leaveFile : Session := { s with file := none }

/-- An event as it is logged now. -/
def complete (e : Event) : Event :=
  let e := e.stamped s.clock
  if s.settings.fileContext then s.file.elim e (·.attach e) else e

/-- Errors and warnings about a file are collected. -/
def collect (e : Event) : Collector :=
  match s.file with
  | some f =>
    if e.isError || e.isWarning then s.collector.record limits f.path e else s.collector
  | none => s.collector

def log (e : Event) : Session :=
  let e := s.complete e
  let s := { s with collector := s.collect e }
  { s with outputs := s.logger.log e s.outputs }

def logAll (events : List Event) : Session := events.foldl log s

def print (text : String) : Session := { s with outputs := s.outputs.print text }

def printError (text : String) : Session := { s with outputs := s.outputs.printError text }

/-- The diagnostics of all files, unless this form of report is turned off. -/
def report : Option String :=
  if s.settings.reportDiagnostics then some s.collector.text else none

end Session
end Ttm.Log
