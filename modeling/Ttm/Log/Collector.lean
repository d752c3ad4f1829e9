import Ttm.Files.Path
import Ttm.Limits
import Ttm.Log.Event

/-!
Events by source file, in the order of the paths. The number of events is bounded, over all files
and for each one.
-/

namespace Ttm.Log

open Files (Path.compare Path.same)

/-- The events of one file, the last one first. A path keeps the spelling it came with. -/
structure FileEvents where
  path : String
  latest : List Event
  deriving DecidableEq, Repr

namespace FileEvents
variable (f : FileEvents)

def events : List Event := f.latest.reverse

def errors : List Event := f.events.filter (·.isError)

def warnings : List Event := f.events.filter (·.isWarning)

def hasErrors : Bool := f.latest.any (·.isError)

/-- The event that stands for all further events of a file. -/
def overflow (limit : Nat) : Event :=
  .warning s!"Too many events for file (limit: {limit})"

def add (limit : Nat) (e : Event) : FileEvents :=
  if f.latest.length < limit then { f with latest := e :: f.latest }
  else if f.latest.length = limit then { f with latest := overflow limit :: f.latest }
  else f

/-- Adds up a number for each file. -/
def addUp (files : List FileEvents) (number : FileEvents → Nat) : Nat :=
  files.foldr (fun f n => number f + n) 0

theorem addUp_nil (number : FileEvents → Nat) : addUp [] number = 0 := rfl

end FileEvents

/-- `total` is the number of events of all files. -/
structure Collector where
  files : List FileEvents
  /-- The paths of files that were begun. -/
  begun : List String
  total : Nat
  total_eq : total = FileEvents.addUp files (·.latest.length)
  deriving DecidableEq, Repr

structure Summary where
  files : Nat
  failed : Nat
  errors : Nat
  warnings : Nat
  deriving DecidableEq, Repr

def Summary.successful (s : Summary) : Nat := s.files - s.failed

namespace Collector
variable (c : Collector)

def empty : Collector := ⟨[], [], 0, (FileEvents.addUp_nil _).symm⟩

/-- Adds to the events of a path, which begins at its place in the order of paths. -/
def addTo (limit : Nat) (path : String) (e : Event) : List FileEvents → List FileEvents
  | [] => [FileEvents.add ⟨path, []⟩ limit e]
  | f :: rest =>
    match Path.compare path f.path with
    | .lt => FileEvents.add ⟨path, []⟩ limit e :: f :: rest
    | .eq => f.add limit e :: rest
    | .gt => f :: addTo limit path e rest

/-- A full collector takes nothing more. -/
def record (limits : Limits) (path : String) (e : Event) : Collector :=
  if limits.maxErrorCollection ≤ c.total then c
  else
    let files := addTo limits.maxLogEventsPerFile path e c.files
    { c with files, total := FileEvents.addUp files (·.latest.length), total_eq := rfl }

def beginFile (path : String) : Collector := { c with begun := path :: c.begun }

def hasBegun (path : String) : Bool := c.begun.any (Path.same path)

def file? (path : String) : Option FileEvents := c.files.find? fun f => Path.same path f.path

def eventsOf (path : String) : List Event := (c.file? path).elim [] (·.events)

def errorsOf (path : String) : List Event := (c.file? path).elim [] (·.errors)

def summary : Summary where
  files := c.files.length
  failed := c.files.countP (·.hasErrors)
  errors := FileEvents.addUp c.files (·.errors.length)
  warnings := FileEvents.addUp c.files (·.warnings.length)

/-- How full the collector is, with three decimals. -/
def fillText (limits : Limits) : String :=
  let max := limits.maxErrorCollection
  let thousandths := (2000 * c.total + max) / (2 * max)
  Nat.repr (thousandths / 1000) ++ "." ++ Text.zeroPadded 3 (thousandths % 1000)

/-! Diagnostics as text, file by file. -/

def location (path : String) (e : Event) : String :=
  e.position.elim "" fun p => s!"\n  --> {path}:{p.text}"

/-- The context of an event, without what its place in the text says already. -/
def details (e : Event) : String :=
  String.join ((e.context.filter fun (k, _) => k ≠ "file" ∧ k ≠ "file_id").map
    fun (k, v) => s!"  = {k}: {v}\n")

def help (e : Event) : String :=
  if e.code.action = "No specific action available" then "" else s!"  = help: {e.code.action}\n"

def errorText (path : String) (e : Event) : String :=
  s!"error[{e.code.text}]: {e.message}{location path e}\n" ++ details e ++ help e

def warningText (path : String) (e : Event) : String :=
  s!"warning: {e.message}{location path e}\n" ++ details e

def fileText (f : FileEvents) : String :=
  if f.errors.isEmpty && f.warnings.isEmpty then ""
  else String.join (f.errors.map (errorText f.path)) ++
    String.join (f.warnings.map (warningText f.path)) ++ "\n"

def totalText (what : String) (n : Nat) : String := if n = 0 then "" else s!"Total {what}: {n}\n"

def text : String :=
  String.join (c.files.map fileText) ++ totalText "errors" c.summary.errors
    ++ totalText "warnings" c.summary.warnings

end Collector
end Ttm.Log
