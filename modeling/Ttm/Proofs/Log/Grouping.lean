import Ttm.Proofs.Log.Collector

/-!
What a collector tells of the events it was given. It holds the first of them, grouped by their
paths; the lists for single paths, the numbers of its summary and its report say the same of them.
-/
namespace Ttm.Log

open Files (Path.compare Path.same Path.same_iff Path.same_self)

namespace FileEvents

variable {f : FileEvents} {files : List FileEvents}

end FileEvents

namespace Collector

open FileEvents (addUp)

/-- Files that hold these events and no others, one for each path. -/
structure Groups (held : List (String × Event)) (files : List FileEvents) : Prop where
  ordered : Ordered files
  complete : ∀ x ∈ held, ∃ f ∈ files, Path.same x.1 f.path
  /-- A path keeps the spelling that it came with first. -/
  spelled : ∀ f ∈ files, (held.find? (Path.same f.path ·.1)).map (·.1) = some f.path
  events : ∀ f ∈ files, f.events = eventsAt f.path held

/-- What is reported of a path: its errors, then its warnings, an entry for each. -/
def entries (path : String) (events : List Event) : List String :=
  (events.filter (·.isError)).map (errorText path) ++
    (events.filter (·.isWarning)).map (warningText path)

/-- The entries of a path and an empty line behind them, where there are any. -/
def block (path : String) (events : List Event) : String :=
  if (entries path events).isEmpty then "" else String.join (entries path events) ++ "\n"

/-- All that a collector tells is about these events. -/
structure Shows (c : Collector) (held : List (String × Event)) : Prop where
  groups : Groups held c.files
  events : ∀ path, c.eventsOf path = eventsAt path held
  errors : ∀ path, c.errorsOf path = (eventsAt path held).filter (·.isError)
  total : c.total = held.length
  files : c.summary.files = c.summary.successful + c.summary.failed
  failed : c.summary.failed = c.files.countP fun f => (eventsAt f.path held).any (·.isError)
  successful : c.summary.successful =
    c.files.countP fun f => !(eventsAt f.path held).any (·.isError)
  errorTotal : c.summary.errors = held.countP (·.2.isError)
  warningTotal : c.summary.warnings = held.countP (·.2.isWarning)
  text : c.text = String.join (c.files.map fun f => block f.path (eventsAt f.path held)) ++
    totalText "errors" c.summary.errors ++ totalText "warnings" c.summary.warnings

variable {c : Collector} {limits : Limits} {path : String} {f : FileEvents}
  {files : List FileEvents}

/-- Two spellings of a path make one file, under the one that came first. -/
example :
    (recordAll .development [("a//b", .info "x"), ("c", .info "y"), ("a/b", .info "z")]).files =
      [⟨"a//b", [.info "z", .info "x"]⟩, ⟨"c", [.info "y"]⟩] := by decide +kernel

end Collector
end Ttm.Log
