import Ttm.Log.Session
import Ttm.Proofs.Log.Collector
import Ttm.Proofs.Log.Event
import Ttm.Proofs.Log.Memory

/-! What a session remembers and collects of the calls it is given, over any sequence of them. -/
namespace Ttm.Log

open Files (Path.same)

attribute [local instance] Limits.development

/-- A message for the log, with the context that the caller gives. -/
inductive Call
  | error (code : Code) (message : String) (position : Option Position)
    (pairs : List (String × String))
  | success (code : Code) (message : String) (pairs : List (String × String))
  | info (message : String) (pairs : List (String × String))
  | warning (message : String) (pairs : List (String × String))
  | debug (message : String) (pairs : List (String × String))

namespace Call

/-- The event without context. -/
def bare : Call → Event
  | error code message position _ => (Event.error code message).located position
  | success code message _ => .success code message
  | info message _ => .info message
  | warning message _ => .warning message
  | debug message _ => .debug message

def pairs : Call → List (String × String)
  | error _ _ _ pairs | success _ _ pairs | info _ pairs | warning _ pairs | debug _ pairs => pairs

def event (c : Call) : Event := c.bare.withContext c.pairs

end Call

inductive Action
  | enterFile (path : String) (id : Nat)
  | leaveFile
  | log (call : Call)

namespace Session

/-- Debug messages are logged only where the settings ask for them. -/
def call (s : Session) (c : Call) : Session :=
  if c.bare.level = .debug ∧ !s.settings.minLevel.admits .debug then s else s.log c.event

def perform (s : Session) : Action → Session
  | .enterFile path id => s.enterFile path id
  | .leaveFile => s.leaveFile
  | .log c => s.call c

def run (s : Session) (actions : List Action) : Session := actions.foldl perform s

end Session

/-- The calls among some actions, each with the file that is worked on. -/
def calls : Option FileContext → List Action → List (Option FileContext × Call)
  | _, [] => []
  | _, .enterFile path id :: actions => calls (some ⟨path, id⟩) actions
  | _, .leaveFile :: actions => calls none actions
  | file, .log c :: actions => (file, c) :: calls file actions

/-- What a call logs while a file is worked on. -/
def dispatched (clock : Timestamp) (x : Option FileContext × Call) : Event :=
  let e := x.2.event.stamped clock
  x.1.elim e (·.attach e)

/-- What is collected of it: errors and warnings, under the path of the file. -/
def collected (clock : Timestamp) (x : Option FileContext × Call) : Option (String × Event) :=
  let e := dispatched clock x
  if e.isError || e.isWarning then x.1.map (·.path, e) else none

/-- A session that has dispatched these calls, and is working on a file. -/
structure Session.Dispatched (s : Session) (clock : Timestamp) (file : Option FileContext)
    (xs : List (Option FileContext × Call)) : Prop where
  logger : s.logger = ⟨.debug, [.memory]⟩
  level : s.settings.minLevel = .debug
  context : s.settings.fileContext = true
  stamp : s.clock = clock
  working : s.file = file
  memory : s.outputs.memory.Holds Limits.development.logBufferSize (xs.map (dispatched clock))
  collector : s.collector.files =
    (Collector.recordAll .development (xs.filterMap (collected clock))).files

variable {s : Session} {clock : Timestamp} {file : Option FileContext} {c : Call}
  {xs : List (Option FileContext × Call)}

namespace Session

theorem Dispatched.enterFile (h : s.Dispatched clock file xs) (path : String) (id : Nat) :
    (s.enterFile path id).Dispatched clock (some ⟨path, id⟩) xs :=
  { h with working := rfl }

theorem Dispatched.leaveFile (h : s.Dispatched clock file xs) :
    s.leaveFile.Dispatched clock none xs :=
  { h with working := rfl }

theorem Dispatched.complete (h : s.Dispatched clock file xs) (c : Call) :
    s.complete c.event = dispatched clock (file, c) := by
  rw [Session.complete, h.context, h.stamp, h.working]
  rfl

theorem log_remembering {l : Logger} (hl : l = ⟨.debug, [.memory]⟩) (e : Event) (o : Outputs) :
    (l.log e o).memory = o.memory.push e := by
  subst hl
  have hadmits : Level.debug.admits e.level := by cases e.level <;> rfl
  rw [Logger.log, if_pos hadmits]
  rfl

/-- What is collected of an event joins what was collected before. -/
theorem Dispatched.collect (h : s.Dispatched clock file xs) (c : Call) :
    (s.collect (dispatched clock (file, c))).files =
      (Collector.recordAll .development
        ((xs ++ [(file, c)]).filterMap (collected clock))).files := by
  rw [List.filterMap_append, Session.collect, h.working]
  cases file with
  | none =>
    have hnone : collected clock (none, c) = none := ite_self none
    rw [List.filterMap_cons_none hnone, List.filterMap_nil, List.append_nil]
    exact h.collector
  | some f =>
    show Collector.files (if _ then _ else _) = _
    by_cases he : (dispatched clock (some f, c)).isError || (dispatched clock (some f, c)).isWarning
    · have hsome : collected clock (some f, c) = some (f.path, dispatched clock (some f, c)) :=
        if_pos he
      rw [if_pos he, List.filterMap_cons_some hsome, List.filterMap_nil,
        Collector.recordAll_concat]
      exact Collector.files_record_congr h.collector
    · have hnone : collected clock (some f, c) = none := if_neg he
      rw [if_neg he, List.filterMap_cons_none hnone, List.filterMap_nil, List.append_nil]
      exact h.collector

theorem Dispatched.call (h : s.Dispatched clock file xs) (c : Call) :
    (s.call c).Dispatched clock file (xs ++ [(file, c)]) := by
  have hadmits : ¬ (c.bare.level = .debug ∧ !s.settings.minLevel.admits .debug) := by
    rw [h.level]
    exact fun hnot => absurd hnot.2 (by decide)
  rw [Session.call, if_neg hadmits, Session.log, h.complete]
  have hmemory := h.memory.push (e := dispatched clock (file, c)) (by decide)
  refine ⟨h.logger, h.level, h.context, h.stamp, h.working, ?_, h.collect c⟩
  rw [List.map_append, log_remembering h.logger]
  exact hmemory

theorem Dispatched.run (h : s.Dispatched clock file xs) (actions : List Action) :
    ∃ file', (s.run actions).Dispatched clock file' (xs ++ calls file actions) := by
  induction actions generalizing s file xs with
  | nil => exact ⟨file, by simpa [calls, Session.run] using h⟩
  | cons a actions ih =>
    cases a with
    | enterFile path id => exact ih (h.enterFile path id)
    | leaveFile => exact ih h.leaveFile
    | log c =>
      have hcall := ih (h.call c)
      rwa [List.append_assoc] at hcall

end Session

example : (dispatched {} (some ⟨"a.ttm", 3⟩,
    .info "begun" [("file", "b.ttm"), ("n", "1"), ("n", "2")])).context =
      [("file", "a.ttm"), ("file_id", "3"), ("n", "2")] := by
  decide

end Ttm.Log
