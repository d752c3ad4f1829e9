import Ttm.Postfix
import Ttm.Program.Scan
import Ttm.Log.Session

/-!
How the notes of the stages read as log events. No time passes within a session, so durations are
zero.
-/

namespace Ttm.Report

open Log (Event)

/-- The event of a failure that carries the message of its cause. -/
def failure (code : Code) (message : String) (position : Option Position) : Event :=
  (Event.error code message).located position

/-- The context of a stage's last event. -/
def timed (code : Code) (message : String) (facts : List (String × String)) : Event :=
  (Event.success code message).withContext (("duration_ms", "0.000") :: facts)

namespace Source

open Ttm.Source

def event : Note → Event
  | .failed cause words position facts =>
    ((Event.error cause.code words).located position).withContext facts
  | .delimited m detailed =>
    (Event.success .preprocessed "Preprocessing completed").withContext <|
      ("bytes", Nat.repr m.bytesRead) ::
        if detailed then
          [ ("lines", Nat.repr m.lines), ("comments", Nat.repr m.comments),
            ("strings", Nat.repr m.stringLiterals), ("ignored", Nat.repr m.ignoredBytes) ]
        else []
  | .token t =>
    (Event.debug "Raw token").withContext [("text", t.text), ("line", Nat.repr t.line)]
  | .split count =>
    timed .tokensSplit "Token splitting completed" [("tokens", Nat.repr count)]

end Source

namespace Program

open Ttm.Program

def event : Note → Event
  | .declared name scope kind type line =>
    (Event.debug "Symbol declared").withContext
      [ ("name", name), ("scope", scope), ("kind", kind.name), ("type", type.name),
        ("line", Nat.repr line) ]
  | .entered scope depth line => scopeEvent "Scope entered" scope depth line
  | .left scope depth line => scopeEvent "Scope exited" scope depth line
  | .failed cause => failure cause.code cause.message cause.position
where
  scopeEvent (message scope : String) (depth line : Nat) : Event :=
    (Event.debug message).withContext
      [("scope", scope), ("depth", Nat.repr depth), ("line", Nat.repr line)]

def scanDone (m : Metrics) : Event :=
  timed .scanned "Scanning completed"
    [ ("lexemes", Nat.repr m.lexemes), ("symbols", Nat.repr m.symbols),
      ("literals", Nat.repr m.literalsInterned), ("unary_rewrites", Nat.repr m.unaryGroups) ]

end Program

namespace Postfix

open Ttm.Postfix

def event : Note → Event
  | .converted c =>
    (Event.debug "Statement converted").withContext
      [("line", Nat.repr c.line), ("postfix", c.tags), ("padding", Nat.repr c.padding)]
  | .failed cause => failure cause.code cause.message cause.position

def conversionDone (m : Metrics) : Event :=
  timed .converted "Postfix conversion completed"
    [ ("statements", Nat.repr m.statements), ("calls", Nat.repr m.calls),
      ("padding", Nat.repr m.padding) ]

end Postfix
end Ttm.Report
