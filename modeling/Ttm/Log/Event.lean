import Ttm.Code
import Ttm.Position
import Ttm.Text.Json
import Ttm.Text.Timestamp

/-!
Log events and their forms as a line, as a block with the facts on record about their code, and as
JSON.
-/

namespace Ttm.Log

inductive Level
  | error
  | warning
  | info
  | debug
  deriving DecidableEq, Repr

namespace Level

def name : Level → String
  | error => "ERROR"
  | warning => "WARN"
  | info => "INFO"
  | debug => "DEBUG"

/-- Errors come first. -/
def rank : Level → Nat
  | error => 0
  | warning => 1
  | info => 2
  | debug => 3

/-- A limit lets through every level up to its own. -/
def admits (limit level : Level) : Bool := level.rank ≤ limit.rank

end Level

/-- Texts by key, in the order of their keys, with one text a key. -/
abbrev Context := List (String × String)

namespace Context

/-- The last text given for a key counts. -/
def insert (key value : String) : Context → Context
  | [] => [(key, value)]
  | (k, v) :: rest =>
    if key < k then (key, value) :: (k, v) :: rest
    else if key = k then (key, value) :: rest
    else (k, v) :: insert key value rest

def insertAll (pairs : List (String × String)) (c : Context) : Context :=
  pairs.foldl (fun c (key, value) => c.insert key value) c

end Context

structure Event where
  level : Level
  code : Code
  message : String
  position : Option Position := none
  context : Context := []
  time : Timestamp := {}
  deriving DecidableEq, Repr

namespace Event

def error (code : Code) (message : String) : Event := { level := .error, code, message }

def warning (message : String) (code : Code := .none) : Event :=
  { level := .warning, code, message }

def info (message : String) : Event := { level := .info, code := .none, message }

def success (code : Code) (message : String) : Event := { level := .info, code, message }

def debug (message : String) : Event := { level := .debug, code := .none, message }

variable (e : Event)

def located (position : Option Position) : Event := { e with position }

def withContext (pairs : List (String × String)) : Event :=
  { e with context := e.context.insertAll pairs }

def stamped (time : Timestamp) : Event := { e with time }

def isError : Bool := e.level == .error

def isWarning : Bool := e.level == .warning

/-- Level, code and message, and the position where there is one. -/
def line : String :=
  let place := e.position.elim "" fun p => " at " ++ p.text
  s!"[{e.level.name}] {e.code.text} - {e.message}{place}"

def yesNo (b : Bool) : String := if b then "true" else "false"

/-- The line of an event and a line for each fact about it. -/
def detailed : String :=
  let fact (name value : String) : String := s!"\n  {name}: {value}"
  let handling :=
    if e.isError then
      fact "Recoverable" (yesNo e.code.recoverable)
        ++ fact "Requires halt" (yesNo e.code.requiresHalt)
    else ""
  let description :=
    if e.code.description = "Unknown error" then "" else fact "Description" e.code.description
  let action :=
    if e.code.action = "No specific action available" then ""
    else fact "Recommended action" e.code.action
  let context :=
    if e.context.isEmpty then ""
    else "\n  Context:" ++ String.join (e.context.map fun (k, v) => s!"\n    {k}: {v}")
  e.line ++ fact "Category" e.code.category ++ fact "Severity" e.code.severity.name ++ handling
    ++ description ++ action ++ context

open Text (Json)

def positionJson (p : Position) : Json :=
  .object [("column", .ofOption .number p.column), ("line", .number p.line)]

def handlingJson : Json :=
  .object
    [ ("description", .string e.code.description), ("recommended_action", .string e.code.action),
      ("recoverable", .bool e.code.recoverable), ("requires_halt", .bool e.code.requiresHalt) ]

/-- Fields are in alphabetical order; those without content are left out. -/
def json : Json :=
  .object <|
    [("category", .string e.code.category), ("code", .number e.code.number)]
    ++ (if e.context.isEmpty then []
        else [("context", .object (e.context.map fun (k, v) => (k, .string v)))])
    ++ (if e.isError then [("error_metadata", e.handlingJson)] else [])
    ++ [("level", .string e.level.name), ("message", .string e.message)]
    ++ (e.position.map fun p => ("position", positionJson p)).toList
    ++ [("severity", .string e.code.severity.name), ("timestamp", .string e.time.text)]

/-- The form written to consoles and log files. -/
def written (structured : Bool) : String := if structured then e.json.compact else e.line

end Event
end Ttm.Log
