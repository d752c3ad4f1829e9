import Std.Data.HashMap
import Ttm.Code
import Ttm.Symbol

/-!
The symbol table: symbols in the order of their insertion, found by scope and name, or, for literals
with a value, by type and value. The table grows up to a capacity and refuses a name that its scope
already has.
-/

namespace Ttm.Symbol

inductive TableError
  | capacityExceeded (max : Nat)
  | duplicateKey (scope name : String)
  deriving DecidableEq, Repr

namespace TableError

def name : TableError → String
  | capacityExceeded _ => "CapacityExceeded"
  | duplicateKey .. => "DuplicateKey"

def message : TableError → String
  | capacityExceeded max => s!"Symbol table capacity exceeded (max {max})"
  | duplicateKey scope name => s!"Symbol '{name}' already exists in scope '{scope}'"

def code : TableError → Code
  | capacityExceeded _ => .tableCapacityExceeded
  | duplicateKey .. => .duplicateDeclaration

end TableError

structure Table where
  entries : Array Symbol
  /-- Indices of the symbols with a name, by scope and name. -/
  names : Std.HashMap (String × String) Nat
  /-- Indices of the literals first to have their value, by type and value. -/
  literals : Std.HashMap (DataType × String) Nat
  capacity : Nat

namespace Table
variable (t : Table)

def empty (capacity : Nat) : Table := ⟨#[], ∅, ∅, capacity⟩

def size : Nat := t.entries.size

def toList : List Symbol := t.entries.toList

def get? (i : Nat) : Option Symbol := t.entries[i]?

def lookup (scope name : String) : Option Nat := t.names[(scope, name)]?

def lookupLiteral (type : DataType) (value : String) : Option Nat := t.literals[(type, value)]?

/-- Why a symbol cannot be added. A full table is reported before a taken name. -/
def refusal? (s : Symbol) : Option TableError :=
  if t.capacity ≤ t.size then some (.capacityExceeded t.capacity)
  else if s.literalKey?.isNone && t.names.contains (s.scope, s.name) then
    some (.duplicateKey s.scope s.name)
  else none

/-- Adds a symbol at the end, without asking. -/
def add (s : Symbol) : Table :=
  let index := t.size
  match s.literalKey? with
  | some key =>
    { t with entries := t.entries.push s, literals := t.literals.insertIfNew key index }
  | none =>
    { t with entries := t.entries.push s, names := t.names.insert (s.scope, s.name) index }

/-- Adds a symbol at the end and answers its index. -/
def insert (s : Symbol) : Except TableError Nat × Table :=
  match t.refusal? s with
  | some e => (.error e, t)
  | none => (.ok t.size, t.add s)

/-- The index of a literal and whether it is new in the table. -/
structure Interned where
  index : Nat
  created : Bool
  deriving DecidableEq, Repr

/-- Finds a literal, or adds it as first used at `position`. -/
def intern (type : DataType) (value : String) (position : Nat) :
    Except TableError Interned × Table :=
  match t.lookupLiteral type value with
  | some index => (.ok ⟨index, false⟩, t)
  | none =>
    let (result, t) := t.insert (.literal position type value)
    (result.map (⟨·, true⟩), t)

def literalCount : Nat := t.entries.countP (·.isLiteral)

/-- Whether an index points to a function. -/
def isFunction (index : Option Nat) : Bool := (index.bind t.get?).any (·.isFunction)

def row (index name scope position type kind value : String) : String :=
  let blank := "  "
  Text.pad .right 5 index ++ blank ++ Text.pad .left 20 name ++ " "
    ++ Text.pad .left 20 scope ++ " "
    ++ Text.pad .right 6 position ++ blank ++ Text.pad .left 9 type ++ " "
    ++ Text.pad .left 9 kind ++ " " ++ value ++ "\n"

def symbolRow (index : Nat) (s : Symbol) : String :=
  row (Nat.repr index) s.name (if s.scope = globalScope then "<global>" else s.scope)
    (s.position.elim "-" Nat.repr) s.type.name s.kind.name (s.value.getD "")

/-- A heading and a row for each symbol. -/
def render : String :=
  let rows := t.toList.zipIdx.map fun (s, index) => symbolRow index s
  row "index" "name" "scope" "lex" "type" "kind" "value" ++ String.join rows

end Table
end Ttm.Symbol
