/-!
Symbols: the functions, variables, parameters and literals of a program.
-/

namespace Ttm

inductive DataType
  | i32
  | str
  | undefined
  deriving DecidableEq, Repr, Hashable

namespace DataType

def name : DataType → String
  | i32 => "i32"
  | str => "str"
  | undefined => "undefined"

def all : List DataType := [i32, str, undefined]

def ofName? (s : String) : Option DataType := all.find? (·.name == s)

end DataType

inductive SymbolKind
  | function
  | var
  | parameter
  | literal
  | unknown
  deriving DecidableEq, Repr

namespace SymbolKind

def name : SymbolKind → String
  | function => "function"
  | var => "variable"
  | parameter => "parameter"
  | literal => "literal"
  | unknown => "unknown"

def all : List SymbolKind := [function, var, parameter, literal, unknown]

def ofName? (s : String) : Option SymbolKind := all.find? (·.name == s)

end SymbolKind

/-- `scope` is the declaring function, empty for global names. `position` is the index of the first
lexeme that refers to the symbol; library functions have none. `value` belongs to literals. -/
structure Symbol where
  name : String
  scope : String
  position : Option Nat
  type : DataType
  kind : SymbolKind
  value : Option String
  deriving DecidableEq, Repr

namespace Symbol

def globalScope : String := ""

def declared (name scope : String) (position : Nat) (type : DataType) (kind : SymbolKind) :
    Symbol :=
  ⟨name, scope, some position, type, kind, none⟩

/-- A literal is named after the place where it is first used. -/
def literal (position : Nat) (type : DataType) (value : String) : Symbol :=
  ⟨s!"L{position}", globalScope, some position, type, .literal, some value⟩

def library (name scope : String) (type : DataType) (kind : SymbolKind) : Symbol :=
  ⟨name, scope, none, type, kind, none⟩

def isFunction (s : Symbol) : Bool := s.kind == .function

def isLiteral (s : Symbol) : Bool := s.kind == .literal

/-- Type and value, for literals that have a value. -/
def literalKey? (s : Symbol) : Option (DataType × String) :=
  if s.isLiteral then s.value.map (s.type, ·) else none

end Symbol
end Ttm
