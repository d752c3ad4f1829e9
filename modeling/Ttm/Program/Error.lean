import Ttm.Code
import Ttm.Position

/-!
What can be wrong with the tokens of a program.
-/

namespace Ttm.Program

inductive TableName
  | symbol
  | lexeme
  deriving DecidableEq, Repr

def TableName.text : TableName → String
  | symbol => "symbol"
  | lexeme => "lexeme"

inductive Error
  | unrecognizedToken (token : String) (line : Nat)
  | missingDeclarationKind (name : String) (line : Nat)
  | missingDeclarationType (name : String) (line : Nat)
  /-- Has a line when it is found at a closing bracket, none when it is found at the end. -/
  | unbalancedBrackets (detail : String) (line : Option Nat)
  | duplicateDeclaration (name : String) (line : Nat)
  | undeclaredIdentifier (name : String) (line : Nat)
  | selfReference (name : String) (line : Nat)
  | emptyStringLiteral (line : Nat)
  | integerOutOfRange (literal : String) (line : Nat)
  | missingMain
  | duplicateMain (line : Nat)
  | scopeTooDeep (max line : Nat)
  | capacityExceeded (table : TableName) (max line : Nat)
  deriving DecidableEq, Repr

namespace Error

def name : Error → String
  | unrecognizedToken .. => "UnrecognizedToken"
  | missingDeclarationKind .. => "MissingDeclarationKind"
  | missingDeclarationType .. => "MissingDeclarationType"
  | unbalancedBrackets .. => "UnbalancedBrackets"
  | duplicateDeclaration .. => "DuplicateDeclaration"
  | undeclaredIdentifier .. => "UndeclaredIdentifier"
  | selfReference .. => "SelfReference"
  | emptyStringLiteral _ => "EmptyStringLiteral"
  | integerOutOfRange .. => "IntegerOutOfRange"
  | missingMain => "MissingMain"
  | duplicateMain _ => "DuplicateMain"
  | scopeTooDeep .. => "ScopeTooDeep"
  | capacityExceeded .. => "CapacityExceeded"

def message : Error → String
  | unrecognizedToken token line => s!"Unrecognized token '{token}' at line {line}"
  | missingDeclarationKind name line =>
    s!"Identifier '{name}' at line {line} has no declaration keyword"
  | missingDeclarationType name line => s!"Identifier '{name}' at line {line} has no data type"
  | unbalancedBrackets detail _ => s!"Unbalanced brackets: {detail}"
  | duplicateDeclaration name line => s!"Duplicate declaration of '{name}' at line {line}"
  | undeclaredIdentifier name line => s!"Undeclared identifier '{name}' at line {line}"
  | selfReference name line =>
    s!"Function '{name}' refers to itself outside a call at line {line}"
  | emptyStringLiteral line => s!"Empty string literal at line {line}"
  | integerOutOfRange literal line =>
    s!"Integer literal '{literal}' does not fit in i32 at line {line}"
  | missingMain => "Entry point 'main' is never declared"
  | duplicateMain line => s!"Entry point 'main' declared again at line {line}"
  | scopeTooDeep max line => s!"Scope nesting deeper than {max} at line {line}"
  | capacityExceeded table max line =>
    s!"{table.text} table capacity exceeded (max {max}) at line {line}"

def code : Error → Code
  | unrecognizedToken .. => .unrecognizedToken
  | missingDeclarationKind .. => .missingDeclarationKind
  | missingDeclarationType .. => .missingDeclarationType
  | unbalancedBrackets .. => .unbalancedBrackets
  | duplicateDeclaration .. => .duplicateDeclaration
  | undeclaredIdentifier .. => .undeclaredIdentifier
  | selfReference .. => .selfReference
  | emptyStringLiteral _ => .emptyStringLiteral
  | integerOutOfRange .. => .integerOutOfRange
  | missingMain => .missingEntryPoint
  | duplicateMain _ => .duplicateEntryPoint
  | scopeTooDeep .. => .scopeTooDeep
  | capacityExceeded .. => .tableCapacityExceeded

def line : Error → Option Nat
  | unrecognizedToken _ line | missingDeclarationKind _ line | missingDeclarationType _ line
  | duplicateDeclaration _ line | undeclaredIdentifier _ line | selfReference _ line
  | emptyStringLiteral line | integerOutOfRange _ line | duplicateMain line | scopeTooDeep _ line
  | capacityExceeded _ _ line => some line
  | unbalancedBrackets _ line => line
  | missingMain => none

def position (e : Error) : Option Position := e.line.map .atLine

end Error
end Ttm.Program
