import Ttm.Text.Pad

/-!
Numeric codes of diagnostics and progress reports, and the facts on record about the diagnostic
ones. Codes from 900 up report success.
-/

namespace Ttm

structure Code where
  number : Nat
  deriving DecidableEq, Repr

inductive Severity
  | critical
  | high
  | medium
  | low
  deriving DecidableEq, Repr

namespace Severity

def name : Severity → String
  | critical => "Critical"
  | high => "High"
  | medium => "Medium"
  | low => "Low"

end Severity

namespace Code

/-- The code of events that carry no other. -/
def none : Code := ⟨0⟩

def internalError : Code := ⟨1⟩
def fileOpenFailure : Code := ⟨110⟩
def forbiddenCharacter : Code := ⟨111⟩
def fileTooLarge : Code := ⟨112⟩
def missingDeclarationKind : Code := ⟨120⟩
def missingDeclarationType : Code := ⟨121⟩
def unbalancedBrackets : Code := ⟨122⟩
def duplicateDeclaration : Code := ⟨123⟩
def undeclaredIdentifier : Code := ⟨124⟩
def selfReference : Code := ⟨125⟩
def emptyStringLiteral : Code := ⟨126⟩
def integerOutOfRange : Code := ⟨127⟩
def tooManyTokens : Code := ⟨128⟩
def unrecognizedToken : Code := ⟨129⟩
def missingEntryPoint : Code := ⟨130⟩
def duplicateEntryPoint : Code := ⟨131⟩
def unbalancedQuotes : Code := ⟨132⟩
def scopeTooDeep : Code := ⟨133⟩
def tableCapacityExceeded : Code := ⟨134⟩
def malformedExpression : Code := ⟨140⟩
def missingTerminator : Code := ⟨141⟩

def initialized : Code := ⟨900⟩
def fileRead : Code := ⟨901⟩
def preprocessed : Code := ⟨902⟩
def tokensSplit : Code := ⟨903⟩
def scanned : Code := ⟨904⟩
def converted : Code := ⟨905⟩
def compiled : Code := ⟨906⟩

def isSuccess (c : Code) : Bool := 900 ≤ c.number

/-- At least three digits. -/
def text (c : Code) : String := Text.zeroPadded 3 c.number

/-- What is on record about a diagnostic. -/
structure Entry where
  code : Code
  category : String
  severity : Severity
  recoverable : Bool
  requiresHalt : Bool
  description : String
  action : String
  deriving DecidableEq, Repr

/-- No diagnostic is recoverable, and each one ends the compilation. -/
private def fatal (code : Code) (category : String) (severity : Severity)
    (description action : String) : Entry :=
  ⟨code, category, severity, false, true, description, action⟩

def registry : List Entry :=
  [ fatal internalError "System" .critical "Internal compiler invariant violated"
      "File a bug report with the source that triggered it",
    fatal fileOpenFailure "FileProcessing" .high "Source file could not be opened or read"
      "Check the path and file permissions",
    fatal fileTooLarge "FileProcessing" .high "Source file exceeds the compile-time size limit"
      "Split the program or rebuild with a larger limit",
    fatal forbiddenCharacter "Lexical" .high "Forbidden character in source text"
      "Remove the character or move it inside a string literal",
    fatal integerOutOfRange "Lexical" .high "Integer literal does not fit in i32"
      "Use a value between -2147483648 and 2147483647",
    fatal tooManyTokens "Lexical" .high "Token count exceeds the compile-time limit"
      "Split the program into smaller units",
    fatal unrecognizedToken "Lexical" .high "Token matches no lexeme family"
      "Check spelling of keywords, identifiers and literals",
    fatal unbalancedQuotes "Lexical" .high "Odd number of quote characters"
      "Close every string literal on the line it starts",
    fatal missingDeclarationKind "Declarations" .high "Declaration has no kind context"
      "Precede the name with fn, let or a parameter datatype",
    fatal missingDeclarationType "Declarations" .high "Declaration has no datatype"
      "Add i32 or str before the declared name",
    fatal duplicateDeclaration "Declarations" .high "Name already declared in this scope"
      "Rename one of the declarations",
    fatal undeclaredIdentifier "Declarations" .high "Identifier used before declaration"
      "Declare the identifier with let, fn or as a parameter",
    fatal selfReference "Declarations" .high "Function name used as a value inside its own body"
      "Use a local variable for the result",
    fatal emptyStringLiteral "Declarations" .medium "Empty string literal"
      "Give the literal at least one character",
    fatal unbalancedBrackets "Structural" .high "Unbalanced parentheses or braces"
      "Match every opening bracket with a closing one",
    fatal missingEntryPoint "Structural" .high "Entry point main is never declared"
      "Declare fn i32 main() \x7b ... \x7d",
    fatal duplicateEntryPoint "Structural" .high "Entry point main is declared more than once"
      "Keep a single main declaration",
    fatal scopeTooDeep "Structural" .high "Bracket nesting exceeds the compile-time depth limit"
      "Flatten nested expressions or blocks",
    fatal tableCapacityExceeded "Structural" .critical "Symbol or lexeme table capacity exceeded"
      "Split the program or rebuild with larger limits",
    fatal malformedExpression "Conversion" .high "Expression is not well formed"
      "Check operator and operand placement",
    fatal missingTerminator "Conversion" .high "Expression statement has no terminating semicolon"
      "End the statement with ';'" ]

def onRecord? (c : Code) : Option Entry := registry.find? (·.code == c)

def severity (c : Code) : Severity := c.onRecord?.elim .medium (·.severity)

def recoverable (c : Code) : Bool := c.onRecord?.elim true (·.recoverable)

def requiresHalt (c : Code) : Bool := c.onRecord?.elim false (·.requiresHalt)

def description (c : Code) : String := c.onRecord?.elim "Unknown error" (·.description)

def action (c : Code) : String := c.onRecord?.elim "No specific action available" (·.action)

def category (c : Code) : String :=
  if c.isSuccess then "Success" else c.onRecord?.elim "Unknown" (·.category)

/-- The first code that is not on record. -/
def firstUnregistered? (codes : List Code) : Option Code :=
  codes.find? (·.onRecord?.isNone)

/-- The complaint of a stage that uses a code not on record. -/
def unregisteredMessage (stage : String) (c : Code) : String :=
  s!"{stage} error code {c.text} not found in metadata registry"

end Code
end Ttm
