import Ttm.Code
import Ttm.Position

/-!
What can be wrong with source bytes before any token has a meaning.
-/

namespace Ttm.Source

inductive Error
  /-- A byte that is not allowed where it stands. -/
  | forbiddenCharacter (byte : UInt8) (line column : Nat)
  /-- An odd number of quotes in the delimited text. -/
  | unbalancedQuotes (count : Nat)
  /-- The token at `line` is one more than allowed. -/
  | tooManyTokens (count max line : Nat)
  deriving DecidableEq, Repr

namespace Error

def name : Error → String
  | forbiddenCharacter .. => "ForbiddenCharacter"
  | unbalancedQuotes _ => "UnbalancedQuotes"
  | tooManyTokens .. => "TooManyTokens"

def message : Error → String
  | forbiddenCharacter byte line column =>
    s!"Forbidden character 0x{Text.hexByte byte} at line {line}, column {column}"
  | unbalancedQuotes count => s!"Unbalanced quotes: {count} quote characters"
  | tooManyTokens count max _ => s!"Too many tokens: {count} (max {max})"

def code : Error → Code
  | forbiddenCharacter .. => .forbiddenCharacter
  | unbalancedQuotes _ => .unbalancedQuotes
  | tooManyTokens .. => .tooManyTokens

def line : Error → Option Nat
  | forbiddenCharacter _ line _ => some line
  | unbalancedQuotes _ => none
  | tooManyTokens _ _ line => some line

def column : Error → Option Nat
  | forbiddenCharacter _ _ column => some column
  | _ => none

def position (e : Error) : Option Position :=
  e.line.map fun line => ⟨line, e.column⟩

end Error
end Ttm.Source
