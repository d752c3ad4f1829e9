import Ttm.Lexeme.Table
import Ttm.Position

/-!
What can be wrong with a statement that is to be put into postfix order.
-/

namespace Ttm.Postfix

inductive Error
  | malformedExpression (start line : Nat) (reason : String)
  | missingTerminator (start : Nat) (line : Option Nat)
  | tableRefused (cause : Lexeme.TableError)
  deriving DecidableEq, Repr

namespace Error

def name : Error → String
  | malformedExpression .. => "MalformedExpression"
  | missingTerminator .. => "MissingTerminator"
  | tableRefused _ => "Rewrite"

def message : Error → String
  | malformedExpression start line reason =>
    s!"Malformed expression at lexeme {start} (line {line}): {reason}"
  | missingTerminator start _ =>
    s!"Expression starting at lexeme {start} has no terminating ';'"
  | tableRefused cause => s!"Span rewrite failed: {cause.message}"

def code : Error → Code
  | malformedExpression .. => .malformedExpression
  | missingTerminator .. => .missingTerminator
  | tableRefused cause => cause.code

def line : Error → Option Nat
  | malformedExpression _ line _ => some line
  | missingTerminator _ line => line
  | tableRefused _ => none

def position (e : Error) : Option Position := e.line.map .atLine

end Error
end Ttm.Postfix
