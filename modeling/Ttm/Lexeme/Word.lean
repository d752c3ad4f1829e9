import Ttm.Lexeme.Kind
import Ttm.Limits

/-!
The words of the language: which token texts are lexemes, and of which kind. Recognisers are tried
in order and the first one that accepts decides, so a keyword is never an identifier.
-/

namespace Ttm.Lexeme

def isLetter (c : Char) : Bool := c.isAlpha || c == '_'

def isLetterOrDigit (c : Char) : Bool := c.isAlphanum || c == '_'

/-- A letter or underscore, then letters, digits and underscores, at most `limit` in all. -/
def isIdentifier (limit : Nat) : List Char → Bool
  | [] => false
  | first :: rest => isLetter first && rest.length < limit && rest.all isLetterOrDigit

/-- One or more digits. -/
def isInteger (cs : List Char) : Bool := !cs.isEmpty && cs.all Char.isDigit

/-- Two quotes with no quote between them. -/
def isString : List Char → Bool
  | [] => false
  | first :: rest =>
    first == '\'' && rest.getLast? == some '\'' && !rest.dropLast.contains '\''

inductive Pattern
  | exact (text : String)
  | identifier
  | string
  | integer
  deriving DecidableEq, Repr

variable [Limits]

def Pattern.accepts (p : Pattern) (text : String) : Bool :=
  match p with
  | exact expected => text == expected
  | identifier => isIdentifier Limits.maxIdentifierLength text.toList
  | string => isString text.toList
  | integer => isInteger text.toList

structure Recognizer where
  kind : Kind
  pattern : Pattern
  deriving DecidableEq, Repr

def Recognizer.accepts (r : Recognizer) (text : String) : Bool := r.pattern.accepts text

private def word (kind : Kind) : Recognizer := ⟨kind, .exact kind.text⟩

def recognizers : List Recognizer :=
  [ .i32, .str, .fnWord, .ifWord, .elseWord, .letWord, .retWord, .echoWord, .mainWord, .openParen,
    .closeParen, .semicolon, .comma, .openBrace, .closeBrace, .plus, .minus, .star, .slash,
    .percent, .equals, .notEquals, .lessOrEquals, .greaterOrEquals, .assign, .less,
    .greater ].map word
  ++ [⟨.identifier, .identifier⟩, ⟨.string, .string⟩, ⟨.integer, .integer⟩]

/-- The kind of the first recogniser that accepts. -/
def Kind.ofText? (text : String) : Option Kind :=
  (recognizers.find? (·.accepts text)).map (·.kind)

/-- The value of a digit string, if it is at most `max`. -/
def decimal? (max : Nat) (cs : List Char) : Option Nat :=
  cs.foldlM (fun acc c =>
    let value := acc * 10 + (c.toNat - '0'.toNat)
    if value ≤ max then some value else none) 0

end Ttm.Lexeme
