/-!
Kinds of lexemes. `i32`, `str`, `integer` and `string` are what single words are; in a program they
appear as `datatype` and `literal`. `call` and `padding` come with postfix order.
-/

namespace Ttm.Lexeme

inductive Kind
  | i32
  | str
  | datatype
  | fnWord
  | ifWord
  | elseWord
  | letWord
  | retWord
  | echoWord
  | mainWord
  | identifier
  | call
  | integer
  | string
  | literal
  | semicolon
  | comma
  | openBrace
  | closeBrace
  | openParen
  | closeParen
  | plus
  | minus
  | star
  | slash
  | percent
  | assign
  | equals
  | notEquals
  | lessOrEquals
  | greaterOrEquals
  | less
  | greater
  /-- Fills the end of a statement that became shorter. -/
  | padding
  deriving DecidableEq, Repr

namespace Kind

/-- The one-character form in dumps. -/
def tag : Kind → Char
  | i32 => 'n'
  | str => 's'
  | datatype => 't'
  | fnWord => 'f'
  | ifWord => 'I'
  | elseWord => 'E'
  | letWord => 'd'
  | retWord => 'r'
  | echoWord => 'p'
  | mainWord => 'm'
  | identifier => 'i'
  | call => '@'
  | integer => '1'
  | string => '2'
  | literal => 'l'
  | semicolon => ';'
  | comma => ','
  | openBrace => '{'
  | closeBrace => '}'
  | openParen => '('
  | closeParen => ')'
  | plus => '+'
  | minus => '-'
  | star => '*'
  | slash => '/'
  | percent => '%'
  | assign => '='
  | equals => 'q'
  | notEquals => '!'
  | lessOrEquals => 'L'
  | greaterOrEquals => 'G'
  | less => '<'
  | greater => '>'
  | padding => '#'

/-- The form in messages. -/
def text : Kind → String
  | i32 => "i32"
  | str => "str"
  | datatype => "datatype"
  | fnWord => "fn"
  | ifWord => "if"
  | elseWord => "else"
  | letWord => "let"
  | retWord => "ret"
  | echoWord => "echo"
  | mainWord => "main"
  | identifier => "identifier"
  | call => "call"
  | integer => "integer literal"
  | string => "string literal"
  | literal => "literal"
  | semicolon => ";"
  | comma => ","
  | openBrace => "\x7b"
  | closeBrace => "\x7d"
  | openParen => "("
  | closeParen => ")"
  | plus => "+"
  | minus => "-"
  | star => "*"
  | slash => "/"
  | percent => "%"
  | assign => "="
  | equals => "=="
  | notEquals => "!="
  | lessOrEquals => "<="
  | greaterOrEquals => ">="
  | less => "<"
  | greater => ">"
  | padding => "forbidden"

/-- The form in delivered tables. -/
def name : Kind → String
  | i32 => "I32"
  | str => "Str"
  | datatype => "Datatype"
  | fnWord => "Fn"
  | ifWord => "If"
  | elseWord => "Else"
  | letWord => "Let"
  | retWord => "Ret"
  | echoWord => "Echo"
  | mainWord => "Main"
  | identifier => "Identifier"
  | call => "Call"
  | integer => "IntegerLiteral"
  | string => "StringLiteral"
  | literal => "Literal"
  | semicolon => "Semicolon"
  | comma => "Comma"
  | openBrace => "OpenBrace"
  | closeBrace => "CloseBrace"
  | openParen => "OpenParen"
  | closeParen => "CloseParen"
  | plus => "Plus"
  | minus => "Minus"
  | star => "Star"
  | slash => "Slash"
  | percent => "Percent"
  | assign => "Assign"
  | equals => "Equals"
  | notEquals => "NotEquals"
  | lessOrEquals => "LessOrEquals"
  | greaterOrEquals => "GreaterOrEquals"
  | less => "Less"
  | greater => "Greater"
  | padding => "Forbidden"

/-- The operators that take part in postfix order. -/
def isArithmetic : Kind → Bool
  | plus | minus | star | slash | percent => true
  | _ => false

def isComparison : Kind → Bool
  | equals | notEquals | lessOrEquals | greaterOrEquals | less | greater => true
  | _ => false

/-- How tightly an operator binds. -/
def priority : Kind → Option Nat
  | openParen | closeParen => some 1
  | plus | minus => some 2
  | star | slash | percent => some 3
  | _ => none

def all : List Kind :=
  [ i32, str, datatype, fnWord, ifWord, elseWord, letWord, retWord, echoWord, mainWord, identifier,
    call, integer, string, literal, semicolon, comma, openBrace, closeBrace, openParen, closeParen,
    plus, minus, star, slash, percent, assign, equals, notEquals, lessOrEquals, greaterOrEquals,
    less, greater, padding ]

/-- Reads the form in delivered tables. -/
def ofName? (s : String) : Option Kind := all.find? (·.name == s)

end Kind
end Ttm.Lexeme
