import Ttm.Lexeme.Table
import Ttm.Symbol.Library

/-!
A program as two tables that point into each other.
-/

namespace Ttm

structure Program where
  symbols : Symbol.Table
  lexemes : Lexeme.Table

namespace Program

def empty (maxSymbols maxLexemes : Nat) : Program := ⟨.empty maxSymbols, .empty maxLexemes⟩

end Program
end Ttm
