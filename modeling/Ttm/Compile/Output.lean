import Ttm.Program
import Ttm.Text.Json

/-!
The two tables of a program as one JSON text for a code generator.
-/

namespace Ttm.Program

open Text (Json)

def symbolJson (s : Symbol) : Json :=
  .object
    [ ("name", .string s.name), ("scope", .string s.scope),
      ("lex_position", .ofOption .number s.position), ("data_type", .string s.type.name),
      ("kind", .string s.kind.name), ("literal_value", .ofOption .string s.value) ]

def lexemeJson (l : Lexeme) : Json :=
  .object
    [ ("kind", .string l.kind.name), ("line", .number l.line),
      ("symbol", .ofOption .number l.symbol) ]

def json (p : Program) : Json :=
  .object
    [ ("symbols", .object [("entries", .array (p.symbols.toList.map symbolJson))]),
      ("lexemes", .object [("entries", .array (p.lexemes.toList.map lexemeJson))]) ]

end Ttm.Program
