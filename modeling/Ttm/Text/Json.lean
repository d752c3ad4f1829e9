import Ttm.Text.Pad

/-!
JSON text, on one line or indented by two blanks a level. Fields are written in the order given.
-/

namespace Ttm.Text

inductive Json
  | null
  | bool (b : Bool)
  | number (n : Nat)
  | string (s : String)
  | array (items : List Json)
  | object (fields : List (String × Json))
  deriving Inhabited

namespace Json

def ofOption {α : Type} (f : α → Json) (x : Option α) : Json := x.elim null f

/-- Quotes, backslashes and control characters are escaped, all else stands for itself. -/
def escape (c : Char) : List Char :=
  match c with
  | '"' => ['\\', '"']
  | '\\' => ['\\', '\\']
  | '\x08' => ['\\', 'b']
  | '\x0c' => ['\\', 'f']
  | '\n' => ['\\', 'n']
  | '\r' => ['\\', 'r']
  | '\t' => ['\\', 't']
  | c =>
    if c.toNat < 0x20 then
      ['\\', 'u', '0', '0', hexDigit false (c.toNat / 16), hexDigit false (c.toNat % 16)]
    else [c]

def quoted (s : String) : String :=
  String.ofList ('"' :: (s.toList.flatMap escape ++ ['"']))

/-- The gap before an item, or before a closing bracket, of nesting `depth`. -/
def gap (indented : Bool) (depth : Nat) : String :=
  if indented then "\n" ++ fill (2 * depth) ' ' else ""

def colon (indented : Bool) : String := if indented then ": " else ":"

variable (indented : Bool)

mutual

/-- Writes behind the text `out`. -/
def write (depth : Nat) (out : String) : Json → String
  | null => out ++ "null"
  | bool true => out ++ "true"
  | bool false => out ++ "false"
  | number n => out ++ Nat.repr n
  | string s => out ++ quoted s
  | array [] => out ++ "[]"
  | array (x :: xs) =>
    let out := write (depth + 1) (out ++ "[" ++ gap indented (depth + 1)) x
    writeItems (depth + 1) out xs ++ gap indented depth ++ "]"
  | object [] => out ++ "\x7b\x7d"
  | object ((key, x) :: fields) =>
    let out := out ++ "\x7b" ++ gap indented (depth + 1) ++ quoted key ++ colon indented
    let out := write (depth + 1) out x
    writeFields (depth + 1) out fields ++ gap indented depth ++ "\x7d"

def writeItems (depth : Nat) (out : String) : List Json → String
  | [] => out
  | x :: xs => writeItems depth (write depth (out ++ "," ++ gap indented depth) x) xs

def writeFields (depth : Nat) (out : String) : List (String × Json) → String
  | [] => out
  | (key, x) :: fields =>
    let out := out ++ "," ++ gap indented depth ++ quoted key ++ colon indented
    writeFields depth (write depth out x) fields

end

def compact (j : Json) : String := write false 0 "" j

def pretty (j : Json) : String := write true 0 "" j

end Json
end Ttm.Text
