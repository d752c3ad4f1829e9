import Ttm.Text.Invisible

/-!
Text in double quotes, as values are shown in messages.
-/

namespace Ttm.Text.Quoted

/-- Lower-case hexadecimal digits without leading zeros. -/
def hex (n : Nat) : String := String.ofList (Nat.toDigits 16 n)

/-- Quotes, backslashes, control characters and invisible characters are escaped. -/
def escape (c : Char) : String :=
  match c with
  | '"' => "\\\""
  | '\\' => "\\\\"
  | '\x00' => "\\0"
  | '\t' => "\\t"
  | '\n' => "\\n"
  | '\r' => "\\r"
  | c =>
    if c.toNat < 0x20 ∨ c.toNat = 0x7F ∨ invisible.holds c then
      "\\u\x7b" ++ hex c.toNat ++ "\x7d"
    else String.ofList [c]

def encode (s : String) : String := "\"" ++ String.join (s.toList.map escape) ++ "\""

def encodeOption : Option String → String
  | none => "None"
  | some s => s!"Some({encode s})"

end Ttm.Text.Quoted
