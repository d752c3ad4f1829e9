/-!
Fixed-width text: cutting to a number of characters and filling up to one.
-/

namespace Ttm.Text

inductive Align
  | left
  | right
  | center
  deriving DecidableEq, Repr

/-- `n` copies of a character. -/
def fill (n : Nat) (c : Char) : String :=
  String.ofList (List.replicate n c)

/-- Fills `s` with blanks up to `width`; centred text has the odd blank on its right. -/
def pad (align : Align) (width : Nat) (s : String) : String :=
  let gap := width - s.length
  match align with
  | .left => s ++ fill gap ' '
  | .right => fill gap ' ' ++ s
  | .center => fill (gap / 2) ' ' ++ s ++ fill (gap - gap / 2) ' '

/-- The first `n` characters. -/
def cut (n : Nat) (s : String) : String :=
  String.ofList (s.toList.take n)

/-- Cuts to the precision when there is one, then pads. -/
def fit (align : Align) (width : Nat) (precision : Option Nat) (s : String) : String :=
  pad align width (precision.elim s (cut · s))

/-- A decimal numeral with leading zeros up to `width` digits. -/
def zeroPadded (width n : Nat) : String :=
  let digits := Nat.repr n
  fill (width - digits.length) '0' ++ digits

def hexDigit (upper : Bool) (n : Nat) : Char :=
  if n < 10 then Char.ofNat (48 + n) else Char.ofNat ((if upper then 55 else 87) + n)

/-- Two upper-case hexadecimal digits. -/
def hexByte (b : UInt8) : String :=
  String.ofList [hexDigit true (b.toNat / 16), hexDigit true (b.toNat % 16)]

end Ttm.Text
