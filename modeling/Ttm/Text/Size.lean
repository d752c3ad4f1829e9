import Ttm.Text.Pad

/-!
File sizes for people: bytes up to 1023, then two decimals of the largest unit that fits. Sizes are
taken at 53 significant binary digits.
-/

namespace Ttm.Text.Size

/-- Hundredths of `size / unit`, a half going to the even neighbour. -/
def hundredths (size unit : Nat) : Nat :=
  let scaled := 100 * size
  let down := scaled / unit
  let twice := 2 * (scaled % unit)
  if unit < twice ∨ (twice = unit ∧ down % 2 = 1) then down + 1 else down

/-- The nearest number of at most 53 binary digits, a half going to the even neighbour. -/
def significant (n : Nat) : Nat :=
  let unit := Nat.pow 2 (n.log2 - 52)
  let down := n / unit
  let twice := 2 * (n % unit)
  if unit < twice ∨ (twice = unit ∧ down % 2 = 1) then (down + 1) * unit else down * unit

def inUnit (size unit : Nat) (name : String) : String :=
  let n := hundredths size unit
  Nat.repr (n / 100) ++ "." ++ zeroPadded 2 (n % 100) ++ " " ++ name

def text (size : Nat) : String :=
  let size := significant size
  if size < 1024 then Nat.repr size ++ " B"
  else if size < 1048576 then inUnit size 1024 "KB"
  else if size < 1073741824 then inUnit size 1048576 "MB"
  else inUnit size 1073741824 "GB"

end Ttm.Text.Size
