/-!
Sets of characters as runs of code points, each from its first to its last, in order.
-/

namespace Ttm.Text

abbrev Runs := List (Nat × Nat)

def Runs.holds (runs : Runs) (c : Char) : Bool :=
  runs.any fun r => r.1 ≤ c.toNat && c.toNat ≤ r.2

end Ttm.Text
