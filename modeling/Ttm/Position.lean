/-!
Places in a source text. Lines and columns count from one, and the column is absent where only the
line is known. Positions are ordered by line, and on a line the one without a column comes first.
-/

namespace Ttm

structure Position where
  line : Nat
  column : Option Nat
  deriving DecidableEq, Repr

namespace Position

def atColumn (line column : Nat) : Position := ⟨line, some column⟩

def atLine (line : Nat) : Position := ⟨line, none⟩

/-- `line:column`, or the line alone. -/
def text (p : Position) : String :=
  match p.column with
  | some c => s!"{p.line}:{c}"
  | none => s!"{p.line}"

/-- Columns as numbers, the absent one below all others. -/
def columnRank (p : Position) : Nat :=
  p.column.elim 0 (· + 1)

def le (p q : Position) : Bool :=
  p.line < q.line || (p.line == q.line && p.columnRank ≤ q.columnRank)

def sort (ps : List Position) : List Position :=
  ps.mergeSort le

end Position
end Ttm
