import Ttm.Code
import Ttm.Lexeme.Kind

/-!
The lexeme table: what the tokens of a program became, in order. The table grows at its end up to a
capacity; a span of it may be overwritten and keeps its length.
-/

namespace Ttm

/-- A classified token. Names and literals point into the symbol table. -/
structure Lexeme where
  kind : Lexeme.Kind
  line : Nat
  symbol : Option Nat := none
  deriving DecidableEq, Repr

namespace Lexeme

def padding : Lexeme := ⟨.padding, 0, none⟩

def isPadding (l : Lexeme) : Bool := l.kind == .padding

inductive TableError
  | capacityExceeded (max : Nat)
  /-- The span from `first` up to `last` leaves a table of `length` entries. -/
  | spanOutOfBounds (first last length : Nat)
  | replacementTooLong (replacement span : Nat)
  deriving DecidableEq, Repr

namespace TableError

def name : TableError → String
  | capacityExceeded _ => "CapacityExceeded"
  | spanOutOfBounds .. => "SpanOutOfBounds"
  | replacementTooLong .. => "ReplacementTooLong"

def message : TableError → String
  | capacityExceeded max => s!"Lexeme table capacity exceeded (max {max})"
  | spanOutOfBounds first last length =>
    s!"Span {first}..{last} is outside the table (len {length})"
  | replacementTooLong replacement span =>
    s!"Replacement of {replacement} entries does not fit span of {span}"

def code : TableError → Code
  | capacityExceeded _ => .tableCapacityExceeded
  | _ => .internalError

end TableError

/-- How a span was filled: entries of content, then entries of padding. -/
structure Filling where
  length : Nat
  padding : Nat
  deriving DecidableEq, Repr

structure Table where
  entries : Array Lexeme
  capacity : Nat
  deriving DecidableEq, Repr

namespace Table
variable (t : Table)

def empty (capacity : Nat) : Table := ⟨#[], capacity⟩

def size : Nat := t.entries.size

def toList : List Lexeme := t.entries.toList

def isFull : Bool := t.capacity ≤ t.entries.size

/-- Adds an entry at the end, without asking. -/
def add (l : Lexeme) : Table := { t with entries := t.entries.push l }

/-- Adds an entry at the end and answers its index. -/
def push (l : Lexeme) : Except TableError Nat × Table :=
  if t.isFull then (.error (.capacityExceeded t.capacity), t) else (.ok t.size, t.add l)

def get? (i : Nat) : Option Lexeme := t.entries[i]?

def last? : Option Lexeme := t.entries.back?

def kinds : List Kind := t.toList.map (·.kind)

/-- The kind of the entry `offset` places before the end. -/
def kindFromEnd? (offset : Nat) : Option Kind :=
  if offset ≤ t.entries.size then (t.entries[t.entries.size - offset]?).map (·.kind) else none

/-- The next entry stands behind `fn` and a datatype. -/
def declaresFunction : Bool := t.kindFromEnd? 2 == some .fnWord

/-- The next entry stands behind `let` and a datatype. -/
def declaresVariable : Bool := t.kindFromEnd? 2 == some .letWord

/-- The next entry stands behind a datatype. -/
def declaresDatatype : Bool := t.kindFromEnd? 1 == some .datatype

def hasKind (k : Kind) : Bool := t.entries.any (·.kind == k)

def countKind (k : Kind) : Nat := t.entries.countP (·.kind == k)

/-- The index of the first semicolon at or behind `start`. -/
def terminator? (start : Nat) : Option Nat :=
  ((t.toList.drop start).findIdx? (·.kind == .semicolon)).map (start + ·)

/-- Puts `replacement` in front of a span and padding into the rest of it. -/
def overwrite (start span : Nat) (replacement : List Lexeme) :
    Except TableError Filling × Table :=
  if t.size < start + span then (.error (.spanOutOfBounds start (start + span) t.size), t)
  else if span < replacement.length then (.error (.replacementTooLong replacement.length span), t)
  else
    let rest := span - replacement.length
    let entries := t.toList.take start ++ replacement ++ List.replicate rest Lexeme.padding
      ++ t.toList.drop (start + span)
    (.ok ⟨replacement.length, rest⟩, { t with entries := entries.toArray })

/-- The dump written so far, its last character first, and the line of its last row. -/
def dumpEntry (dump : List Char × Option Nat) (l : Lexeme) : List Char × Option Nat :=
  if l.isPadding then dump
  else if dump.2 = some l.line then (l.kind.tag :: dump.1, dump.2)
  else
    let ended := if dump.2.isSome then '\n' :: dump.1 else dump.1
    (l.kind.tag :: ' ' :: (Text.zeroPadded 4 l.line).toList.reverseAux ended, some l.line)

/-- A row for each run of entries of one line: the line number and the tags. -/
def renderByLine : String :=
  let dump := t.entries.foldl dumpEntry ([], none)
  String.ofList (if dump.2.isSome then '\n' :: dump.1 else dump.1).reverse

end Table
end Lexeme
end Ttm
