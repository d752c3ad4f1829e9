import Ttm.Log.Event

/-!
A bounded memory of events. A full memory forgets its oldest event for each new one.
-/

namespace Ttm.Log

/-- `front` holds events oldest first, `back` the later ones newest first. -/
structure Memory where
  front : List Event
  back : List Event
  size : Nat
  capacity : Nat
  deriving DecidableEq, Repr

namespace Memory
variable (m : Memory)

def empty (capacity : Nat) : Memory := ⟨[], [], 0, capacity⟩

def toList : List Event := m.front ++ m.back.reverse

/-- Forgets the oldest event. -/
def dropOldest : Memory :=
  match m.front with
  | _ :: front => { m with front, size := m.size - 1 }
  | [] => { m with front := m.back.reverse.tail, back := [], size := m.size - 1 }

def push (e : Event) : Memory :=
  let m := if m.size < m.capacity then m else m.dropOldest
  { m with back := e :: m.back, size := m.size + 1 }

def clear : Memory := empty m.capacity

def first? : Option Event := m.toList.head?

def last? : Option Event := m.toList.getLast?

def errors : List Event := m.toList.filter (·.isError)

def hasCode (c : Code) : Bool := m.toList.any (·.code == c)

end Memory
end Ttm.Log
