import Ttm.Symbol.Table

/-!
The functions that every program may call without declaring them.
-/

namespace Ttm.Symbol

structure Signature where
  name : String
  returns : DataType
  parameters : List DataType
  deriving DecidableEq, Repr

namespace Signature

def all : List Signature :=
  [⟨"parseInt", .i32, [.str]⟩, ⟨"concat", .str, [.str, .str]⟩]

/-- The function and its parameters, which are named by number and belong to its scope. -/
def symbols (s : Signature) : List Symbol :=
  .library s.name globalScope s.returns .function ::
    s.parameters.zipIdx.map fun (type, i) => .library s!"arg{i}" s.name type .parameter

end Signature

namespace Table

/-- Inserts one after another and stops at the first that is refused. -/
def insertAll : List Symbol → Table → Except TableError Unit × Table
  | [], t => (.ok (), t)
  | s :: rest, t =>
    match t.insert s with
    | (.ok _, t) => insertAll rest t
    | (.error e, t) => (.error e, t)

/-- Adds the library functions that are not there yet, and counts them. -/
def addLibrary (missing : List Signature) (added : Nat) (t : Table) :
    Except TableError Nat × Table :=
  match missing with
  | [] => (.ok added, t)
  | s :: rest =>
    if (t.lookup globalScope s.name).isSome then addLibrary rest added t
    else match insertAll s.symbols t with
      | (.ok (), t) => addLibrary rest (added + 1) t
      | (.error e, t) => (.error e, t)

def registerLibrary (t : Table) : Except TableError Nat × Table := addLibrary Signature.all 0 t

end Table
end Ttm.Symbol
