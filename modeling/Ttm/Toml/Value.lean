/-!
Values of TOML documents, and how the lines of a document fill a table. A name is given a value
once; a table is written out in one place, but tables within it may be added anywhere.
-/

namespace Ttm.Toml

/-- What made a table. -/
inductive Origin
  /-- Braces. Nothing can be added later. -/
  | inline
  /-- A header of its own. -/
  | header
  /-- A header of a table within it. -/
  | implied
  /-- A dotted name. -/
  | dotted
  deriving DecidableEq, Repr

/-- Numbers other than integers and dates are told apart, but their values are not kept. -/
inductive Value
  | string (s : String)
  | integer (n : Int)
  | float
  | boolean (b : Bool)
  | date
  | array (items : List Value)
  | table (origin : Origin) (entries : List (String × Value))
  /-- Tables with a common header, the last one first. -/
  | tables (items : List (List (String × Value)))
  deriving Inhabited, Repr

/-- The content of a table, with one value a name. -/
abbrev Entries := List (String × Value)

namespace Entries

/-- Changes the value of a name, or makes one. -/
def update (name : String) (f : Option Value → Option Value) : Entries → Option Entries
  | [] => do return [(name, ← f none)]
  | (other, v) :: rest =>
    if other = name then do return (other, ← f (some v)) :: rest
    else do return (other, v) :: (← update name f rest)

/-- Changes the last of several tables. -/
def updateLast (f : Entries → Option Entries) : List Entries → Option (List Entries)
  | [] => none
  | last :: before => do return (← f last) :: before

/-- Gives a value to a dotted name. A table that has a header of its own, or braces, is closed to
dotted names; one that a header implies is open to tables within it only. -/
def assign (value : Value) : List String → Entries → Option Entries
  | [], _ => none
  | [name], entries =>
    update name (fun
      | none => some value
      | some _ => none) entries
  | name :: next :: path, entries =>
    update name (fun
      | none => Value.table .dotted <$> assign value (next :: path) []
      | some (.table .dotted inner) => Value.table .dotted <$> assign value (next :: path) inner
      | some (.table .implied inner) =>
        if path.isEmpty then none
        else Value.table .implied <$> assign value (next :: path) inner
      | some (.tables items) =>
        if path.isEmpty then none
        else Value.tables <$> updateLast (assign value (next :: path)) items
      | some _ => none) entries

/-- Assigns to one name after another. -/
def assignAll (entries : Entries) (pairs : List (List String × Value)) : Option Entries :=
  pairs.foldlM (fun entries (path, value) => entries.assign value path) entries

/-- Changes the value that the header of a table names. -/
def underHeader (f : Option Value → Option Value) : List String → Entries → Option Entries
  | [], _ => none
  | [name], entries => update name f entries
  | name :: next :: path, entries =>
    update name (fun
      | none => Value.table .implied <$> underHeader f (next :: path) []
      | some (.table .inline _) => none
      | some (.table origin inner) => Value.table origin <$> underHeader f (next :: path) inner
      | some (.tables items) => Value.tables <$> updateLast (underHeader f (next :: path)) items
      | some _ => none) entries

end Entries

/-- A part of a document: the header of a table, or of one more of several tables, and what follows
it. -/
structure Section where
  path : List String
  repeated : Bool
  pairs : List (List String × Value)

/-- Adds a part of a document to the table of the whole. -/
def Section.addTo (s : Section) (document : Entries) : Option Entries :=
  let fill (entries : Entries) : Option Entries := entries.assignAll s.pairs
  document.underHeader (fun old =>
    match s.repeated, old with
    | false, none => Value.table .header <$> fill []
    | false, some (.table .implied inner) => Value.table .header <$> fill inner
    | true, none => do return .tables [← fill []]
    | true, some (.tables items) => do return .tables ((← fill []) :: items)
    | _, _ => none) s.path

end Ttm.Toml
