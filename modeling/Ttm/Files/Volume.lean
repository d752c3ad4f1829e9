import Ttm.Files.Path

/-!
A tree of files as a value. Places are lists of names from the root down; paths are followed name by
name, and every name but the last has to be a directory.
-/

namespace Ttm.Files

inductive Fault
  | notFound
  | alreadyThere
  | notDirectory
  | isDirectory
  | nameTooLong
  /-- The path holds a character that ends a text for the system. -/
  | endedEarly
  deriving DecidableEq, Repr

def Fault.text : Fault → String
  | notFound => "No such file or directory (os error 2)"
  | alreadyThere => "File exists (os error 17)"
  | notDirectory => "Not a directory (os error 20)"
  | isDirectory => "Is a directory (os error 21)"
  | nameTooLong => "File name too long (os error 36)"
  | endedEarly => "file name contained an unexpected NUL byte"

/-- A file with its content, or a directory with what it holds, by name. -/
inductive Node
  | file (content : ByteArray)
  | directory (entries : List (String × Node))

/-- A place, from the root down. -/
abbrev Place := List String

namespace Node

/-- The node at a place below. -/
def find? : Place → Node → Option Node
  | [], node => some node
  | name :: rest, directory entries => (entries.lookup name).bind (find? rest)
  | _ :: _, file _ => none

/-- Changes what a name stands for, or adds the name. -/
def update (name : String) (f : Option Node → Node) :
    List (String × Node) → List (String × Node)
  | [] => [(name, f none)]
  | (other, node) :: rest =>
    if other = name then (other, f (some node)) :: rest else (other, node) :: update name f rest

/-- Changes what is at a place below, with directories on the way. Nothing lies below a file. -/
def alter (f : Option Node → Node) : Place → Option Node → Node
  | [], node => f node
  | name :: rest, none => directory [(name, alter f rest none)]
  | name :: rest, some (directory entries) => directory (update name (alter f rest) entries)
  | _ :: _, some (file content) => file content

/-- Adds to the end of a file, which begins empty. -/
def extend (more : ByteArray) : Option Node → Node
  | none => file more
  | some (file content) => file (content ++ more)
  | some (directory entries) => directory entries

end Node

/-- The tree of files, and the directory from which relative paths start. -/
structure Volume where
  root : Node := .directory []
  home : Place := []

/-- How a walk from the root came to a place: the names on the way and what each of them stands for,
the last one first. -/
abbrev Trail := List (String × Option Node)

def Trail.place (trail : Trail) : Place := (trail.map (·.1)).reverse

namespace Volume
variable (v : Volume)

def node? (place : Place) : Option Node := v.root.find? place

def alter (place : Place) (f : Option Node → Node) : Volume :=
  { v with root := Node.alter f place (some v.root) }

def put (place : Place) (node : Node) : Volume := v.alter place fun _ => node

/-- What is at the end of a walk. -/
def arrival : Trail → Option Node
  | [] => some v.root
  | (_, node) :: _ => node

/-- The longest name, in bytes. -/
def maxName : Nat := 255

/-- The length, in bytes, from which a path is too long. -/
def pathBound : Nat := 4096

/-- What is in the directory at the end of a walk. -/
def entries (trail : Trail) : Except Fault (List (String × Node)) :=
  match v.arrival trail with
  | some (.directory entries) => .ok entries
  | some (.file _) => .error .notDirectory
  | none => .error .notFound

/-- Goes on from a directory by one name. -/
def enter (trail : Trail) (name : String) : Except Fault Trail := do
  let entries ← v.entries trail
  match name with
  | "" | "." => return trail
  | ".." => return trail.tail
  | name =>
    if maxName < name.utf8ByteSize then throw .nameTooLong
    else return (name, entries.lookup name) :: trail

def follow (trail : Trail) (names : List String) : Except Fault Trail := names.foldlM v.enter trail

/-- The walk to a place. -/
def trailTo (place : Place) : Trail :=
  place.foldl (fun trail name =>
    (name, (v.arrival trail).bind (·.find? [name])) :: trail) []

/-- Where a path begins, and the names it goes through from there. -/
def begin (path : String) : Except Fault (Trail × List String) :=
  if path.contains '\x00' then .error .endedEarly
  else if pathBound ≤ path.utf8ByteSize then .error .nameTooLong
  else match path.splitOn "/" with
    | [""] => .error .notFound
    | "" :: names => .ok ([], names)
    | names => .ok (v.trailTo v.home, names)

/-- The walk that a path describes, whether or not something is at its end. -/
def walk (path : String) : Except Fault Trail := do
  let (start, names) ← v.begin path
  v.follow start names

def locate (path : String) : Except Fault Place := (v.walk path).map (·.place)

/-- What a path leads to. -/
def find? (path : String) : Option Node := (v.walk path).toOption.bind v.arrival

def isDirectory (path : String) : Bool :=
  match v.find? path with
  | some (.directory _) => true
  | _ => false

def read (path : String) : Except Fault ByteArray := do
  match v.arrival (← v.walk path) with
  | some (.file content) => return content
  | some (.directory _) => throw .isDirectory
  | none => throw .notFound

/-- The place of a file to be written. A path that ends in a slash or in dots is that of a
directory, whether or not it is there. -/
def locateForWriting (path : String) : Except Fault Place := do
  let (start, names) ← v.begin path
  let endsInSlash := names.getLast? = some ""
  match names.reverse.dropWhile (· = "") with
  | [] => throw .isDirectory
  | last :: before =>
    let parent ← v.follow start before.reverse
    let _ ← v.entries parent
    if endsInSlash ∨ last = "." ∨ last = ".." then throw .isDirectory
    let trail ← v.enter parent last
    match v.arrival trail with
    | some (.directory _) => throw .isDirectory
    | _ => return trail.place

def write (path : String) (content : ByteArray) : Except Fault Volume := do
  let place ← v.locateForWriting path
  return v.put place (.file content)

/-- Adds to the end of a file. -/
def append (path : String) (content : ByteArray) : Except Fault Volume := do
  let place ← v.locateForWriting path
  return v.alter place (.extend content)

/-- Adds to the end of a file, if it can be written. -/
def tryAppend (path : String) (content : ByteArray) : Volume :=
  match v.locateForWriting path with
  | .ok place => v.alter place (.extend content)
  | .error _ => v

/-- Makes one directory. -/
def makeDirectory (path : String) : Except Fault Volume := do
  let bare := String.ofList (path.toList.reverse.dropWhile (· = '/')).reverse
  let trail ← v.walk (if bare.isEmpty then path else bare)
  match v.arrival trail with
  | some _ => throw .alreadyThere
  | none => return v.put trail.place (.directory [])

/-- Makes a directory, given by its steps from last to first, and those above it. -/
def makeDirectories : List Step → Volume → Except Fault Volume
  | [], v => .ok v
  | last :: above, v =>
    let path := Path.ofSteps (last :: above).reverse
    let settle (v : Volume) : Except Fault Volume :=
      match v.makeDirectory path with
      | .ok v => .ok v
      | .error e => if v.isDirectory path then .ok v else .error e
    match v.makeDirectory path with
    | .error .notFound => makeDirectories above v >>= settle
    | _ => settle v

/-- Makes the directory that a path lies in. -/
def makeParent (path : String) : Except Fault Volume :=
  makeDirectories (Path.steps path).reverse.tail v

/-- Adds a file and the directories above it. A name that ends in a slash is that of a directory. -/
def plant (name : String) (content : ByteArray) : Except Fault Volume :=
  if name.endsWith "/" then makeDirectories (Path.steps name).reverse v
  else do
    let v ← v.makeParent name
    v.write name content

end Volume
end Ttm.Files
