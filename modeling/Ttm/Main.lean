import Std.Time.DateTime.Timestamp
import Ttm.Command

/-!
The program: finds the files that its arguments name, runs, and stores what the run has changed.
-/

namespace Ttm.Shell

open Files (Node Place Volume)

def pathOf (place : Place) : String := "/" ++ "/".intercalate place

/-- What is at a place; a file comes with its content. -/
def find (place : Place) : IO (Option Node) := do
  try
    return some (.file (← IO.FS.readBinFile (pathOf place)))
  catch
    | .inappropriateType _ 21 _ => return some (.directory [])
    | _ => return none

/-- The places that a path goes through, from a given one on. -/
def placesFrom (place : Place) : List String → List Place
  | [] => []
  | part :: rest =>
    let next :=
      if part = "" ∨ part = "." then place
      else if part = ".." then place.dropLast
      else place ++ [part]
    next :: placesFrom next rest

def places (home : Place) (path : String) : List Place :=
  placesFrom (if path.startsWith "/" then [] else home) (path.splitOn "/")

/-- The part of the files of this machine that paths go through. -/
def load (home : Place) (paths : List String) : IO Volume := do
  let wanted := placesFrom [] home ++ paths.flatMap (places home)
  wanted.foldlM (fun v place => do
    if (v.node? place).isSome then return v
    else match ← find place with
      | some node => return v.put place node
      | none => return v) { home }

/-- Makes the directories and writes the files at and below a place that are not there yet. -/
partial def store (place : Place) (before : Option Node) : Node → IO Unit
  | .file content => do
    let same := match before with
      | some (.file old) => content == old
      | _ => false
    if !same then IO.FS.writeBinFile (pathOf place) content
  | .directory entries => do
    if before.isNone then IO.FS.createDir (pathOf place)
    for (name, node) in entries do
      store (place ++ [name]) (before.bind (·.find? [name])) node

/-- The paths that the options of a command line hold. -/
def pathsOf (arguments : List String) : List String :=
  match Command.Options.read arguments with
  | .ok o => [o.input, o.lex, o.id, o.json, o.log, o.config].filterMap id
  | .error _ => []

def environment : IO (String → Option String) := do
  let found ← Settings.variableNames.mapM fun name => return (name, ← IO.getEnv name)
  return fun name => (found.lookup name).join

def clock : IO Timestamp := do
  let now ← Std.Time.Timestamp.now
  return ⟨now.val.second.val, now.val.nano.val.toNat⟩

def run (arguments : List String) : IO UInt32 := do
  let home := ((← IO.currentDir).toString.splitOn "/").filter (· ≠ "")
  let volume ← load home (pathsOf arguments)
  let outcome := Command.run .development
    { arguments, environment := ← environment, volume, clock := ← clock }
  IO.print outcome.outputs.stdout
  IO.eprint outcome.outputs.stderr
  store [] (some volume.root) outcome.outputs.volume.root
  return UInt32.ofNat outcome.exitCode

end Ttm.Shell

def main (arguments : List String) : IO UInt32 := Ttm.Shell.run arguments
