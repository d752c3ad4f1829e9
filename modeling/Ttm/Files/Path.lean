/-!
File paths as texts, and the steps a path consists of. Two texts are the same path when their steps
agree; paths are ordered step by step.
-/

namespace Ttm.Files

inductive Step
  | root
  | current
  | parent
  | name (s : String)
  deriving DecidableEq, Repr

namespace Step

def rank : Step → Nat
  | root => 0
  | current => 1
  | parent => 2
  | name _ => 3

def compare (a b : Step) : Ordering :=
  match a, b with
  | name s, name t => compareOfLessAndEq s t
  | _, _ => compareOfLessAndEq a.rank b.rank

end Step

namespace Path

/-- The parts between slashes, empty ones among them. -/
def parts (path : String) : List (List Char) :=
  path.toList.foldr (fun c parts =>
    if c = '/' then [] :: parts
    else match parts with
      | [] => [[c]]
      | first :: rest => (c :: first) :: rest) [[]]

/-- Empty parts and single dots say nothing. -/
def step? : List Char → Option Step
  | [] | ['.'] => none
  | ['.', '.'] => some .parent
  | cs => some (.name (String.ofList cs))

/-- A dot counts where the path begins with it. -/
def steps (path : String) : List Step :=
  match parts path with
  | [] :: _ :: _ => .root :: (parts path).filterMap step?
  | ['.'] :: _ => .current :: (parts path).filterMap step?
  | ps => ps.filterMap step?

def stepText : Step → String
  | .root => ""
  | .current => "."
  | .parent => ".."
  | .name s => s

/-- A path with the given steps. -/
def ofSteps : List Step → String
  | [.root] => "/"
  | steps => "/".intercalate (steps.map stepText)

def compareSteps : List Step → List Step → Ordering
  | [], [] => .eq
  | [], _ :: _ => .lt
  | _ :: _, [] => .gt
  | a :: as, b :: bs => (a.compare b).then (compareSteps as bs)

def compare (p q : String) : Ordering :=
  if p = q then .eq else compareSteps (steps p) (steps q)

/-- Another spelling of the same path. -/
def same (p q : String) : Bool := p == q || steps p == steps q

/-- The part of a file name behind its last dot, unless nothing stands before that dot. -/
def extensionOf (fileName : String) : Option String :=
  let reversed := fileName.toList.reverse
  match reversed.dropWhile (· != '.') with
  | [] | [_] => none
  | _ :: _ :: _ => some (String.ofList (reversed.takeWhile (· != '.')).reverse)

end Path
end Ttm.Files
