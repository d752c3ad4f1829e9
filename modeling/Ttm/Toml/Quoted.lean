import Ttm.Toml.Reader

/-!
Strings of TOML documents: basic ones, which know escapes, and literal ones, on one line in single
marks or on several lines in triple ones.
-/

namespace Ttm.Toml.Quoted

open Reader

def hexValue? (c : Char) : Option Nat :=
  if c.isDigit then some (c.toNat - 48)
  else if 'a' ≤ c ∧ c ≤ 'f' then some (c.toNat - 87)
  else if 'A' ≤ c ∧ c ≤ 'F' then some (c.toNat - 55)
  else none

/-- The character with the code that hexadecimal digits give. -/
def ofHex? (digits : List Char) : Option Char := do
  let code ← digits.foldlM (fun n c => do return 16 * n + (← hexValue? c)) 0
  if code.isValidChar then some (Char.ofNat code) else none

def escape? : Char → Option Char
  | 'b' => some '\x08'
  | 'f' => some '\x0c'
  | 'n' => some '\n'
  | 'r' => some '\r'
  | 't' => some '\t'
  | '"' => some '"'
  | '\\' => some '\\'
  | _ => none

def isBasic (c : Char) : Bool := isPrintable c && c != '"' && c != '\\'

def isLiteral (c : Char) : Bool := isPrintable c && c != '\''

/-- A basic string behind its mark. -/
def basic : (read : List Char) → Reader String
  | read, '"' :: rest => some (String.ofList read.reverse, rest)
  | read, '\\' :: 'u' :: a :: b :: c :: d :: rest => do
    basic ((← ofHex? [a, b, c, d]) :: read) rest
  | read, '\\' :: 'U' :: a :: b :: c :: d :: e :: f :: g :: h :: rest => do
    basic ((← ofHex? [a, b, c, d, e, f, g, h]) :: read) rest
  | read, '\\' :: c :: rest => do basic ((← escape? c) :: read) rest
  | read, c :: rest => if isBasic c then basic (c :: read) rest else none
  | _, [] => none

/-- A literal string behind its mark. -/
def literal : Reader String := do
  let content ← takeWhile isLiteral
  accept '\''
  return String.ofList content

/-- Where a string of several lines ends: at three to five marks, of which the last three close
it. -/
def closing? (mark : Char) (cs : List Char) : Option (List Char × List Char) :=
  let run := cs.takeWhile (· = mark)
  if run.length ≤ 5 then some (run.drop 3, cs.drop run.length) else none

/-- How far a line break that does not count has been read. -/
inductive Break
  | outside
  /-- Behind a backslash, where only blanks may precede the end of the line. -/
  | begun
  /-- On the next lines, whose blanks do not count. -/
  | ended
  deriving DecidableEq

/-- A basic string of several lines behind its marks. -/
def basicLines : Break → (read : List Char) → Reader String
  | .begun, read, '\r' :: '\n' :: rest => basicLines .ended read rest
  | .begun, read, c :: rest =>
    if c = '\n' then basicLines .ended read rest
    else if isBlank c then basicLines .begun read rest
    else none
  | .ended, read, '\r' :: '\n' :: rest => basicLines .ended read rest
  | _, read, '"' :: '"' :: '"' :: rest => do
    let (marks, rest) ← closing? '"' ('"' :: '"' :: '"' :: rest)
    return (String.ofList (read.reverse ++ marks), rest)
  | _, read, '\\' :: 'u' :: a :: b :: c :: d :: rest => do
    basicLines .outside ((← ofHex? [a, b, c, d]) :: read) rest
  | _, read, '\\' :: 'U' :: a :: b :: c :: d :: e :: f :: g :: h :: rest => do
    basicLines .outside ((← ofHex? [a, b, c, d, e, f, g, h]) :: read) rest
  | _, read, '\\' :: c :: rest =>
    if isBlank c || c = '\n' || c = '\r' then basicLines .begun read (c :: rest)
    else do basicLines .outside ((← escape? c) :: read) rest
  | .outside, read, '\r' :: '\n' :: rest => basicLines .outside ('\n' :: read) rest
  | b, read, c :: rest =>
    if b = .ended ∧ (isBlank c ∨ c = '\n') then basicLines .ended read rest
    else if c = '\n' ∨ c = '"' ∨ isBasic c then basicLines .outside (c :: read) rest
    else none
  | _, _, [] => none

/-- A literal string of several lines behind its marks. -/
def literalLines : (read : List Char) → Reader String
  | read, '\'' :: '\'' :: '\'' :: rest => do
    let (marks, rest) ← closing? '\'' ('\'' :: '\'' :: '\'' :: rest)
    return (String.ofList (read.reverse ++ marks), rest)
  | read, '\r' :: '\n' :: rest => literalLines ('\n' :: read) rest
  | read, c :: rest =>
    if c = '\n' ∨ c = '\'' ∨ isLiteral c then literalLines (c :: read) rest else none
  | _, [] => none

/-- A line end right behind the marks does not count. -/
def afterMarks (cs : List Char) : List Char :=
  match newline cs with
  | some ((), rest) => rest
  | none => cs

/-- A string on one line, as names may be. -/
def oneLine : Reader String
  | '"' :: rest => basic [] rest
  | '\'' :: rest => literal rest
  | _ => none

def string : Reader String
  | '"' :: '"' :: '"' :: rest => basicLines .outside [] (afterMarks rest)
  | '\'' :: '\'' :: '\'' :: rest => literalLines [] (afterMarks rest)
  | cs => oneLine cs

end Ttm.Toml.Quoted
