import Ttm.Toml.Number
import Ttm.Toml.Quoted

/-!
TOML documents: lines that hold a pair of a name and a value or the header of a table, and the table
that a whole document stands for.
-/

namespace Ttm.Toml

open Reader

def isBareChar (c : Char) : Bool := c.isAlphanum || c = '_' || c = '-'

def simpleName : Reader String := do
  match ← peek? with
  | some '"' | some '\'' => Quoted.oneLine
  | _ =>
    let cs ← takeWhile isBareChar
    guard !cs.isEmpty
    return String.ofList cs

/-- How deep brackets may nest. -/
def maxDepth : Nat := 79

/-- A name, or several with dots between them. -/
def dottedName : Reader (List String) := do
  let names ← chain do
    blanks
    let name ← simpleName
    blanks
    return (name, ← accept? '.')
  guard (names.length ≤ maxDepth)
  return names

/-- A pair of a name and a value. -/
def pair (value : Reader Value) : Reader (List String × Value) := do
  let name ← dottedName
  accept '='
  blanks
  return (name, ← value)

/-- An array behind its opening bracket. Its last item may have a comma behind it. -/
def array (item : Reader Value) : Reader Value := do
  gap
  if ← accept? ']' then return .array []
  let items ← chain do
    let v ← item
    gap
    if ← accept? ',' then
      gap
      return (v, !(← accept? ']'))
    else
      accept ']'
      return (v, false)
  return .array items

/-- A table in braces behind the opening one. -/
def inlineTable (value : Reader Value) : Reader Value := do
  blanks
  if ← accept? '\x7d' then return .table .inline []
  let pairs ← chain do
    let p ← pair value
    blanks
    if ← accept? ',' then return (p, true)
    else
      accept '\x7d'
      return (p, false)
  let entries ← StateT.lift (Entries.assignAll [] pairs)
  return .table .inline entries

/-- A value with brackets nested at most as deep as given. -/
def value : (depth : Nat) → Reader Value
  | 0 => plain
  | depth + 1 => do
    match ← peek? with
    | some '[' => do accept '['; array (value depth)
    | some '\x7b' => do accept '\x7b'; inlineTable (value depth)
    | _ => plain
where
  plain : Reader Value := do
    match ← peek? with
    | some '"' | some '\'' => return .string (← Quoted.string)
    | _ => word

inductive Line
  | blank
  | pair (name : List String) (value : Value)
  | header (name : List String) (repeated : Bool)

/-- The header of a table, or of one more of several tables, behind its first bracket. -/
def header : Reader Line := do
  let repeated ← accept? '['
  let name ← dottedName
  accept ']'
  if repeated then accept ']'
  return .header name repeated

def line : Reader Line := do
  blanks
  match ← peek? with
  | none | some '#' | some '\r' | some '\n' => do lineEnd; return .blank
  | some '[' => do
    accept '['
    let h ← header
    lineEnd
    return h
  | _ => do
    let (name, v) ← pair (value maxDepth)
    lineEnd
    return .pair name v

def lines : Reader (List Line) := chain do
  let l ← line
  return (l, (← peek?).isSome)

/-- The pairs before the first header, and the part below each header. -/
def sections : List Line → List (List String × Value) × List Section
  | [] => ([], [])
  | .blank :: rest => sections rest
  | .pair name v :: rest =>
    let (pairs, parts) := sections rest
    ((name, v) :: pairs, parts)
  | .header path repeated :: rest =>
    let (pairs, parts) := sections rest
    ([], ⟨path, repeated, pairs⟩ :: parts)

/-- The table of a document. A byte order mark in front of it does not count. -/
def parse? (text : String) : Option Entries := do
  let cs := match text.toList with
    | '\ufeff' :: cs => cs
    | cs => cs
  let (pairs, parts) := sections (← whole? lines cs)
  parts.foldlM (fun document part => part.addTo document) (← Entries.assignAll [] pairs)

end Ttm.Toml
