/-!
Readers: functions that take a part from the front of a text, or fail.
-/

namespace Ttm.Toml

/-- Takes something from the front of a text and leaves the rest. -/
abbrev Reader := StateT (List Char) Option

namespace Reader

/-- The next character, left in place. -/
def peek? : Reader (Option Char) := fun cs => some (cs.head?, cs)

def accept (c : Char) : Reader Unit
  | d :: rest => if c = d then some ((), rest) else none
  | [] => none

/-- Takes a character if it comes next. -/
def accept? (c : Char) : Reader Bool
  | d :: rest => if c = d then some (true, rest) else some (false, d :: rest)
  | [] => some (false, [])

/-- Takes all characters up to the first that does not belong. -/
def takeWhile (p : Char → Bool) : Reader (List Char) := fun cs => some (cs.span p)

/-- Repeats a step up to the one that says that nothing follows. Every other step has to take
something, so the text itself bounds their number. -/
def chain {α : Type} (step : Reader (α × Bool)) : Reader (List α) := fun cs => go cs cs
where
  go : List Char → Reader (List α)
    | [] => do
      let (a, more) ← step
      guard !more
      return [a]
    | _ :: bound => do
      let (a, more) ← step
      if more then return a :: (← go bound) else return [a]

/-- The result of a reader that takes the whole of a text. -/
def whole? {α : Type} (r : Reader α) (cs : List Char) : Option α :=
  match r cs with
  | some (a, []) => some a
  | _ => none

end Reader

open Reader

def isBlank (c : Char) : Bool := c = ' ' || c = '\t'

/-- May stand in comments and in one-line literal strings. -/
def isPrintable (c : Char) : Bool :=
  c = '\t' || ('\x20' ≤ c && c ≤ '\x7e') || '\u0080' ≤ c

def blanks : Reader Unit := do
  let _ ← takeWhile isBlank

/-- A line feed, with or without a carriage return in front. -/
def newline : Reader Unit
  | '\n' :: rest => some ((), rest)
  | '\r' :: '\n' :: rest => some ((), rest)
  | _ => none

/-- The rest of a line with nothing in it but a comment. -/
def lineEnd : Reader Unit := do
  blanks
  if ← accept? '#' then
    let _ ← takeWhile isPrintable
  match ← peek? with
  | none => return
  | some _ => newline

/-- Blanks, line ends and comments. -/
def gap : Reader Unit := fun cs => (skip false cs).map ((), ·)
where
  skip : Bool → List Char → Option (List Char)
    | _, [] => some []
    | _, '\r' :: '\n' :: rest => skip false rest
    | _, '\n' :: rest => skip false rest
    | true, c :: rest => if isPrintable c then skip true rest else none
    | false, '#' :: rest => skip true rest
    | false, c :: rest => if isBlank c then skip false rest else some (c :: rest)

end Ttm.Toml
