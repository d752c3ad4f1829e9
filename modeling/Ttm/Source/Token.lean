import Ttm.Limits
import Ttm.Settings
import Ttm.Source.Delimited

/-!
Raw tokens: the texts between the delimiters, each with the line it starts on. Bytes of a token are
read as the characters of the same number. As for delimited text, lines are taken to fit 32 bits.
-/

namespace Ttm.Source

namespace Token

def charOfByte (b : UInt8) : Char := Char.ofNat b.toNat

def textOfBytes (bytes : List UInt8) : String := String.ofList (bytes.map charOfByte)

/-- Puts a byte in front of the first segment, or begins a new one at a delimiter. -/
def consByte (b : UInt8) (segments : List (List UInt8)) : List (List UInt8) :=
  if b = Byte.delimiter then [] :: segments
  else match segments with
    | [] => [[b]]
    | first :: rest => (b :: first) :: rest

/-- The parts of a delimited text, empty ones among them. -/
def segments (text : List UInt8) : List (List UInt8) := text.foldr consByte [[]]

/-- Newlines only: such a segment holds no token and moves the line on. -/
def isLineMark (segment : List UInt8) : Bool := segment.all (· == Byte.newline)

/-- A splitting under way: the tokens found so far, the line of the next one, and notes, the newest
first. -/
structure Found where
  tokens : Array Token := #[]
  line : Nat := 1
  notes : List Note := []

namespace Found
variable (f : Found)

def note (n : Note) : Found := { f with notes := n :: f.notes }

def skipLines (n : Nat) : Found := { f with line := f.line + n }

/-- Adds a token, and notes it where tokens are traced. -/
def add (trace : Bool) (text : String) : Found :=
  let token := ⟨text, f.line⟩
  { f with
    tokens := f.tokens.push token
    notes := if trace then .token token :: f.notes else f.notes }

end Found

/-- Goes through the parts of a text, and stops at a token that is one more than allowed. -/
def find (trace : Bool) (max : Nat) : List (List UInt8) → Found → Except Error Unit × Found
  | [], f => (.ok (), f)
  | segment :: rest, f =>
    if isLineMark segment then find trace max rest (f.skipLines segment.length)
    else if max ≤ f.tokens.size then
      let e := .tooManyTokens (f.tokens.size + 1) max f.line
      (.error e, f.note (.failed e "Token limit exceeded" none
        [("limit", Nat.repr max), ("line", Nat.repr f.line)]))
    else find trace max rest (f.add trace (textOfBytes segment))

/-- What becomes of a delimited text. -/
structure Splitting where
  result : Except Error (List Token)
  notes : List Note

/-- Splits a delimited text into at most `max` tokens. -/
def split (trace : Bool) (max : Nat) (text : List UInt8) : Splitting :=
  let (outcome, f) := find trace max (segments text) {}
  ⟨outcome.map fun _ => f.tokens.toList, f.notes.reverse⟩

end Token

/-- The tokens of a source text and the counts made on the way. -/
structure Tokens where
  tokens : List Token
  metrics : Metrics
  deriving DecidableEq, Repr

/-- What becomes of a source text, and what there is to tell about it. -/
structure Reading where
  result : Except Error Tokens
  notes : List Note

/-- Reads a source in the language, within the limits of a build. -/
def read (limits : Limits) (settings : LexicalSettings) (source : List UInt8) : Reading :=
  let d := Delimited.delimit .standard limits.maxStringLength source
  match d.result with
  | .error e => ⟨.error e, d.notes⟩
  | .ok text =>
    let s := Token.split settings.traceTokens limits.maxTokenCount text
    let notes := d.notes ++ .delimited d.metrics settings.detailedMetrics :: s.notes
    match s.result with
    | .error e => ⟨.error e, notes⟩
    | .ok tokens => ⟨.ok ⟨tokens, d.metrics⟩, notes ++ [.split tokens.length]⟩

def tokenize (limits : Limits) (source : List UInt8) : Except Error Tokens :=
  (read limits {} source).result

end Ttm.Source
