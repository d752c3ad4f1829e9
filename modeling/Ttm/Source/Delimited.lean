import Ttm.Byte
import Ttm.Source.Note

/-!
Delimited text: the source without comments and blanks, in which a delimiter byte stands between
any two tokens and every newline of the source is kept. String literals are copied as they are.
Sources are taken to stay below 2^32 bytes, so that lines and columns fit 32 bits.
-/

namespace Ttm.Source

namespace Delimited

/-- Where the reader stands. -/
inductive Mode
  | plain
  /-- Behind two slashes, up to the end of the line. -/
  | comment
  /-- Behind an opening quote and `held` bytes of content. -/
  | quoted (held : Nat)
  deriving DecidableEq, Repr

/-- The text written so far, its last byte first, the place of the byte read last, and notes, the
newest first. -/
structure Draft where
  written : List UInt8 := []
  line : Nat := 1
  column : Nat := 0
  ignored : Nat := 0
  comments : Nat := 0
  strings : Nat := 0
  notes : List Note := []
  deriving DecidableEq, Repr

namespace Draft
variable (d : Draft)

def note (n : Note) : Draft := { d with notes := n :: d.notes }

def write (b : UInt8) : Draft := { d with written := b :: d.written }

/-- Ends the token written last, if there is one. -/
def delimit : Draft :=
  match d.written with
  | [] => d
  | last :: _ => if last = Byte.delimiter then d else d.write Byte.delimiter

def advance : Draft := { d with column := d.column + 1 }

def skip : Draft := { d with ignored := d.ignored + 1 }

def endLine : Draft := { d.delimit.write Byte.newline with line := d.line + 1, column := 0 }

def endString : Draft := { d with strings := d.strings + 1 }

def beginComment : Draft := { d.skip with comments := d.comments + 1 }

/-- A text byte joins the text bytes before it and nothing else. -/
def writeText (t : ByteTable) (b : UInt8) : Draft :=
  match d.written with
  | [] => d.write b
  | last :: _ =>
    if last = Byte.delimiter ∨ t.isText last then d.write b
    else (d.write Byte.delimiter).write b

/-- An operator is a token of its own, but `=` joins a comparison byte. -/
def writeOperator (b : UInt8) : Draft :=
  if b = Byte.equals ∧ d.written.head?.any Byte.joinsEquals then d.write b
  else d.delimit.write b

def writeSeparator (b : UInt8) : Draft := (d.delimit.write b).write Byte.delimiter

/-- Writes the substitute where something other than a delimiter stands before it. -/
def writeSubstitute (b : UInt8) : Draft :=
  match d.written with
  | [] => d
  | last :: _ => if last = Byte.delimiter then d else d.write b

/-- What is counted when the text breaks off. -/
def metricsSoFar (bytesRead : Nat) : Metrics :=
  ⟨bytesRead, 0, d.ignored, d.comments, d.strings, 0⟩

def metrics (bytesRead : Nat) : Metrics :=
  { d.metricsSoFar bytesRead with lines := d.line, outputBytes := d.written.length }

end Draft

/-- Breaks off before a byte, and notes where it stands. -/
def refuse (b : UInt8) (d : Draft) : Except Error Mode × Draft :=
  let column := d.column + 1
  let e := .forbiddenCharacter b d.line column
  (.error e, d.note (.failed e "Forbidden character in source" (some (.atColumn d.line column))
    [("byte", "0x" ++ Text.hexByte b)]))

/-- A byte outside comments and string literals; `next` is the byte behind it. -/
def plainStep (t : ByteTable) (b : UInt8) (next : Option UInt8) (d : Draft) :
    Except Error Mode × Draft :=
  if b = Byte.newline then (.ok .plain, d.endLine)
  else if b = Byte.slash ∧ next = some Byte.slash then (.ok .comment, d.advance.beginComment)
  else match t.classOf b with
    | .text => (.ok .plain, d.advance.writeText t b)
    | .forbidden => refuse b d
    | .ignored => (.ok .plain, d.advance.skip)
    | .operator => (.ok .plain, d.advance.writeOperator b)
    | .quote => (.ok (.quoted 0), d.advance.delimit.write b)
    | .separator => (.ok .plain, d.advance.writeSeparator b)
    | .substitute s => (.ok .plain, d.advance.writeSubstitute s)

/-- One byte. A string literal left open ends before the newline, or before the first byte of
content above the limit, and that byte is read as if it stood outside. -/
def step (t : ByteTable) (maxString : Nat) (mode : Mode) (b : UInt8) (next : Option UInt8)
    (d : Draft) : Except Error Mode × Draft :=
  match mode with
  | .plain => plainStep t b next d
  | .comment =>
    if b = Byte.newline then (.ok .plain, d.skip.endLine) else (.ok .comment, d.advance.skip)
  | .quoted held =>
    if b = Byte.newline then plainStep t b next d.endString
    else if b = Byte.delimiter then refuse b d
    else if t.isQuote b then (.ok .plain, (d.advance.write b).endString)
    else if maxString ≤ held then plainStep t b next d.endString
    else (.ok (.quoted (held + 1)), d.advance.write b)

/-- Reads to the end, or to the first byte that is not allowed. -/
def read (t : ByteTable) (maxString : Nat) : Mode → List UInt8 → Draft → Except Error Mode × Draft
  | mode, [], d => (.ok mode, d)
  | mode, b :: rest, d =>
    match step t maxString mode b rest.head? d with
    | (.ok mode', d') => read t maxString mode' rest d'
    | (.error e, d') => (.error e, d')

/-- A string literal that the text ends in is counted too. -/
def finish (mode : Mode) (d : Draft) : Draft :=
  match mode with
  | .quoted _ => d.endString
  | _ => d

def quoteCount (t : ByteTable) (text : List UInt8) : Nat := text.countP t.isQuote

/-- What becomes of a source text: its delimited form, the counts made on the way, and what there is
to tell. -/
structure Delimiting where
  result : Except Error (List UInt8)
  metrics : Metrics
  notes : List Note

/-- Delimits `source`. At its end the quotes that were written are counted. -/
def delimit (t : ByteTable) (maxString : Nat) (source : List UInt8) : Delimiting :=
  match read t maxString .plain source {} with
  | (.error e, d) => ⟨.error e, d.metricsSoFar source.length, d.notes.reverse⟩
  | (.ok mode, d) =>
    let d := finish mode d
    let quotes := quoteCount t d.written
    if quotes % 2 = 0 then ⟨.ok d.written.reverse, d.metrics source.length, d.notes.reverse⟩
    else
      let e := .unbalancedQuotes quotes
      let d := d.note (.failed e "Unbalanced quote characters" none [("quotes", Nat.repr quotes)])
      ⟨.error e, d.metricsSoFar source.length, d.notes.reverse⟩

/-- The delimited text of `source`, and the counts made on the way. -/
def ofSource (t : ByteTable) (maxString : Nat) (source : List UInt8) :
    Except Error (List UInt8) × Metrics :=
  let d := delimit t maxString source
  (d.result, d.metrics)

theorem ofSource_eq {t : ByteTable} {maxString : Nat} {source : List UInt8} :
    ofSource t maxString source =
      match read t maxString .plain source {} with
      | (.error e, d) => (.error e, d.metricsSoFar source.length)
      | (.ok mode, d) =>
        if quoteCount t (finish mode d).written % 2 = 0 then
          (.ok (finish mode d).written.reverse, (finish mode d).metrics source.length)
        else
          (.error (.unbalancedQuotes (quoteCount t (finish mode d).written)),
            (finish mode d).metricsSoFar source.length) := by
  unfold ofSource delimit
  rcases read t maxString .plain source {} with ⟨e | mode, d⟩
  · rfl
  · simp only
    split <;> rfl

end Delimited
end Ttm.Source
