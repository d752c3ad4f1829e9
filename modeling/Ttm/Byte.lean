/-!
Byte classes. A table gives every byte one class; the standard table is the one of the language.
-/

namespace Ttm

/-- What a byte means outside comments and string literals. -/
inductive ByteClass
  /-- Part of a name, keyword or number. -/
  | text
  | forbidden
  /-- Dropped without ending a token. -/
  | ignored
  /-- A token of its own. -/
  | operator
  | quote
  /-- A token of its own that always ends here. -/
  | separator
  /-- Replaced by the given byte where text stands before it. -/
  | substitute (byte : UInt8)
  deriving DecidableEq, Repr

namespace Byte

/-- Ends a token in delimited text. -/
def delimiter : UInt8 := 0x1F
def newline : UInt8 := 0x0A
def quote : UInt8 := 0x27
def slash : UInt8 := 0x2F
def equals : UInt8 := 0x3D

def isWord (b : UInt8) : Bool :=
  (0x61 ≤ b && b ≤ 0x7A) || (0x41 ≤ b && b ≤ 0x5A) || (0x30 ≤ b && b ≤ 0x39) || b == 0x5F

/-- The bytes `+ - * / % = < > ! ( ) { } ,`. -/
def operators : List UInt8 :=
  [0x2B, 0x2D, 0x2A, 0x2F, 0x25, 0x3D, 0x3C, 0x3E, 0x21, 0x28, 0x29, 0x7B, 0x7D, 0x2C]

/-- The comparison bytes `= ! < >`, which a following `=` joins. -/
def joinsEquals (b : UInt8) : Bool :=
  b == 0x3D || b == 0x21 || b == 0x3C || b == 0x3E

end Byte

/-- A class for each of the 256 bytes. -/
structure ByteTable where
  classes : Vector ByteClass 256

namespace ByteTable
variable (t : ByteTable) (c : ByteClass)

def classOf (b : UInt8) : ByteClass := t.classes[b.toFin]

def ofClasses (f : UInt8 → ByteClass) : ByteTable := ⟨Vector.ofFn fun i => f (UInt8.ofFin i)⟩

@[simp]
theorem classOf_ofClasses (f : UInt8 → ByteClass) (b : UInt8) : (ofClasses f).classOf b = f b := by
  simp [classOf, ofClasses]

def isText (b : UInt8) : Bool := t.classOf b == .text

def isQuote (b : UInt8) : Bool := t.classOf b == .quote

def allForbidden : ByteTable := ofClasses fun _ => .forbidden

/-- The table of the language. -/
def standard : ByteTable := ofClasses fun b =>
  if Byte.isWord b then .text
  else if b == 0x20 || b == 0x09 || b == Byte.newline then .substitute Byte.delimiter
  else if b == 0x0D then .ignored
  else if Byte.operators.contains b then .operator
  else if b == 0x3B then .separator
  else if b == Byte.quote then .quote
  else .forbidden

def set (byte : UInt8) : ByteTable := ⟨t.classes.set byte.toNat c byte.toNat_lt⟩

/-- Both ends belong to the range; it is empty when `lo` is above `hi`. -/
def setRange (lo hi : UInt8) : ByteTable :=
  ofClasses fun b => if lo ≤ b && b ≤ hi then c else t.classOf b

def setAll (bytes : List UInt8) : ByteTable := bytes.foldl (fun t b => t.set c b) t

end ByteTable
end Ttm
