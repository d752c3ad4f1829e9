import Ttm.Toml.Reader
import Ttm.Toml.Value

/-!
Numbers and points in time of TOML documents, each written without blanks, except for one that may
stand between a date and a time.
-/

namespace Ttm.Toml

open Reader

namespace Number

/-- Digits, with single underscores between them. -/
def digits? (isDigit : Char → Bool) : List Char → Option (List Char)
  | [] => none
  | [c] => if isDigit c then some [c] else none
  | c :: '_' :: rest => if isDigit c then do return c :: (← digits? isDigit rest) else none
  | c :: rest => if isDigit c then do return c :: (← digits? isDigit rest) else none

def digitValue (c : Char) : Nat :=
  if c.isDigit then c.toNat - 48 else c.toLower.toNat - 87

def ofDigits (base : Nat) (digits : List Char) : Nat :=
  digits.foldl (fun n c => base * n + digitValue c) 0

/-- An integer of 64 bits, which after its leading zeros has at most 64 digits in any base. -/
def bounded? (negative : Bool) (base : Nat) (digits : List Char) : Option Value :=
  let significant := digits.dropWhile (· = '0')
  if 64 < significant.length then none
  else
    let magnitude : Int := ofDigits base significant
    let n := if negative then -magnitude else magnitude
    if -9223372036854775808 ≤ n ∧ n ≤ 9223372036854775807 then some (.integer n) else none

def inBase? (base : Nat) (isDigit : Char → Bool) (cs : List Char) : Option Value := do
  bounded? false base (← digits? isDigit cs)

/-- The whole part of a decimal number begins with no zero, unless it is zero. -/
def wholePart? (cs : List Char) : Option (List Char) := do
  let digits ← digits? Char.isDigit cs
  if digits.head? = some '0' ∧ digits ≠ ['0'] then none else some digits

/-- The least whole number that is too large for a double: halfway from the largest one to 2^1024.
It has 309 digits. -/
def doubleBound : Nat := Nat.pow 2 1024 - Nat.pow 2 970

/-- Whether a decimal number times 10^e is too large for a double. As the bound is whole, the
digits in front of the point decide. -/
def exceedsDouble (digits : List Char) (e : Int) : Bool :=
  let significant := digits.dropWhile (· = '0')
  let places : Int := significant.length + e
  if significant.isEmpty ∨ places < 309 then false
  else if 309 < places then true
  else
    let zeros := List.replicate (309 - significant.length) '0'
    doubleBound ≤ ofDigits 10 (significant.take 309 ++ zeros)

/-- An exponent reads no further than to the digit that brings it to `exponentBound`. -/
def exponentBound : Nat := 65536

def exponentOfDigits (digits : List Char) : Nat :=
  digits.foldl (fun n c => if n < exponentBound then 10 * n + digitValue c else n) 0

/-- The exponent of a float; an empty one is zero. -/
def exponent? : List Char → Option Int
  | [] => some 0
  | _ :: '+' :: cs => do return exponentOfDigits (← digits? Char.isDigit cs)
  | _ :: '-' :: cs => do return -exponentOfDigits (← digits? Char.isDigit cs)
  | _ :: cs => do return exponentOfDigits (← digits? Char.isDigit cs)

def isExponentMark (c : Char) : Bool := c = 'e' || c = 'E'

/-- A float of given sign. A positive one has to be finite. -/
def float? (negative : Bool) (cs : List Char) : Option Value := do
  let (mantissa, exponent) := cs.span (!isExponentMark ·)
  let (whole, fraction) := mantissa.span (· != '.')
  if exponent.isEmpty && fraction.isEmpty then none
  let whole ← wholePart? whole
  let fraction ← if fraction.isEmpty then some [] else digits? Char.isDigit fraction.tail
  let e ← exponent? exponent
  if !negative && exceedsDouble (whole ++ fraction) (e - fraction.length) then none
  else some .float

def unsigned? (negative : Bool) (cs : List Char) : Option Value :=
  if cs = "inf".toList ∨ cs = "nan".toList then some .float
  else match wholePart? cs with
    | some digits => bounded? negative 10 digits
    | none => float? negative cs

/-- Signs belong to decimal numbers. -/
def read? : List Char → Option Value
  | '+' :: cs => unsigned? false cs
  | '-' :: cs => unsigned? true cs
  | '0' :: 'x' :: cs =>
    inBase? 16 (fun c => c.isDigit || ('a' ≤ c && c ≤ 'f') || ('A' ≤ c && c ≤ 'F')) cs
  | '0' :: 'o' :: cs => inBase? 8 (fun c => '0' ≤ c && c ≤ '7') cs
  | '0' :: 'b' :: cs => inBase? 2 (fun c => c = '0' || c = '1') cs
  | cs => unsigned? false cs

end Number

namespace Date

/-- A number of `n` digits that lies between two bounds. -/
def field (n least most : Nat) : Reader Nat := fun cs =>
  let (digits, rest) := cs.splitAt n
  let value := Number.ofDigits 10 digits
  if digits.length = n ∧ digits.all Char.isDigit ∧ least ≤ value ∧ value ≤ most then
    some (value, rest)
  else none

def isLeap (year : Nat) : Bool := year % 4 == 0 && (year % 100 != 0 || year % 400 == 0)

def daysIn (year month : Nat) : Nat :=
  if month = 2 then if isLeap year then 29 else 28
  else if [4, 6, 9, 11].contains month then 30
  else 31

def date : Reader Unit := do
  let year ← field 4 0 9999
  accept '-'
  let month ← field 2 1 12
  accept '-'
  let _ ← field 2 1 (daysIn year month)

/-- A second may be a leap second. -/
def time : Reader Unit := do
  let _ ← field 2 0 23
  accept ':'
  let _ ← field 2 0 59
  accept ':'
  let _ ← field 2 0 60
  if ← accept? '.' then
    let fraction ← takeWhile Char.isDigit
    guard !fraction.isEmpty

/-- The offset of a time, where one is given. -/
def offset : Reader Unit := do
  match ← peek? with
  | some 'Z' => accept 'Z'
  | some 'z' => accept 'z'
  | some '+' => do accept '+'; hours
  | some '-' => do accept '-'; hours
  | _ => return
where
  hours : Reader Unit := do
    let _ ← field 2 0 23
    accept ':'
    let _ ← field 2 0 59

def dateTime : Reader Unit := do
  date
  if !(← accept? 'T') then accept 't'
  time
  offset

end Date

/-- The characters of numbers, dates and the words `true`, `false`, `inf` and `nan`. -/
def isWordChar (c : Char) : Bool :=
  c.isAlphanum || c = '_' || c = '+' || c = '-' || c = '.' || c = ':'

/-- A date may be followed by one blank and a time. -/
def timeAfterBlank : Reader Unit := fun cs =>
  match cs with
  | ' ' :: rest =>
    let (word, rest) := rest.span isWordChar
    match whole? (do Date.time; Date.offset) word with
    | some () => some ((), rest)
    | none => some ((), cs)
  | _ => some ((), cs)

/-- A value that is a single word. -/
def word : Reader Value := do
  let cs ← takeWhile isWordChar
  if cs = "true".toList then return .boolean true
  else if cs = "false".toList then return .boolean false
  else if (whole? Date.date cs).isSome then
    timeAfterBlank
    return .date
  else if (whole? Date.dateTime cs).isSome || (whole? Date.time cs).isSome then return .date
  else StateT.lift (Number.read? cs)

end Ttm.Toml
