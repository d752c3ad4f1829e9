import Mathlib.Data.List.TakeWhile
import Ttm.Source.Token

/-!
A direct tokenizer: it reads a source from left to right and takes each token as long as it can be.
No delimited text stands between the source and its tokens.
-/

namespace Ttm.Source

namespace Munch

def isBlank (b : UInt8) : Bool := b == 0x20 || b == 0x09 || b == 0x0D

/-- A carriage return does not end a word. -/
def inWord (b : UInt8) : Bool := Byte.isWord b || b == 0x0D

/-- A carriage return does not keep `=` from its operator. -/
def inComparison (b : UInt8) : Bool := b == Byte.equals || b == 0x0D

/-- The bytes `+ - * / % ( ) { } , ;`. -/
def isSingle (b : UInt8) : Bool :=
  b == 0x3B || (Byte.operators.contains b && !Byte.joinsEquals b)

def inQuotes (b : UInt8) : Bool :=
  b != Byte.quote && b != Byte.newline && b != Byte.delimiter

/-- A string literal behind its opening quote: its content and what follows the closing quote. -/
def literal? (maxString : Nat) (rest : List UInt8) : Option (List UInt8 × List UInt8) :=
  match rest.dropWhile inQuotes with
  | [] => none
  | b :: behind =>
    let content := rest.takeWhile inQuotes
    if b = Byte.quote ∧ content.length ≤ maxString then some (content, behind) else none

variable {maxString : Nat} {rest content behind : List UInt8}

theorem literal?_eq_some (h : literal? maxString rest = some (content, behind)) :
    rest = content ++ Byte.quote :: behind ∧ (∀ c ∈ content, inQuotes c) ∧
      content.length ≤ maxString := by
  simp only [literal?] at h
  split at h
  · simp at h
  · next b tail heq =>
    split at h
    · next hb =>
      rw [Option.some.injEq, Prod.mk.injEq] at h
      obtain ⟨rfl, rfl⟩ := h
      refine ⟨?_, fun c hc => List.mem_takeWhile_imp hc, hb.2⟩
      rw [← hb.1, ← heq, List.takeWhile_append_dropWhile]
    · simp at h

theorem length_of_literal? (h : literal? maxString rest = some (content, behind)) :
    behind.length < rest.length := by
  rw [(literal?_eq_some h).1, List.length_append, List.length_cons]
  omega

end Munch

open Munch

/-- The tokens of a source that begins at `line`. There are none if a byte is not allowed where it
stands, or a quote is not closed on its line behind at most `maxString` bytes. -/
def munch (maxString line : Nat) (source : List UInt8) : Option (List Token) :=
  match source with
  | [] => some []
  | b :: rest =>
    if b = Byte.newline then munch maxString (line + 1) rest
    else if b = Byte.slash ∧ rest.head? = some Byte.slash then
      munch maxString line (rest.dropWhile (· != Byte.newline))
    else if isBlank b then munch maxString line rest
    else if Byte.isWord b then
      (munch maxString line (rest.dropWhile inWord)).map
        (⟨Token.textOfBytes (b :: (rest.takeWhile inWord).filter Byte.isWord), line⟩ :: ·)
    else if Byte.joinsEquals b then
      (munch maxString line (rest.dropWhile inComparison)).map
        (⟨Token.textOfBytes (b :: (rest.takeWhile inComparison).filter (· == Byte.equals)), line⟩
          :: ·)
    else if isSingle b then
      (munch maxString line rest).map (⟨Token.textOfBytes [b], line⟩ :: ·)
    else if b = Byte.quote then
      match _h : literal? maxString rest with
      | none => none
      | some (content, behind) =>
        (munch maxString line behind).map
          (⟨Token.textOfBytes (Byte.quote :: content ++ [Byte.quote]), line⟩ :: ·)
    else none
termination_by source.length
decreasing_by
  all_goals simp only [List.length_cons]
  all_goals first
    | exact Nat.lt_succ_of_le (List.length_dropWhile_le _ _)
    | exact Nat.lt_succ_of_lt (length_of_literal? _h)
    | omega

end Ttm.Source
