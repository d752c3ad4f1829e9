import Ttm.Source.Error

/-!
What reading a source yields beside its delimited text: counts, raw tokens, and what there is to
tell about it.
-/

namespace Ttm.Source

/-- Counts over one source text. -/
structure Metrics where
  bytesRead : Nat := 0
  lines : Nat := 0
  ignoredBytes : Nat := 0
  comments : Nat := 0
  stringLiterals : Nat := 0
  outputBytes : Nat := 0
  deriving DecidableEq, Repr

/-- A raw token: the text between two delimiters and the line it starts on. -/
structure Token where
  text : String
  line : Nat
  deriving DecidableEq, Repr

/-- Something worth telling about the reading of a source. Failures are always told, with the words,
the place and the facts that the reader finds for them. -/
inductive Note
  | failed (cause : Error) (words : String) (position : Option Position)
    (facts : List (String × String))
  /-- The source is delimited; its counts are told where `detailed` asks for them. -/
  | delimited (metrics : Metrics) (detailed : Bool)
  | token (t : Token)
  | split (count : Nat)
  deriving DecidableEq, Repr

end Ttm.Source
