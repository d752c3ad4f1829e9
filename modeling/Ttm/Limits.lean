/-!
The bounds a build works under, and the rules a set of bounds has to meet.
-/

namespace Ttm

/-- A build fixes its bounds, so what depends on one of them finds it by instance. -/
class Limits where
  maxFileSize : Nat
  largeFileThreshold : Nat
  /-- Bounds the content between the quotes. -/
  maxStringLength : Nat
  maxIdentifierLength : Nat
  maxTokenCount : Nat
  maxScopeDepth : Nat
  maxSymbols : Nat
  maxLexemes : Nat
  maxStatementLength : Nat
  maxErrorCollection : Nat
  logBufferSize : Nat
  maxLogEventsPerFile : Nat
  deriving DecidableEq, Repr

namespace Limits

/-- The bounds of a development build. -/
@[reducible]
def development : Limits where
  maxFileSize := 10485760
  largeFileThreshold := 1048576
  maxStringLength := 255
  maxIdentifierLength := 64
  maxTokenCount := 1000000
  maxScopeDepth := 64
  maxSymbols := 65536
  maxLexemes := 1000000
  maxStatementLength := 4096
  maxErrorCollection := 1000
  logBufferSize := 10000
  maxLogEventsPerFile := 1000

/-- A rule that a set of bounds can break. -/
inductive Rule
  | fileSize
  | largeFileThreshold
  | stringLength
  | scopeDepth
  | lexemes
  | logEvents
  | productionFileSize
  deriving DecidableEq, Repr

namespace Rule

/-- In the order in which they are checked. -/
def all : List Rule :=
  [fileSize, largeFileThreshold, stringLength, scopeDepth, lexemes, logEvents, productionFileSize]

def message : Rule → String
  | fileSize => "LIMITS: max_file_size exceeds absolute maximum"
  | largeFileThreshold => "LIMITS: large_file_threshold exceeds max_file_size"
  | stringLength => "LIMITS: max_string_length must leave room for both quotes"
  | scopeDepth => "LIMITS: max_scope_depth must be within 1..=1024"
  | lexemes => "LIMITS: max_lexemes must cover max_token_count"
  | logEvents => "LIMITS: max_log_events_per_file exceeds log_buffer_size"
  | productionFileSize => "PRODUCTION: max_file_size too high for production"

end Rule

variable (l : Limits)

/-- Whether a rule holds of the bounds of a build with the given profile. -/
def meets (profile : String) : Rule → Bool
  | .fileSize => l.maxFileSize ≤ 1000000000
  | .largeFileThreshold => l.largeFileThreshold ≤ l.maxFileSize
  | .stringLength => 2 ≤ l.maxStringLength
  | .scopeDepth => 1 ≤ l.maxScopeDepth ∧ l.maxScopeDepth ≤ 1024
  | .lexemes => l.maxTokenCount ≤ l.maxLexemes
  | .logEvents => l.maxLogEventsPerFile ≤ l.logBufferSize
  | .productionFileSize => profile ≠ "production" ∨ l.maxFileSize ≤ 50000000

/-- The first rule that does not hold. -/
def brokenRule? (profile : String) : Option Rule := Rule.all.find? (!l.meets profile ·)

/-- Bounds that logging can start with. -/
def admitsLogging : Bool :=
  100 ≤ l.logBufferSize ∧ l.logBufferSize ≤ 100000 ∧ l.maxLogEventsPerFile ≤ l.logBufferSize

end Limits
end Ttm
