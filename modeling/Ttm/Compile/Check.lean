import Ttm.Lexeme.Word
import Ttm.Limits
import Ttm.Log.Event

/-!
The check of the stages before a run: their codes have to be on record, and the keyword of the entry
point has to be known.
-/

namespace Ttm.Compile

open Log (Event)

/-- A stage with the codes it reports and what is logged about its bounds. -/
structure Stage where
  name : String
  codes : List Code
  bounds : Event

namespace Stage

def limitsEvent (message : String) (bounds : List (String × Nat)) : Event :=
  (Event.debug message).withContext (bounds.map fun (name, n) => (name, Nat.repr n))

def all (l : Limits) : List Stage :=
  [ { name := "File processor"
      codes := [.fileOpenFailure, .fileTooLarge]
      bounds := limitsEvent "File processor compile-time configuration loaded"
        [("max_file_size", l.maxFileSize), ("large_file_threshold", l.largeFileThreshold)] },
    { name := "Lexical"
      codes := [.forbiddenCharacter, .unbalancedQuotes, .tooManyTokens]
      bounds := limitsEvent "Lexical compile-time limits loaded"
        [ ("max_string_length", l.maxStringLength),
          ("max_identifier_length", l.maxIdentifierLength),
          ("max_token_count", l.maxTokenCount) ] },
    { name := "Scanner"
      codes :=
        [ .unrecognizedToken, .integerOutOfRange, .missingDeclarationKind, .missingDeclarationType,
          .duplicateDeclaration, .undeclaredIdentifier, .selfReference, .emptyStringLiteral,
          .unbalancedBrackets, .missingEntryPoint, .duplicateEntryPoint, .scopeTooDeep,
          .tableCapacityExceeded ]
      bounds := limitsEvent "Scanner compile-time limits loaded"
        [ ("max_scope_depth", l.maxScopeDepth), ("max_symbols", l.maxSymbols),
          ("max_lexemes", l.maxLexemes) ] },
    { name := "Polish"
      codes := [.malformedExpression, .missingTerminator]
      bounds := limitsEvent "Conversion limits loaded"
        [("max_statement_length", l.maxStatementLength)] } ]

/-- Logs the bounds of each stage whose codes are on record. -/
def checkAll : List Stage → List Event × Except String Unit
  | [] => ([], .ok ())
  | s :: rest =>
    match Code.firstUnregistered? s.codes with
    | some c => ([], .error (Code.unregisteredMessage s.name c))
    | none =>
      let (events, result) := checkAll rest
      (s.bounds :: events, result)

end Stage

def checked : Event :=
  (Event.success .initialized "Complete pipeline validation succeeded").withContext
    [ ("stages_validated", "4"), ("file_processing", "true"), ("lexical_analysis", "true"),
      ("scanning", "true"), ("conversion", "true") ]

/-- What checking all stages logs, and the complaint where something is missing. -/
def check (limits : Limits) : List Event × Except String Unit :=
  let start := Event.debug "Validating complete pipeline configuration"
  match Stage.checkAll (Stage.all limits) with
  | (events, .error complaint) => (start :: events, .error complaint)
  | (events, .ok ()) =>
    if Lexeme.Kind.ofText? "main" = some .mainWord then (start :: events ++ [checked], .ok ())
    else
      (start :: events, .error "Lexeme matchers do not recognize the entry point keyword")

end Ttm.Compile
