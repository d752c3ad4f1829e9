import Ttm.Limits

/-!
The bounds of a build as the text of a file of constants.
-/

namespace Ttm.Limits

/-- Groups of constants: names, types and values. -/
def groups (l : Limits) : List (String × List (String × String × Nat)) :=
  [ ("file_processing",
      [ ("MAX_FILE_SIZE", "u64", l.maxFileSize),
        ("LARGE_FILE_THRESHOLD", "u64", l.largeFileThreshold) ]),
    ("lexical",
      [ ("MAX_STRING_LENGTH", "usize", l.maxStringLength),
        ("MAX_IDENTIFIER_LENGTH", "usize", l.maxIdentifierLength),
        ("MAX_TOKEN_COUNT", "usize", l.maxTokenCount) ]),
    ("scanner",
      [ ("MAX_SCOPE_DEPTH", "usize", l.maxScopeDepth), ("MAX_SYMBOLS", "usize", l.maxSymbols),
        ("MAX_LEXEMES", "usize", l.maxLexemes) ]),
    ("conversion", [("MAX_STATEMENT_LENGTH", "usize", l.maxStatementLength)]),
    ("logging",
      [ ("MAX_ERROR_COLLECTION", "usize", l.maxErrorCollection),
        ("LOG_BUFFER_SIZE", "usize", l.logBufferSize),
        ("MAX_LOG_EVENTS_PER_FILE", "usize", l.maxLogEventsPerFile) ]) ]

/-- The bounds alone, in the order of the listing. -/
def values (l : Limits) : List Nat := l.groups.flatMap fun (_, cs) => cs.map (·.2.2)

def constantText (name type : String) (value : Nat) : String :=
  s!"        pub const {name}: {type} = {value};\n"

def groupText (name : String) (constants : List (String × String × Nat)) : String :=
  s!"    pub mod {name} \x7b\n" ++ String.join (constants.map fun (n, t, v) => constantText n t v)
    ++ "    \x7d\n"

def listing (profile : String) (l : Limits) : String :=
  "\n// Generated compile-time constants from TOML configuration\n"
    ++ s!"// Profile: {profile}\n"
    ++ "// DO NOT EDIT - Generated by build.rs\n\npub mod compile_time \x7b\n"
    ++ "\n".intercalate (l.groups.map fun (name, constants) => groupText name constants)
    ++ "\x7d\n"

end Ttm.Limits
