import Ttm.Compile.Overview

/-!
What the program says about its own use.
-/

namespace Ttm.Command

def version : String := "0.1.0"

/-- The lines that follow a complaint about a command line. -/
def usage (program : String) : String :=
  s!"Usage: {program} <input.ttm> [options]\n       {program} --help\n"

def help (program : String) (o : Compile.Overview) : String :=
  s!"TTM Compiler v{version}\n{o.summary}\n\n"
    ++ s!"USAGE:\n    {program} <input.ttm> [options]\n\n"
    ++ "OPTIONS:\n"
    ++ "    --lex <path>       Write the lexeme table, one row per source line\n"
    ++ "    --id <path>        Write the symbol table\n"
    ++ "    --json <path>      Write both tables as JSON\n"
    ++ "    --log <path>       Mirror every log event into a file\n"
    ++ "    --config <path>    Load runtime preferences from a TOML file\n"
    ++ "    --help             Show this help message\n\n"
    ++ "EXIT STATUS:\n    0 on success, 1 on the first diagnosed error\n\n"
    ++ s!"{o.report}\n"

end Ttm.Command
