/-!
Command lines: options that take a path, a request for help, and at most one source file. Whatever
follows an option is its path. An option that is given again counts the last time.
-/

namespace Ttm.Command

/-- An option that takes a path. -/
inductive Flag
  | lex
  | id
  | json
  | log
  | config
  deriving DecidableEq, Repr

namespace Flag

def all : List Flag := [lex, id, json, log, config]

def text : Flag → String
  | lex => "--lex"
  | id => "--id"
  | json => "--json"
  | log => "--log"
  | config => "--config"

def ofText? (s : String) : Option Flag := all.find? (·.text == s)

end Flag

inductive UsageError
  | unknownOption (argument : String)
  | unexpectedArgument (argument : String)
  | missingPath (flag : Flag)
  deriving DecidableEq, Repr

def UsageError.message : UsageError → String
  | unknownOption argument => s!"Unknown option '{argument}'"
  | unexpectedArgument argument => s!"Unexpected argument '{argument}'"
  | missingPath flag => s!"{flag.text} requires a path"

structure Options where
  input : Option String := none
  lex : Option String := none
  id : Option String := none
  json : Option String := none
  log : Option String := none
  config : Option String := none
  help : Bool := false
  deriving DecidableEq, Repr

namespace Options

def set (path : String) (o : Options) : Flag → Options
  | .lex => { o with lex := some path }
  | .id => { o with id := some path }
  | .json => { o with json := some path }
  | .log => { o with log := some path }
  | .config => { o with config := some path }

/-- Takes the source file, of which there is one. -/
def setInput (o : Options) (input : String) : Except UsageError Options :=
  if o.input.isSome then .error (.unexpectedArgument input)
  else .ok { o with input := some input }

/-- Reads arguments on top of those read before. -/
def readFrom (o : Options) : List String → Except UsageError Options
  | [] => .ok o
  | argument :: rest =>
    if argument = "--help" then readFrom { o with help := true } rest
    else match Flag.ofText? argument with
      | some flag =>
        match rest with
        | path :: rest => readFrom (o.set path flag) rest
        | [] => .error (.missingPath flag)
      | none =>
        if argument.startsWith "--" then .error (.unknownOption argument)
        else do readFrom (← o.setInput argument) rest

def read (arguments : List String) : Except UsageError Options := readFrom {} arguments

end Options
end Ttm.Command
