import Ttm.Lexeme.Word
import Ttm.Program
import Ttm.Program.Error
import Ttm.Scope
import Ttm.Settings
import Ttm.Source.Token

/-!
From tokens to tables. Each token is classified; names are found in the current scope or declared
there, literals are interned, and a sign in front of an operand is written out as `(0 - operand)`.
At the end the whole program is checked for its entry point and for balanced brackets.
-/

namespace Ttm.Program

open Lexeme (Kind)
open Source (Token)

/-- Something worth telling about a scan. Failures are always told, the rest where the settings ask
for it. -/
inductive Note
  | declared (name scope : String) (kind : SymbolKind) (type : DataType) (line : Nat)
  | entered (scope : String) (depth line : Nat)
  | left (scope : String) (depth line : Nat)
  | failed (cause : Error)
  deriving DecidableEq, Repr

structure Metrics where
  tokens : Nat := 0
  lexemes : Nat := 0
  symbols : Nat := 0
  declarations : Nat := 0
  literalsInterned : Nat := 0
  literalReuses : Nat := 0
  unaryGroups : Nat := 0
  maxScopeDepth : Nat := 0
  deriving DecidableEq, Repr

namespace Scan

/-- A scan under way. `function` is the function declared last, `pendingType` the type that the next
declaration takes, and `signOpen` tells that a sign waits for its operand. Notes are kept newest
first. -/
structure State where
  settings : ScanSettings
  program : Program
  scopes : Scopes
  function : String := Symbol.globalScope
  pendingType : Option DataType := none
  signOpen : Bool := false
  metrics : Metrics := {}
  notes : List Note := []

abbrev Action := EStateM Error State

namespace State
variable (s : State)

def note (n : Note) : State := { s with notes := n :: s.notes }

/-- Notes what is told only where it is asked for. -/
def tell (asked : Bool) (n : Note) : State :=
  { s with notes := if asked then n :: s.notes else s.notes }

def addLexeme (l : Lexeme) : State :=
  { s with program.lexemes := s.program.lexemes.add l }

def addSymbol (x : Symbol) : State :=
  { s with program.symbols := s.program.symbols.add x }

def count (f : Metrics → Metrics) : State := { s with metrics := f s.metrics }

def beginFunction (name : String) : State :=
  { s with function := name, scopes := s.scopes.resetToGlobal }

/-- What the lexemes before the next one say it declares. -/
def declarationKind? : Option SymbolKind :=
  let lexemes := s.program.lexemes
  if lexemes.declaresFunction then some .function
  else if lexemes.declaresVariable then some .var
  else if lexemes.declaresDatatype then some .parameter
  else none

/-- A minus here is a sign: it stands right behind `=`, `(` or `ret`. -/
def expectsOperand : Bool :=
  (s.program.lexemes.last?.map (·.kind)).any fun k =>
    k == .assign || k == .openParen || k == .retWord

/-- The scope in which a name is looked up; functions are global. -/
def lookupScope (called : Bool) : String :=
  if called then Symbol.globalScope else s.scopes.current

end State

/-- Ends the scan, and notes the error where it arises. -/
def raise {α : Type} (e : Error) : Action α := fun s => .error e (s.note (.failed e))

def emit (kind : Kind) (line : Nat) (symbol : Option Nat := none) : Action Unit := fun s =>
  if s.program.lexemes.isFull then
    raise (.capacityExceeded .lexeme s.program.lexemes.capacity line) s
  else .ok () (s.addLexeme ⟨kind, line, symbol⟩)

def ofTableError (line : Nat) : Symbol.TableError → Error
  | .capacityExceeded max => .capacityExceeded .symbol max line
  | .duplicateKey _ name => .duplicateDeclaration name line

def insertSymbol (x : Symbol) (line : Nat) : Action Nat := fun s =>
  match s.program.symbols.refusal? x with
  | some e => raise (ofTableError line e) s
  | none => .ok s.program.symbols.size (s.addSymbol x)

/-- Adds a name to the current scope. A declaration uses up the pending type. -/
def insertDeclaration (name : String) (kind : SymbolKind) (line : Nat) : Action Nat := do
  let s ← get
  match s.pendingType with
  | none => raise (.missingDeclarationType name line)
  | some type =>
    let scope := s.scopes.current
    let index ← insertSymbol (.declared name scope s.program.lexemes.size type kind) line
    modify fun s =>
      { (s.tell s.settings.logSymbols (.declared name scope kind type line)).count
          (fun m => { m with declarations := m.declarations + 1 }) with pendingType := none }
    return index

def declare (name : String) (line : Nat) : Action Nat := do
  match (← get).declarationKind? with
  | none => raise (.undeclaredIdentifier name line)
  | some kind =>
    if kind = .function then modify (·.beginFunction name)
    insertDeclaration name kind line

def closeSign (line : Nat) : Action Unit := do
  emit .closeParen line
  modify ({ · with signOpen := false })

def scanIdentifier (name : String) (line : Nat) (called : Bool) : Action Unit := do
  let s ← get
  if name = s.scopes.current ∧ !called then raise (.selfReference name line)
  let symbol ←
    match s.program.symbols.lookup (s.lookupScope called) name with
    | some index =>
      if s.declarationKind?.isSome then raise (.duplicateDeclaration name line) else pure index
    | none => declare name line
  emit .identifier line symbol
  let s ← get
  if s.signOpen ∧ !s.program.symbols.isFunction symbol then closeSign line

/-- The entry point is a function that returns `i32` and is declared once. -/
def scanMain (line : Nat) : Action Unit := do
  let name := Kind.mainWord.text
  let s ← get
  let symbol ←
    match s.program.symbols.lookup Symbol.globalScope name with
    | some index =>
      if s.program.lexemes.declaresFunction then raise (.duplicateMain line) else pure index
    | none => do
      if !s.program.lexemes.declaresFunction then raise (.missingDeclarationKind name line)
      if s.pendingType ≠ some .i32 then raise (.missingDeclarationType name line)
      modify (·.beginFunction name)
      insertDeclaration name .function line
  emit .mainWord line symbol

/-- The symbol of a literal that the next lexeme uses. -/
def intern (type : DataType) (value : String) (line : Nat) : Action Nat := do
  let s ← get
  match s.program.symbols.lookupLiteral type value with
  | some index =>
    modify (·.count fun m => { m with literalReuses := m.literalReuses + 1 })
    return index
  | none =>
    let index ← insertSymbol (.literal s.program.lexemes.size type value) line
    modify (·.count fun m => { m with literalsInterned := m.literalsInterned + 1 })
    return index

def scanLiteral (type : DataType) (value : String) (line : Nat) : Action Unit := do
  let symbol ← intern type value line
  emit .literal line symbol
  if (← get).signOpen then closeSign line

/-- The largest integer literal. -/
def maxInteger : Nat := 2147483647

def scanInteger (text : String) (line : Nat) : Action Unit :=
  match Lexeme.decimal? maxInteger text.toList with
  | none => raise (.integerOutOfRange text line)
  | some value => scanLiteral .i32 (Nat.repr value) line

def scanString (text : String) (line : Nat) : Action Unit :=
  match text.toList.tail.dropLast with
  | [] => raise (.emptyStringLiteral line)
  | content => scanLiteral .str (String.ofList content) line

/-- Writes `(0 -`; the bracket is closed behind the operand. -/
def openSign (line : Nat) : Action Unit := do
  emit .openParen line
  let symbol ← intern .i32 "0" line
  emit .literal line symbol
  emit .minus line
  modify fun s => { s.count (fun m => { m with unaryGroups := m.unaryGroups + 1 }) with
    signOpen := true }

def enterScope (line : Nat) : Action Unit := fun s =>
  match s.scopes.enter s.function with
  | .ok scopes =>
    let depth := scopes.depth
    .ok () ({ s with scopes }.tell s.settings.logScopes (.entered s.function depth line))
  | .error (.tooDeep max) => raise (.scopeTooDeep max line) s
  | .error .underflow => raise (.unbalancedBrackets "scope stack underflow" (some line)) s

def leaveScope (line : Nat) : Action Unit := fun s =>
  match s.scopes.exit with
  | .ok scopes =>
    let scope := scopes.current
    let depth := scopes.depth
    .ok () ({ s with scopes }.tell s.settings.logScopes (.left scope depth line))
  | .error _ =>
    raise (.unbalancedBrackets "closing bracket without an opening bracket" (some line)) s

def scanDatatype (type : DataType) (line : Nat) : Action Unit := do
  modify ({ · with pendingType := some type })
  emit .datatype line

def scanMinus (line : Nat) : Action Unit := do
  if (← get).expectsOperand then openSign line else emit .minus line

variable [Limits]

/-- One token; `called` tells that an opening parenthesis follows. -/
def scanToken (token : Token) (called : Bool) : Action Unit :=
  match Kind.ofText? token.text with
  | none => raise (.unrecognizedToken token.text token.line)
  | some .i32 => scanDatatype .i32 token.line
  | some .str => scanDatatype .str token.line
  | some .mainWord => scanMain token.line
  | some .identifier => scanIdentifier token.text token.line called
  | some .integer => scanInteger token.text token.line
  | some .string => scanString token.text token.line
  | some .minus => scanMinus token.line
  | some kind => do
    if kind = .openBrace ∨ kind = .openParen then enterScope token.line
    if kind = .closeBrace ∨ kind = .closeParen then leaveScope token.line
    emit kind token.line

def opensCall (rest : List Token) : Bool := rest.head?.any (·.text == "(")

def scanTokens : List Token → Action Unit
  | [] => pure ()
  | token :: rest => do
    scanToken token (opensCall rest)
    scanTokens rest

/-- Opening and closing brackets of one form are equally many. -/
def checkPair (opening closing : Kind) (lexemes : Lexeme.Table) : Except Error Unit :=
  let opened := lexemes.countKind opening
  let closed := lexemes.countKind closing
  if opened = closed then .ok ()
  else .error (.unbalancedBrackets
    s!"{opened} '{opening.text}' against {closed} '{closing.text}'" none)

def checkStructure (lexemes : Lexeme.Table) : Except Error Unit := do
  if !lexemes.hasKind .mainWord then throw .missingMain
  checkPair .openParen .closeParen lexemes
  checkPair .openBrace .closeBrace lexemes

def registerLibrary (line : Nat) : Action Unit := fun s =>
  match s.program.symbols.registerLibrary with
  | (.ok _, symbols) => .ok () { s with program.symbols := symbols }
  | (.error e, symbols) => raise (ofTableError line e) { s with program.symbols := symbols }

def firstLine (tokens : List Token) : Nat := tokens.head?.elim 1 (·.line)

def run (tokens : List Token) : Action Metrics := do
  registerLibrary (firstLine tokens)
  scanTokens tokens
  let s ← get
  match checkStructure s.program.lexemes with
  | .error e => raise e
  | .ok () => return { s.metrics with
      tokens := tokens.length
      lexemes := s.program.lexemes.size
      symbols := s.program.symbols.size
      maxScopeDepth := s.scopes.deepest }

end Scan

/-- The tables as a scan leaves them, also when it fails, and what there is to tell about it. -/
structure Scanned where
  program : Program
  notes : List Note
  result : Except Error Metrics

/-- Adds the tokens to the tables. Brackets may nest `maxDepth` levels deep. -/
def scan [Limits] (settings : ScanSettings) (maxDepth : Nat) (tokens : List Token) (p : Program) :
    Scanned :=
  match Scan.run tokens
      ⟨settings, p, .global maxDepth, Symbol.globalScope, none, false, {}, []⟩ with
  | .ok metrics s => ⟨s.program, s.notes.reverse, .ok metrics⟩
  | .error e s => ⟨s.program, s.notes.reverse, .error e⟩

end Ttm.Program
