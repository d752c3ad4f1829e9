import Ttm.Lexeme.Word
import Ttm.Program.Scan
import Ttm.Proofs.Core.Sign

/-! Programs of functions, declarations and statements, and when they are well-formed. -/
namespace Ttm.Core

open Lexeme (Kind)
open Postfix (Level Tree Role)
open Ttm.Symbol (Declaration Signature)

/-- A parameter or a local variable. -/
structure Variable where
  type : DataType
  name : String
  deriving DecidableEq

inductive Statement
  | assign (name : String) (e : Expr .sum true)
  | ret (e : Expr .sum true)
  | echo (e : Expr .sum false)
  | callNone (callee : String)
  | call (callee : String) (arguments : Expr .list true)

/-- A function; the one named `main` is the entry point. -/
structure Function where
  type : DataType
  name : String
  parameters : List Variable
  locals : List Variable
  body : List Statement

def semicolon : Word := .mark .semicolon

namespace Statement

variable (scope : String)

/-- A sign may begin the expression of the statement. -/
def allowsSign : Statement → Bool
  | assign .. | ret _ => true
  | echo _ | callNone _ | call .. => false

def expression : (s : Statement) → Expr .sum s.allowsSign
  | assign _ e | ret e | echo e => e
  | callNone callee => .ofProduct (.ofFactor (.callNone callee))
  | call callee arguments => .ofProduct (.ofFactor (.call callee arguments))

/-- The words in front of the expression. -/
def lead : Statement → List Word
  | assign name _ => [.var scope name, .mark .assign]
  | ret _ => [.mark .retWord]
  | echo _ => [.mark .echoWord]
  | callNone _ | call .. => []

def words (s : Statement) : List Word :=
  s.lead scope ++ s.expression.words scope ++ [semicolon]

end Statement

namespace Function

variable (f : Function)

def isEntry : Bool := f.name == Kind.mainWord.text

def nameWord : Word := if f.isEntry then .entry else .function f.name

def vars : List Variable := f.parameters ++ f.locals

def parameterWords (v : Variable) : List Word := [.datatype v.type, .var f.name v.name]

def localWords (v : Variable) : List Word :=
  [.mark .letWord, .datatype v.type, .var f.name v.name, semicolon]

def parameterList : List Word :=
  match f.parameters with
  | [] => []
  | v :: rest => f.parameterWords v ++ rest.flatMap (Expr.comma :: f.parameterWords ·)

/-- The words up to the first statement. -/
def header : List Word :=
  [.mark .fnWord, .datatype f.type, f.nameWord, Expr.opening] ++ f.parameterList
    ++ [Expr.closing, .mark .openBrace] ++ f.locals.flatMap f.localWords

def words : List Word :=
  f.header ++ f.body.flatMap (·.words f.name) ++ [.mark .closeBrace]

/-- The names that the function declares. -/
def declarations : List Declaration :=
  ⟨Symbol.globalScope, f.name, .function⟩ :: f.parameters.map (⟨f.name, ·.name, .parameter⟩)
    ++ f.locals.map (⟨f.name, ·.name, .var⟩)

end Function

/-- A name that is no keyword. -/
def IsName [Limits] (name : String) : Prop := Kind.ofText? name = some .identifier

instance [Limits] (name : String) : Decidable (IsName name) := inferInstanceAs (Decidable (_ = _))

namespace Expr

variable (vars callees : List String)

/-- Literals are in range, variables and callees are among those given. -/
def Uses : {level : Level} → {first : Bool} → Expr level first → Prop
  | _, _, integer digits =>
    Lexeme.isInteger digits.toList ∧ decimal digits ≤ Program.Scan.maxInteger
  | _, _, text content => content ≠ "" ∧ '\'' ∉ content.toList
  | _, _, var name => name ∈ vars
  | _, _, group e | _, _, negate e => e.Uses
  | _, _, callNone callee => callee ∈ callees
  | _, _, call callee arguments => callee ∈ callees ∧ arguments.Uses
  | _, _, ofFactor e | _, _, ofProduct e | _, _, ofSum e => e.Uses
  | _, _, multiply left _ right => left.Uses ∧ right.Uses
  | _, _, add left _ right => left.Uses ∧ right.Uses
  | _, _, append left right => left.Uses ∧ right.Uses

instance decidableUses :
    {level : Level} → {first : Bool} → (e : Expr level first) → Decidable (e.Uses vars callees)
  | _, _, integer digits => inferInstanceAs (Decidable (Lexeme.isInteger digits.toList ∧ _ ≤ _))
  | _, _, text content => inferInstanceAs (Decidable (content ≠ "" ∧ _ ∉ _))
  | _, _, var name => inferInstanceAs (Decidable (name ∈ vars))
  | _, _, group e | _, _, negate e => decidableUses e
  | _, _, callNone callee => inferInstanceAs (Decidable (callee ∈ callees))
  | _, _, call callee arguments =>
    have := decidableUses arguments
    inferInstanceAs (Decidable (callee ∈ callees ∧ arguments.Uses vars callees))
  | _, _, ofFactor e | _, _, ofProduct e | _, _, ofSum e => decidableUses e
  | _, _, multiply left _ right =>
    have := decidableUses left
    have := decidableUses right
    inferInstanceAs (Decidable (left.Uses vars callees ∧ right.Uses vars callees))
  | _, _, add left _ right =>
    have := decidableUses left
    have := decidableUses right
    inferInstanceAs (Decidable (left.Uses vars callees ∧ right.Uses vars callees))
  | _, _, append left right =>
    have := decidableUses left
    have := decidableUses right
    inferInstanceAs (Decidable (left.Uses vars callees ∧ right.Uses vars callees))

/-- How deep the parentheses are nested. -/
def depth : {level : Level} → {first : Bool} → Expr level first → Nat
  | _, _, integer _ | _, _, text _ | _, _, var _ => 0
  | _, _, group e => e.depth + 1
  | _, _, negate e => e.depth
  | _, _, callNone _ => 1
  | _, _, call _ arguments => arguments.depth + 1
  | _, _, ofFactor e | _, _, ofProduct e | _, _, ofSum e => e.depth
  | _, _, multiply left _ right => max left.depth right.depth
  | _, _, add left _ right => max left.depth right.depth
  | _, _, append left right => max left.depth right.depth

end Expr

/-- A statement of well-formed expressions that assigns to a variable at most. -/
def Statement.Uses (vars callees : List String) (s : Statement) : Prop :=
  s.expression.Uses vars callees ∧
    match s with
    | .assign name _ => name ∈ vars
    | _ => True

instance (vars callees : List String) (s : Statement) : Decidable (s.Uses vars callees) :=
  match s with
  | .assign name e => inferInstanceAs (Decidable (e.Uses vars callees ∧ name ∈ vars))
  | .ret e | .echo e => inferInstanceAs (Decidable (e.Uses vars callees ∧ True))
  | .callNone callee => inferInstanceAs (Decidable (callee ∈ callees ∧ True))
  | .call callee arguments =>
    inferInstanceAs (Decidable ((callee ∈ callees ∧ arguments.Uses vars callees) ∧ True))

/-- A function that uses its own names, itself, and the functions `callees` before it. -/
structure Function.WellFormed [Limits] (callees : List String) (f : Function) : Prop where
  type : f.type ≠ .undefined
  types : ∀ v ∈ f.vars, v.type ≠ .undefined
  names : ∀ v ∈ f.vars, IsName v.name
  distinct : (f.name :: f.vars.map (·.name)).Nodup
  uses : ∀ s ∈ f.body, s.Uses (f.vars.map (·.name))
    (if f.isEntry then callees else f.name :: callees)

/-- The functions that may be called once `fs` are declared: those of the library with a name within
the limits, and all but the entry point. -/
def callees [Limits] (fs : List Function) : List String :=
  (Signature.all.map (·.name)).filter (IsName ·) ++ (fs.filter (!·.isEntry)).map (·.name)

/-- Functions with different names, among them the entry point, that call each other backwards. -/
structure WellFormed [Limits] (fs : List Function) : Prop where
  distinct : (fs.map (·.name)).Nodup
  names : ∀ f ∈ fs, f.isEntry ∨ IsName f.name ∧ f.name ∉ Signature.all.map (·.name)
  entry : ∃ f ∈ fs, f.isEntry
  entryType : ∀ f ∈ fs, f.isEntry → f.type = .i32
  functions : ∀ before f after, fs = before ++ f :: after → f.WellFormed (callees before)

variable {limits : Limits}

/-- A program of the entry point alone. -/
theorem wellFormed_singleton {f : Function} (hentry : f.isEntry) (htype : f.type = .i32)
    (hf : f.WellFormed (callees [])) : WellFormed [f] where
  distinct := by simp
  names := by simp [hentry]
  entry := ⟨f, List.mem_cons_self, hentry⟩
  entryType := by simp [htype]
  functions := by
    rintro (_ | ⟨g, before⟩) g' after hfs
    · obtain ⟨rfl, -⟩ := List.cons.inj hfs
      exact hf
    · obtain ⟨-, hnil⟩ := List.cons.inj hfs
      exact absurd hnil.symm (by simp)

/-- The words of a program. -/
def words (fs : List Function) : List Word := fs.flatMap (·.words)

end Ttm.Core
