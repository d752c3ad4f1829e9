import Ttm.Proofs.Postfix.Shunt
import Ttm.Proofs.Symbol.Keys

/-! The words of a program, the symbols they stand for, and what they do on a stack. -/
namespace Ttm

open Lexeme (Kind)

namespace Core

/-- A word as it is written, and what it means there. `call` and `padding` come with postfix order,
a callee and a call know the number of their arguments. -/
inductive Word
  | mark (k : Kind)
  | datatype (type : DataType)
  | entry
  | function (name : String)
  | callee (name : String) (arity : Nat)
  | call (name : String) (arity : Nat)
  | var (scope name : String)
  | integer (digits : String)
  | text (content : String)
  | padding
  deriving DecidableEq

/-- The number that digits stand for. -/
def decimal (digits : String) : Nat := Nat.ofDigitChars 10 digits.toList 0

namespace Word

/-- What is written for it. -/
def spelling : Word → String
  | mark k => k.text
  | datatype type => type.name
  | entry => Kind.mainWord.text
  | function name | callee name _ | call name _ | var _ name => name
  | integer digits => digits
  | text content => "'" ++ content ++ "'"
  | padding => ""

/-- The kind of its lexeme. -/
def kind : Word → Kind
  | mark k => k
  | datatype _ => .datatype
  | entry => .mainWord
  | function _ | callee .. | var .. => .identifier
  | call .. => .call
  | integer _ | text _ => .literal
  | padding => .padding

/-- The symbol of its lexeme. -/
def key? : Word → Option Symbol.Key
  | mark _ | datatype _ | padding => none
  | entry => some (.name Symbol.globalScope Kind.mainWord.text)
  | function name | callee name _ | call name _ => some (.name Symbol.globalScope name)
  | var scope name => some (.name scope name)
  | integer digits => some (.literal .i32 (Nat.repr (decimal digits)))
  | text content => some (.literal .str content)

/-- Whether a symbol is of the kind the word is used as. -/
def Suits (w : Word) (k : SymbolKind) : Prop :=
  match w with
  | mark _ | datatype _ | padding => False
  | entry | function _ | callee .. | call .. => k = .function
  | var .. => k = .var ∨ k = .parameter
  | integer _ | text _ => k = .literal

def isFunction : Word → Bool
  | entry | function _ | callee .. | call .. => true
  | _ => false

/-- The role in an expression. -/
def role : Word → Option Postfix.Role
  | mark .call => none
  | mark k => Postfix.roleOf k
  | var .. | integer _ | text _ => some .operand
  | callee .. => some .callee
  | _ => none

/-- How a callee appears in postfix order. -/
def marked : Word → Word
  | callee name arity => call name arity
  | w => w

end Word

/-- The symbol that a lexeme of the word refers to. -/
def Word.Points (symbols : Symbol.Table) (w : Word) (symbol : Option Nat) : Prop :=
  match w.key? with
  | none => symbol = none
  | some key => ∃ i x, symbol = some i ∧ symbols.get? i = some x ∧ x.key = key ∧ w.Suits x.kind

/-- A lexeme that stands for the word. -/
structure Stands (symbols : Symbol.Table) (w : Word) (l : Lexeme) : Prop where
  kind : l.kind = w.kind
  points : w.Points symbols l.symbol

/-- A reading of the words: what literals, variables and functions mean, and what operators do. -/
structure Meaning (V : Type) where
  integer : Nat → V
  text : String → V
  var : String → String → V
  call : String → List V → V
  apply : Kind → V → V → V

variable {V : Type} (m : Meaning V)

/-- A word of postfix order at work on a stack, whose top comes first. -/
def perform : Word → List V → Option (List V)
  | .integer digits, stack => some (m.integer (decimal digits) :: stack)
  | .text content, stack => some (m.text content :: stack)
  | .var scope name, stack => some (m.var scope name :: stack)
  | .call name arity, stack =>
    if arity ≤ stack.length then
      some (m.call name (stack.take arity).reverse :: stack.drop arity)
    else none
  | .mark k, right :: left :: stack =>
    if k.isArithmetic then some (m.apply k left right :: stack) else none
  | _, _ => none

def run : List Word → List V → Option (List V)
  | [], stack => some stack
  | w :: ws, stack => (perform m w stack).bind (run ws)

variable {symbols : Symbol.Table} {w : Word} {l : Lexeme} {r : Postfix.Role}

theorem map_kind_of_stands {ws : List Word} {ls : List Lexeme}
    (h : List.Forall₂ (Stands symbols) ws ls) : ls.map (·.kind) = ws.map Word.kind := by
  induction h with
  | nil => rfl
  | cons hw _ ih => rw [List.map_cons, List.map_cons, hw.kind, ih]

theorem isFunction_of_points {symbol : Option Nat} (h : w.Points symbols symbol) :
    symbols.isFunction symbol = w.isFunction := by
  unfold Word.Points at h
  cases hkey : w.key? with
  | none =>
    rw [hkey] at h
    subst h
    cases w <;> first | rfl | cases hkey
  | some key =>
    rw [hkey] at h
    obtain ⟨i, x, rfl, hx, -, hkind⟩ := h
    have hfunction : symbols.isFunction (some i) = (x.kind == .function) := by
      simp [Symbol.Table.isFunction, hx, Symbol.isFunction]
    rw [hfunction]
    cases w with
    | var => rcases hkind with hkind | hkind <;> simp [hkind, Word.isFunction]
    | mark | datatype | padding => cases hkey
    | _ => simp [show x.kind = _ from hkind, Word.isFunction]

theorem isCallee_of_stands (h : Stands symbols w l) :
    Postfix.isCallee symbols l = (w.kind == .identifier && w.isFunction) := by
  rw [Postfix.isCallee, h.kind, isFunction_of_points h.points]

theorem roleIn_of_stands (h : Stands symbols w l) (hr : w.role = some r) :
    Postfix.roleIn symbols l = some r := by
  rw [Postfix.roleIn, isCallee_of_stands h, Postfix.role, h.kind]
  cases w with
  | mark k =>
    have hk : k ≠ .call := by
      rintro rfl
      cases hr
    have hrole : Postfix.roleOf k = some r := by
      rw [← hr]
      cases k <;> first | rfl | exact absurd rfl hk
    simp [Word.kind, Word.isFunction, hk, hrole]
  | var | integer | text | callee =>
    cases hr
    rfl
  | _ => cases hr

theorem stands_markCall (h : Stands symbols w l) (hr : w.role = some r) :
    Stands symbols w.marked (Postfix.markCall symbols l) := by
  rw [Postfix.markCall, isCallee_of_stands h]
  obtain ⟨hk, hp⟩ := h
  cases w with
  | callee name arity => exact ⟨rfl, hp⟩
  | function | entry | call | padding | datatype => cases hr
  | mark k =>
    have hnot : (Word.mark k).isFunction = false := rfl
    simp only [hnot, Bool.and_false, Bool.false_eq_true, if_false]
    exact ⟨hk, hp⟩
  | var | integer | text => exact ⟨hk, hp⟩

end Core
end Ttm
