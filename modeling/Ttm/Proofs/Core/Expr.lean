import Ttm.Proofs.Core.Word

/-! Expressions by their grammar: how they are written, their structure, and their value. -/
namespace Ttm.Core

open Lexeme (Kind)
open Postfix (Level Tree Role)

/-- The operators of one precedence. -/
abbrev Operator (role : Role) := {k : Kind // Postfix.roleOf k = some role}

/-- An expression of a level of precedence; the flag tells that a sign may stand first. A list holds
the arguments of a call. -/
inductive Expr : Level → Bool → Type
  | integer {first : Bool} (digits : String) : Expr .factor first
  | text {first : Bool} (content : String) : Expr .factor first
  | var {first : Bool} (name : String) : Expr .factor first
  | group {first : Bool} (e : Expr .sum true) : Expr .factor first
  | callNone {first : Bool} (callee : String) : Expr .factor first
  | call {first : Bool} (callee : String) (arguments : Expr .list true) : Expr .factor first
  | negate (e : Expr .factor false) : Expr .factor true
  | ofFactor {first : Bool} (e : Expr .factor first) : Expr .product first
  | multiply {first : Bool} (left : Expr .product first) (operator : Operator .multiplicative)
    (right : Expr .factor false) : Expr .product first
  | ofProduct {first : Bool} (e : Expr .product first) : Expr .sum first
  | add {first : Bool} (left : Expr .sum first) (operator : Operator .additive)
    (right : Expr .product false) : Expr .sum first
  | ofSum {first : Bool} (e : Expr .sum first) : Expr .list first
  | append {first : Bool} (left : Expr .list first) (right : Expr .sum false) : Expr .list first

/-- What an expression of a level has for its value. -/
abbrev Value (V : Type) : Level → Type
  | .list => List V
  | _ => V

namespace Expr

variable {level : Level} {first : Bool} {V : Type}

/-- The number of expressions in a list. -/
def arity : {level : Level} → {first : Bool} → Expr level first → Nat
  | _, _, append left _ => left.arity + 1
  | _, _, _ => 1

def opening : Word := .mark .openParen
def closing : Word := .mark .closeParen
def minus : Word := .mark .minus
def comma : Word := .mark .comma

/-- The zero in front of which a sign becomes a subtraction. -/
def zero : Word := .integer "0"

/-- The words of an expression in a function. -/
def words (scope : String) : {level : Level} → {first : Bool} → Expr level first → List Word
  | _, _, integer digits => [.integer digits]
  | _, _, text content => [.text content]
  | _, _, var name => [.var scope name]
  | _, _, group e => opening :: e.words scope ++ [closing]
  | _, _, callNone callee => [.callee callee 0, opening, closing]
  | _, _, call callee arguments =>
    .callee callee arguments.arity :: opening :: arguments.words scope ++ [closing]
  | _, _, negate e => minus :: e.words scope
  | _, _, ofFactor e | _, _, ofProduct e | _, _, ofSum e => e.words scope
  | _, _, multiply left operator right =>
    left.words scope ++ .mark operator :: right.words scope
  | _, _, add left operator right => left.words scope ++ .mark operator :: right.words scope
  | _, _, append left right => left.words scope ++ comma :: right.words scope

/-- The structure of an expression, a sign being the subtraction from zero in parentheses. -/
def tree (scope : String) : {level : Level} → {first : Bool} → Expr level first → Tree Word level
  | _, _, integer digits => .operand (.integer digits)
  | _, _, text content => .operand (.text content)
  | _, _, var name => .operand (.var scope name)
  | _, _, group e => .group opening (.ofSum (e.tree scope)) closing
  | _, _, callNone callee => .callNone (.callee callee 0) opening closing
  | _, _, call callee arguments =>
    .call (.callee callee arguments.arity) opening (arguments.tree scope) closing
  | _, _, negate e =>
    .group opening
      (.ofSum (.add (.ofProduct (.ofFactor (.operand zero))) minus (.ofFactor (e.tree scope))))
      closing
  | _, _, ofFactor e => .ofFactor (e.tree scope)
  | _, _, multiply left operator right =>
    .multiply (left.tree scope) (.mark operator) (right.tree scope)
  | _, _, ofProduct e => .ofProduct (e.tree scope)
  | _, _, add left operator right => .add (left.tree scope) (.mark operator) (right.tree scope)
  | _, _, ofSum e => .ofSum (e.tree scope)
  | _, _, append left right => .append (left.tree scope) comma (right.tree scope)

/-- The value of an expression; a sign subtracts from zero. -/
def value (m : Meaning V) (scope : String) :
    {level : Level} → {first : Bool} → Expr level first → Value V level
  | _, _, integer digits => m.integer (decimal digits)
  | _, _, text content => m.text content
  | _, _, var name => m.var scope name
  | _, _, group e => e.value m scope
  | _, _, callNone callee => m.call callee []
  | _, _, call callee arguments => m.call callee (arguments.value m scope)
  | _, _, negate e => m.apply .minus (m.integer 0) (e.value m scope)
  | _, _, ofFactor e | _, _, ofProduct e => e.value m scope
  | _, _, multiply left operator right =>
    m.apply operator (left.value m scope) (right.value m scope)
  | _, _, add left operator right =>
    m.apply operator (left.value m scope) (right.value m scope)
  | _, _, ofSum e => [e.value m scope]
  | _, _, append left right => left.value m scope ++ [right.value m scope]

/-- The words of an expression in postfix order. -/
def postfixWords (scope : String) (e : Expr level first) : List Word :=
  (e.tree scope).postfixOrder.map Word.marked

theorem role_multiplicative (operator : Operator .multiplicative) :
    (Word.mark operator).role = some .multiplicative := by
  obtain ⟨k, hk⟩ := operator
  rcases Postfix.roleOf_cases hk with rfl | rfl | rfl <;> rfl

theorem role_additive (operator : Operator .additive) :
    (Word.mark operator).role = some .additive := by
  obtain ⟨k, hk⟩ := operator
  rcases Postfix.roleOf_cases hk with rfl | rfl <;> rfl

theorem proper_tree (scope : String) (e : Expr level first) :
    (e.tree scope).Proper Word.role := by
  induction e with
  | integer | text | var => rfl
  | group e ih => exact ⟨rfl, ih, rfl⟩
  | callNone => exact ⟨rfl, rfl, rfl⟩
  | call callee arguments ih => exact ⟨rfl, rfl, ih, rfl⟩
  | negate e ih => exact ⟨rfl, ⟨rfl, rfl, ih⟩, rfl⟩
  | ofFactor e ih | ofProduct e ih | ofSum e ih => exact ih
  | multiply left operator right ihl ihr => exact ⟨ihl, role_multiplicative operator, ihr⟩
  | add left operator right ihl ihr => exact ⟨ihl, role_additive operator, ihr⟩
  | append left right ihl ihr => exact ⟨ihl, rfl, ihr⟩

/-- The values on the stack behind an expression, the last one first. -/
def stack : {level : Level} → Value V level → List V
  | .list, values => values.reverse
  | .factor, v | .product, v | .sum, v => [v]

theorem run_append (m : Meaning V) (xs ys : List Word) (st : List V) :
    run m (xs ++ ys) st = (run m xs st).bind (run m ys) := by
  induction xs generalizing st with
  | nil => rfl
  | cons w xs ih =>
    rw [List.cons_append, run, run, Option.bind_assoc]
    exact congrArg _ (funext ih)

theorem length_stack (m : Meaning V) (scope : String) (e : Expr level first) :
    (stack (e.value m scope)).length = e.arity := by
  induction e with
  | ofSum => rfl
  | append left right ih =>
    have hleft : (left.value m scope : List V).length = left.arity := by
      rw [← ih, stack, List.length_reverse]
    simp [stack, value, arity, hleft]
  | _ => rfl

theorem run_operator (m : Meaning V) {k : Kind} (hk : k.isArithmetic) (x y : V) (st : List V) :
    run m [.mark k] (y :: x :: st) = some (m.apply k x y :: st) := by
  simp [run, perform, hk]

theorem run_call (m : Meaning V) (callee : String) (values : List V) (st : List V) :
    run m [.call callee values.length] (values.reverse ++ st) =
      some (m.call callee values :: st) := by
  have hlength : values.length = values.reverse.length := List.length_reverse.symm
  have htake : (values.reverse ++ st).take values.length = values.reverse := by
    rw [hlength, List.take_left]
  have hdrop : (values.reverse ++ st).drop values.length = st := by
    rw [hlength, List.drop_left]
  simp [run, perform, htake, hdrop]

theorem run_binary (m : Meaning V) {xs ys : List Word} {k : Kind} {x y : V}
    (hk : k.isArithmetic) (hx : ∀ st, run m xs st = some (x :: st))
    (hy : ∀ st, run m ys st = some (y :: st)) (st : List V) :
    run m (xs ++ ys ++ [.mark k]) st = some (m.apply k x y :: st) := by
  rw [run_append, run_append, hx, Option.bind_some, hy, Option.bind_some, run_operator m hk]

/-- Postfix order computes the value. -/
theorem run_postfixWords (m : Meaning V) (scope : String) (e : Expr level first) (st : List V) :
    run m (e.postfixWords scope) st = some (stack (e.value m scope) ++ st) := by
  unfold postfixWords
  induction e generalizing st with
  | integer | text | var => rfl
  | group e ih => exact ih st
  | callNone callee => exact run_call m callee [] st
  | call callee arguments ih =>
    have hlength : (arguments.value m scope : List V).length = arguments.arity := by
      rw [← length_stack m scope arguments, stack, List.length_reverse]
    have hcall : Word.marked (.callee callee arguments.arity) = .call callee arguments.arity := rfl
    rw [tree, Tree.postfixOrder, List.map_append, run_append, ih, Option.bind_some,
      List.map_singleton, hcall, ← hlength]
    exact run_call m callee _ st
  | negate e ih =>
    simp only [tree, Tree.postfixOrder, List.map_append]
    exact run_binary m rfl (fun _ => rfl) ih st
  | ofFactor e ih | ofProduct e ih | ofSum e ih => exact ih st
  | multiply left operator right ihl ihr =>
    simp only [tree, Tree.postfixOrder, List.map_append]
    exact run_binary m (Postfix.priority_of_multiplicative operator.2).1 ihl ihr st
  | add left operator right ihl ihr =>
    simp only [tree, Tree.postfixOrder, List.map_append]
    exact run_binary m (Postfix.priority_of_additive operator.2).1 ihl ihr st
  | append left right ihl ihr =>
    rw [tree, Tree.postfixOrder, List.map_append, run_append, ihl, Option.bind_some, ihr]
    simp [stack, value]

end Expr
end Ttm.Core
