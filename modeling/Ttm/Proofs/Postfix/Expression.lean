import Ttm.Proofs.Postfix.InPlace
import Ttm.Proofs.Postfix.Shunt

/-! An expression where it stands in a table: what it is put into, and what that computes. -/
namespace Ttm.Postfix

open Lexeme (Kind)

namespace Tree

variable {α V : Type} {level : Level}

/-- A list of more than one expression. -/
def isSeveral : {level : Level} → Tree α level → Bool
  | _, append .. => true
  | _, _ => false

/-- Parentheses without a callee hold one expression. -/
def Single : {level : Level} → Tree α level → Prop
  | _, operand _ | _, callNone .. => True
  | _, group _ inner _ => inner.isSeveral = false ∧ inner.Single
  | _, call _ _ arguments _ => arguments.Single
  | _, ofFactor t | _, ofProduct t | _, ofSum t => t.Single
  | _, multiply left _ right => left.Single ∧ right.Single
  | _, add left _ right => left.Single ∧ right.Single
  | _, append left _ right => left.Single ∧ right.Single

/-- The number of expressions in a list. -/
def arity : {level : Level} → Tree α level → Nat
  | _, append left _ _ => left.arity + 1
  | _, _ => 1

/-- The tokens of the postfix order, each with the number of values that it takes: a callee takes as
many as its list has arguments. -/
def steps : {level : Level} → Tree α level → List (α × Nat)
  | _, operand o => [(o, 0)]
  | _, group _ inner _ => inner.steps
  | _, callNone callee _ _ => [(callee, 0)]
  | _, call callee _ arguments _ => arguments.steps ++ [(callee, arguments.arity)]
  | _, ofFactor t | _, ofProduct t | _, ofSum t => t.steps
  | _, multiply left operator right => left.steps ++ right.steps ++ [(operator, 2)]
  | _, add left operator right => left.steps ++ right.steps ++ [(operator, 2)]
  | _, append left _ right => left.steps ++ right.steps

/-- The values of the expressions of a list, if a token makes the value `f` says of those it
takes. -/
def values (f : α → List V → V) : {level : Level} → Tree α level → List V
  | _, operand o => [f o []]
  | _, group _ inner _ => inner.values f
  | _, callNone callee _ _ => [f callee []]
  | _, call callee _ arguments _ => [f callee (arguments.values f)]
  | _, ofFactor t | _, ofProduct t | _, ofSum t => t.values f
  | _, multiply left operator right => [f operator (left.values f ++ right.values f)]
  | _, add left operator right => [f operator (left.values f ++ right.values f)]
  | _, append left _ right => left.values f ++ right.values f

theorem map_fst_steps (t : Tree α level) : t.steps.map Prod.fst = t.postfixOrder := by
  induction t <;> simp_all [steps, postfixOrder]

theorem isSeveral_of_ne {t : Tree α level} (h : level ≠ .list) : t.isSeveral = false := by
  cases t <;> first | rfl | exact absurd rfl h

theorem arity_of_not_isSeveral {t : Tree α level} (h : t.isSeveral = false) : t.arity = 1 := by
  cases t <;> first | rfl | cases h

theorem length_values (f : α → List V → V) (t : Tree α level) (h : t.Single) :
    (t.values f).length = t.arity := by
  induction t with
  | group opening inner closing ih => exact (ih h.2).trans (arity_of_not_isSeveral h.1)
  | ofFactor t ih | ofProduct t ih | ofSum t ih =>
    exact (ih h).trans (arity_of_not_isSeveral (isSeveral_of_ne nofun))
  | append left comma right ihl ihr =>
    have hone : right.arity = 1 := arity_of_not_isSeveral (isSeveral_of_ne nofun)
    rw [values, List.length_append, ihl h.1, ihr h.2, hone, arity]
  | _ => rfl

end Tree

section

variable {limits : Limits} {α V : Type} {level : Level}

/-- A token of postfix order at work on a stack, whose top comes first. -/
def applyStep (f : α → List V → V) (stack : List V) (step : α × Nat) : Option (List V) :=
  if step.2 ≤ stack.length then
    some (f step.1 (stack.take step.2).reverse :: stack.drop step.2)
  else none

theorem applyStep_of_length (f : α → List V → V) {o : α} {n : Nat} (taken : List V)
    {stack : List V} (h : taken.length = n) :
    applyStep f (taken.reverse ++ stack) (o, n) = some (f o taken :: stack) := by
  subst h
  simp [applyStep]

theorem foldlM_concat (f : α → List V → V) {before : List (α × Nat)} {o : α} {n : Nat}
    {taken stack : List V}
    (hbefore : before.foldlM (applyStep f) stack = some (taken.reverse ++ stack))
    (h : taken.length = n) :
    (before ++ [(o, n)]).foldlM (applyStep f) stack = some (f o taken :: stack) := by
  rw [List.foldlM_append, hbefore]
  simp [applyStep_of_length f taken h]

/-- Postfix order leaves the values of the expressions on the stack, and never takes more than it
has put there. -/
theorem Tree.foldlM_steps (f : α → List V → V) (t : Tree α level) (h : t.Single)
    (stack : List V) :
    t.steps.foldlM (applyStep f) stack = some ((t.values f).reverse ++ stack) := by
  have happend {level₁ level₂ : Level} {left : Tree α level₁} {right : Tree α level₂}
      (hl : ∀ stack, left.steps.foldlM (applyStep f) stack =
        some ((left.values f).reverse ++ stack))
      (hr : ∀ stack, right.steps.foldlM (applyStep f) stack =
        some ((right.values f).reverse ++ stack)) (stack : List V) :
      (left.steps ++ right.steps).foldlM (applyStep f) stack =
        some ((left.values f ++ right.values f).reverse ++ stack) := by
    rw [List.foldlM_append, hl]
    simp [hr]
  have htwo {level₁ level₂ : Level} {left : Tree α level₁} {right : Tree α level₂}
      (h : left.Single ∧ right.Single) (hl : level₁ ≠ .list) (hr : level₂ ≠ .list) :
      (left.values f ++ right.values f).length = 2 := by
    rw [List.length_append, length_values f left h.1, length_values f right h.2,
      arity_of_not_isSeveral (isSeveral_of_ne hl), arity_of_not_isSeveral (isSeveral_of_ne hr)]
  induction t generalizing stack with
  | operand o => exact applyStep_of_length f [] rfl
  | callNone callee opening closing => exact applyStep_of_length f [] rfl
  | group opening inner closing ih => exact ih h.2 stack
  | ofFactor t ih | ofProduct t ih | ofSum t ih => exact ih h stack
  | call callee opening arguments closing ih =>
    exact foldlM_concat f (ih h stack) (length_values f arguments h)
  | multiply left operator right ihl ihr =>
    have hpair := htwo h nofun nofun
    exact foldlM_concat f (happend (ihl h.1) (ihr h.2) stack) hpair
  | add left operator right ihl ihr =>
    have hpair := htwo h nofun nofun
    exact foldlM_concat f (happend (ihl h.1) (ihr h.2) stack) hpair
  | append left comma right ihl ihr => exact happend (ihl h.1) (ihr h.2) stack

/-- One expression computes one value. -/
theorem Tree.exists_value (f : α → List V → V) (e : Tree α .sum) (h : e.Single) :
    ∃ v, e.steps.foldlM (applyStep f) [] = some [v] := by
  have hone : e.arity = 1 := arity_of_not_isSeveral (isSeveral_of_ne nofun)
  obtain ⟨v, hv⟩ := List.length_eq_one_iff.mp ((length_values f e h).trans hone)
  exact ⟨v, by rw [e.foldlM_steps f h, hv]; rfl⟩

variable {symbols : Symbol.Table} {t : Lexeme.Table} {start : Nat} {terminator : Lexeme}
  {span reordered : List Lexeme}

theorem take_drop_filled (hs : statementAt? t start = some span)
    (h : reordered.length ≤ span.length) :
    ((t.fill start (filled span reordered)).toList.drop start).take reordered.length =
      reordered := by
  have hinside := (length_of_statementAt? hs).2
  have hfront : (t.toList.take start).length = start := by
    rw [List.length_take, Lexeme.Table.length_toList]
    omega
  rw [Lexeme.Table.toList_fill, List.append_assoc, List.drop_left' hfront, filled,
    List.append_assoc, List.take_left]

theorem ofStatement_of_statementAt? {e : Tree Lexeme .sum} (he : e.Proper (roleIn symbols))
    (hspan : statementAt? t start = some (e.tokens ++ [terminator]))
    (hlength : (e.tokens ++ [terminator]).length ≤ Limits.maxStatementLength) :
    ofStatement symbols (e.tokens ++ [terminator]) =
      .ok (e.postfixOrder.map (markCall symbols) ++ [terminator]) := by
  obtain ⟨inner, last, rest, hinner, hlast, -, -⟩ := statementAt?_eq_some.mp hspan
  obtain ⟨-, hlast'⟩ := List.append_inj' hinner rfl
  obtain rfl : terminator = last := List.head_eq_of_cons_eq hlast'
  rw [List.length_append, List.length_singleton] at hlength
  exact ofStatement_tokens he (isTerminator_iff.mp hlast) hlength

/-- A statement that spells an expression is put into the postfix order of its structure where it
stands: operators of one precedence apply from left to right, `*`, `/` and `%` before `+` and `-`,
and a call comes behind its arguments. This holds also where parentheses without a callee hold a
list. -/
theorem convertAt_tokens {e : Tree Lexeme .sum} (he : e.Proper (roleIn symbols))
    (hspan : statementAt? t start = some (e.tokens ++ [terminator]))
    (hlength : (e.tokens ++ [terminator]).length ≤ Limits.maxStatementLength) :
    ∃ filling t', convertAt symbols start t = (.ok filling, t') ∧
      (t'.toList.drop start).take filling.length =
        e.postfixOrder.map (markCall symbols) ++ [terminator] := by
  have horder := ofStatement_of_statementAt? he hspan hlength
  exact ⟨_, _, convertAt_of_ok hspan horder,
    take_drop_filled hspan (length_reordered hspan horder)⟩

end

attribute [local instance] Limits.development

/-- A symbol table that holds one function. -/
def oneFunction : Symbol.Table := (Symbol.Table.empty 1).add (.declared "f" "" 0 .i32 .function)

def lexemeAt (kind : Kind) : Lexeme := ⟨kind, 1, none⟩

def calleeAt : Lexeme := ⟨.identifier, 1, some 0⟩

/-- `f(1 + a * 2, f()) - (a) / 3` -/
def nestedCalls : Tree Lexeme .sum :=
  .add
    (.ofProduct (.ofFactor (.call calleeAt (lexemeAt .openParen)
      (.append
        (.ofSum (.add (.ofProduct (.ofFactor (.operand (lexemeAt .literal)))) (lexemeAt .plus)
          (.multiply (.ofFactor (.operand (lexemeAt .identifier))) (lexemeAt .star)
            (.operand (lexemeAt .literal)))))
        (lexemeAt .comma)
        (.ofProduct (.ofFactor (.callNone calleeAt (lexemeAt .openParen) (lexemeAt .closeParen)))))
      (lexemeAt .closeParen))))
    (lexemeAt .minus)
    (.multiply (.ofFactor (.group (lexemeAt .openParen)
        (.ofSum (.ofProduct (.ofFactor (.operand (lexemeAt .identifier))))) (lexemeAt .closeParen)))
      (lexemeAt .slash) (.operand (lexemeAt .literal)))

/-- The expression behind `ret`. -/
def nestedCallsTable : Lexeme.Table where
  entries := (lexemeAt .retWord :: nestedCalls.tokens ++ [lexemeAt .semicolon]).toArray
  capacity := 20

theorem proper_nestedCalls : nestedCalls.Proper (roleIn oneFunction) :=
  ⟨⟨rfl, rfl, ⟨⟨rfl, rfl, rfl, rfl, rfl⟩, rfl, rfl, rfl, rfl⟩, rfl⟩, rfl, ⟨rfl, rfl, rfl⟩, rfl, rfl⟩

theorem convertAt_nestedCalls :
    ∃ filling t', convertAt oneFunction 1 nestedCallsTable = (.ok filling, t') ∧
      (t'.toList.drop 1).take filling.length =
        [lexemeAt .literal, lexemeAt .identifier, lexemeAt .literal, lexemeAt .star,
          lexemeAt .plus, ⟨.call, 1, some 0⟩, ⟨.call, 1, some 0⟩, lexemeAt .identifier,
          lexemeAt .literal, lexemeAt .slash, lexemeAt .minus, lexemeAt .semicolon] :=
  @convertAt_tokens _ oneFunction _ _ (lexemeAt .semicolon) nestedCalls proper_nestedCalls rfl
    (by decide)

end Ttm.Postfix
