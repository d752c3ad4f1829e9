import Ttm.Limits
import Ttm.Postfix.Error
import Ttm.Symbol.Table

/-!
One statement in postfix order. A statement runs from its first lexeme through the next semicolon.
Operands keep their order, an operator follows its operands, a call follows its arguments, and
parentheses and commas disappear.
-/

namespace Ttm.Postfix

open Lexeme (Kind)

def isTerminator (l : Lexeme) : Bool := l.kind == .semicolon

/-- The first statement of a list of lexemes, with its semicolon, and what follows it. -/
def splitStatement (lexemes : List Lexeme) : Option (List Lexeme × List Lexeme) :=
  match lexemes.dropWhile (!isTerminator ·) with
  | [] => none
  | semicolon :: rest => some (lexemes.takeWhile (!isTerminator ·) ++ [semicolon], rest)

theorem append_of_splitStatement {lexemes span rest : List Lexeme}
    (h : splitStatement lexemes = some (span, rest)) : span ++ rest = lexemes := by
  unfold splitStatement at h
  split at h
  · simp at h
  · next semicolon tail heq =>
    simp only [Option.some.injEq, Prod.mk.injEq] at h
    rw [← h.1, ← h.2, List.append_assoc, List.singleton_append, ← heq,
      List.takeWhile_append_dropWhile]

theorem length_pos_of_splitStatement {lexemes span rest : List Lexeme}
    (h : splitStatement lexemes = some (span, rest)) : 0 < span.length := by
  unfold splitStatement at h
  split at h
  · simp at h
  · simp only [Option.some.injEq, Prod.mk.injEq] at h
    simp [← h.1]

variable (symbols : Symbol.Table)

/-- A name that refers to a function. -/
def isCallee (l : Lexeme) : Bool := l.kind == .identifier && symbols.isFunction l.symbol

def markCall (l : Lexeme) : Lexeme := if isCallee symbols l then { l with kind := .call } else l

/-- What a statement holds. Every argument but the first of a call stands behind a comma, which
makes up for one operand. -/
structure Tally where
  operands : Int := 0
  operators : Int := 0
  opened : Nat := 0
  closed : Nat := 0
  deriving DecidableEq, Repr

def Tally.addOperands (t : Tally) (n : Int) : Tally := { t with operands := t.operands + n }

def opensEmptyList : List Lexeme → Bool
  | first :: second :: _ => first.kind == .openParen && second.kind == .closeParen
  | _ => false

/-- Counts one lexeme; a call without arguments is an operand of its own. -/
def weigh (l : Lexeme) (rest : List Lexeme) (t : Tally) : Except String Tally :=
  match l.kind with
  | .identifier =>
    if isCallee symbols l then .ok (if opensEmptyList rest then t.addOperands 1 else t)
    else .ok (t.addOperands 1)
  | .literal => .ok (t.addOperands 1)
  | .comma => .ok (t.addOperands (-1))
  | .openParen => .ok { t with opened := t.opened + 1 }
  | .closeParen => .ok { t with closed := t.closed + 1 }
  | .semicolon => .ok t
  | kind =>
    if kind.isArithmetic then .ok { t with operators := t.operators + 1 }
    else .error s!"'{kind.text}' cannot appear in an expression"

def tally : List Lexeme → Tally → Except String Tally
  | [], t => .ok t
  | l :: rest, t =>
    match weigh symbols l rest t with
    | .ok t => tally rest t
    | .error reason => .error reason

/-- As many closing as opening parentheses, and one operand more than operators. -/
def Tally.check (t : Tally) : Except String Unit :=
  if t.opened ≠ t.closed then .error s!"{t.opened} '(' against {t.closed} ')'"
  else if t.operands - t.operators ≠ 1 then
    .error s!"{t.operands} operands for {t.operators} operators"
  else .ok ()

/-- The statement with its calls marked, if its parts are of the right number. -/
def markCalls (span : List Lexeme) : Except String (List Lexeme) := do
  let t ← tally symbols span {}
  t.check
  return span.map (markCall symbols)

def isOpen (l : Lexeme) : Bool := l.kind == .openParen

/-- An operator on the stack that applies before `kind` does. -/
def appliesBefore (kind : Kind) (top : Lexeme) : Bool :=
  top.kind.isArithmetic && kind.priority.getD 0 ≤ top.kind.priority.getD 0

/-- Reads infix order with a stack of operators and calls; `output` is kept last first. -/
def shunt : List Lexeme → List Lexeme → List Lexeme → Except String (List Lexeme)
  | [], stack, output => .ok ((stack.filter (!isOpen ·)).reverseAux output)
  | l :: rest, stack, output =>
    match l.kind with
    | .semicolon => .ok (l :: (stack.filter (!isOpen ·)).reverseAux output)
    | .call | .openParen => shunt rest (l :: stack) output
    | .comma =>
      shunt rest (stack.dropWhile (!isOpen ·)) ((stack.takeWhile (!isOpen ·)).reverseAux output)
    | .closeParen =>
      match stack.dropWhile (!isOpen ·) with
      | [] => .error "')' without a matching '('"
      | _ :: below =>
        let output := (stack.takeWhile (!isOpen ·)).reverseAux output
        match below with
        | [] => shunt rest [] output
        | top :: bottom =>
          if top.kind = .call then shunt rest bottom (top :: output) else shunt rest below output
    | kind =>
      if kind.isArithmetic then
        let before := appliesBefore kind
        shunt rest (l :: stack.dropWhile before) ((stack.takeWhile before).reverseAux output)
      else shunt rest stack (l :: output)

def reorder (infixOrder : List Lexeme) : Except String (List Lexeme) :=
  (shunt infixOrder [] []).map List.reverse

variable [Limits]

/-- The postfix order of a statement. -/
def ofStatement (span : List Lexeme) : Except String (List Lexeme) :=
  let limit := Limits.maxStatementLength
  if limit < span.length then
    .error s!"statement of {span.length} lexemes exceeds the limit of {limit}"
  else do
    let marked ← markCalls symbols span
    reorder marked

/-- The first statement of `lexemes`, in postfix order, with its length before and what follows it.
`start` is the place of the first lexeme in the table. -/
def convertFirst (start : Nat) (lexemes : List Lexeme) :
    Except Error (List Lexeme × Nat × List Lexeme) :=
  match splitStatement lexemes with
  | none => .error (.missingTerminator start (lexemes.head?.map (·.line)))
  | some (span, rest) =>
    match ofStatement symbols span with
    | .error reason => .error (.malformedExpression start (span.head?.elim 0 (·.line)) reason)
    | .ok reordered => .ok (reordered, span.length, rest)

/-- Converts the statement that starts at `start` in place. -/
def convertAt (start : Nat) (table : Lexeme.Table) :
    Except Error Lexeme.Filling × Lexeme.Table :=
  match convertFirst symbols start (table.toList.drop start) with
  | .error e => (.error e, table)
  | .ok (reordered, length, _) =>
    let (result, table) := table.overwrite start length reordered
    (result.mapError .tableRefused, table)

end Ttm.Postfix
