import Ttm.Postfix.Statement
import Ttm.Program
import Ttm.Settings

/-!
A whole program in postfix order: the statement behind each `=`, `ret` and `echo`, and each
statement that begins with a call, is put into postfix order in place.
-/

namespace Ttm.Postfix

open Lexeme (Kind)

/-- A statement that was converted: the line of the lexeme that made it one, its new form, and the
padding behind it. -/
structure Converted where
  line : Nat
  reordered : List Lexeme
  padding : Nat
  deriving DecidableEq, Repr

structure Metrics where
  statements : Nat
  calls : Nat
  padding : Nat
  deriving DecidableEq, Repr

/-- Something worth telling about a pass. Failures are always told, a converted statement where the
settings ask for it. -/
inductive Note
  | converted (c : Converted)
  | failed (cause : Error)
  deriving DecidableEq, Repr

def Converted.calls (c : Converted) : Nat := c.reordered.countP (·.kind == .call)

def Converted.tags (c : Converted) : String := String.ofList (c.reordered.map (·.kind.tag))

def Metrics.of (statements : List Converted) : Metrics where
  statements := statements.length
  calls := statements.foldr (fun s n => s.calls + n) 0
  padding := statements.foldr (fun s n => s.padding + n) 0

/-- Lexemes behind which a statement may begin with a call. -/
def endsStatement : Option Kind → Bool
  | none | some .semicolon | some .openBrace | some .closeBrace => true
  | _ => false

/-- Where an expression statement starts, seen from a lexeme. -/
inductive Start
  | none
  | here
  | behind
  deriving DecidableEq, Repr

variable (symbols : Symbol.Table)

def startAt (previous : Option Kind) (l : Lexeme) : Start :=
  match l.kind with
  | .assign | .retWord | .echoWord => .behind
  | _ => if isCallee symbols l && endsStatement previous then .here else .none

/-- A pass under way: the lexemes behind the reader, the statements converted so far, and notes,
each of them last first. -/
structure Pass where
  settings : ConversionSettings
  done : List Lexeme := []
  statements : List Converted := []
  notes : List Note := []

namespace Pass
variable (p : Pass)

def keep (l : Lexeme) : Pass := { p with done := l :: p.done }

/-- Notes the statement only where it is asked for. -/
def convert (c : Converted) : Pass :=
  { p with
    done := List.replicate c.padding Lexeme.padding ++ c.reordered.reverseAux p.done
    statements := c :: p.statements
    notes := if p.settings.logStatements then .converted c :: p.notes else p.notes }

/-- Leaves the lexemes from here on as they are, and notes why. -/
def fail (e : Error) (ahead : List Lexeme) : Pass :=
  { p with done := ahead.reverseAux p.done, notes := .failed e :: p.notes }

end Pass

theorem length_of_convertFirst [Limits] {start length : Nat} {lexemes reordered rest : List Lexeme}
    (h : convertFirst symbols start lexemes = .ok (reordered, length, rest)) :
    rest.length < lexemes.length := by
  unfold convertFirst at h
  split at h
  · simp at h
  · next span tail heq =>
    split at h
    · simp at h
    · simp only [Except.ok.injEq, Prod.mk.injEq] at h
      have happ := congrArg List.length (append_of_splitStatement heq)
      have hpos := length_pos_of_splitStatement heq
      rw [List.length_append] at happ
      rw [← h.2.2]
      omega

variable [Limits]

/-- Goes through the lexemes from index `index` on, and stops at the first statement that cannot be
converted. -/
def walk (index : Nat) (previous : Option Kind) (p : Pass) (lexemes : List Lexeme) :
    Except Error Unit × Pass :=
  match lexemes with
  | [] => (.ok (), p)
  | l :: rest =>
    if l.isPadding then walk (index + 1) previous (p.keep l) rest
    else match startAt symbols previous l with
      | .none => walk (index + 1) (some l.kind) (p.keep l) rest
      | .behind =>
        match h : convertFirst symbols (index + 1) rest with
        | .error e => (.error e, p.fail e (l :: rest))
        | .ok (reordered, length, behind) =>
          have := length_of_convertFirst symbols h
          walk (index + 1 + length) (some .semicolon)
            ((p.keep l).convert ⟨l.line, reordered, length - reordered.length⟩) behind
      | .here =>
        match h : convertFirst symbols index (l :: rest) with
        | .error e => (.error e, p.fail e (l :: rest))
        | .ok (reordered, length, behind) =>
          have := length_of_convertFirst symbols h
          walk (index + length) (some .semicolon)
            (p.convert ⟨l.line, reordered, length - reordered.length⟩) behind
termination_by lexemes.length
decreasing_by all_goals simp_all <;> omega

/-- The lexeme table as a pass leaves it, also when it fails, the statements it converted, and what
there is to tell about it. -/
structure Conversion where
  lexemes : Lexeme.Table
  statements : List Converted
  notes : List Note
  result : Except Error Metrics

/-- Converts every statement of a program. -/
def convertAll (settings : ConversionSettings) (lexemes : Lexeme.Table) : Conversion :=
  let (result, pass) := walk symbols 0 none { settings } lexemes.toList
  let statements := pass.statements.reverse
  ⟨{ lexemes with entries := pass.done.reverse.toArray }, statements, pass.notes.reverse,
    result.map fun _ => .of statements⟩

end Ttm.Postfix
