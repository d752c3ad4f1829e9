import Ttm.Proofs.Core.Expr

/-! How signs are written out: as `(0 -` where they stand, and a bracket behind the next operand. -/
namespace Ttm.Core

open Lexeme (Kind)
open Postfix (Level Tree Role)

namespace Word

def isOperand : Word → Bool
  | var .. | integer _ | text _ => true
  | _ => false

/-- A minus behind this word is a sign. -/
def expectsOperand : Word → Bool
  | mark k => k == .assign || k == .openParen || k == .retWord
  | _ => false

end Word

/-- What is known of signs between two words: one waits for its operand, or one may come next. -/
structure Signs where
  waiting : Bool
  allowed : Bool
  deriving DecidableEq

namespace Signs

variable {s : Signs} {w : Word} {xs ys : List Word}

/-- No sign waits and none may come. -/
def quiet : Signs := ⟨false, false⟩

def next (s : Signs) (w : Word) : Signs :=
  if s.allowed ∧ w = Expr.minus then ⟨true, false⟩
  else ⟨s.waiting && !w.isOperand, w.expectsOperand⟩

def written (s : Signs) (w : Word) : List Word :=
  if s.allowed ∧ w = Expr.minus then [Expr.opening, Expr.zero, Expr.minus]
  else if s.waiting ∧ w.isOperand then [w, Expr.closing]
  else [w]

def after (s : Signs) (ws : List Word) : Signs := ws.foldl next s

/-- A text with its signs written out. -/
def rewrite : Signs → List Word → List Word
  | _, [] => []
  | s, w :: ws => s.written w ++ rewrite (s.next w) ws

theorem after_append : s.after (xs ++ ys) = (s.after xs).after ys := List.foldl_append

theorem rewrite_append : s.rewrite (xs ++ ys) = s.rewrite xs ++ (s.after xs).rewrite ys := by
  induction xs generalizing s with
  | nil => rfl
  | cons w xs ih => rw [List.cons_append, rewrite, rewrite, ih, List.append_assoc, after, after,
      List.foldl_cons]

/-- What reading a text does from here: it is rewritten to `out`, and `t` is known behind it. -/
def Reads (s : Signs) (ws out : List Word) (t : Signs) : Prop :=
  s.rewrite ws = out ∧ s.after ws = t

theorem Reads.append {t u : Signs} {out out' : List Word} (hx : s.Reads xs out t)
    (hy : t.Reads ys out' u) : s.Reads (xs ++ ys) (out ++ out') u := by
  obtain ⟨rfl, rfl⟩ := hx
  obtain ⟨rfl, rfl⟩ := hy
  exact ⟨rewrite_append, after_append⟩

theorem Reads.cons {t u : Signs} {out out' : List Word} (hx : s.Reads [w] out t)
    (hy : t.Reads ys out' u) : s.Reads (w :: ys) (out ++ out') u := hx.append hy

theorem reads_word : s.Reads [w] (s.written w) (s.next w) :=
  ⟨List.append_nil _, rfl⟩

/-- Without a sign in sight a word stays as it is. -/
theorem reads_of_not_minus {allowed : Bool} (hw : w ≠ Expr.minus ∨ allowed = false) :
    Reads ⟨false, allowed⟩ [w] [w] ⟨false, w.expectsOperand⟩ := by
  have hsign : ¬ (allowed = true ∧ w = Expr.minus) := by
    rintro ⟨ha, hm⟩
    rcases hw with hw | hw
    · exact hw hm
    · simp [ha] at hw
  have h := @reads_word ⟨false, allowed⟩ w
  simpa [written, next, hsign] using h

end Signs

namespace Expr

variable {level : Level} {first : Bool}

def isOperand : {level : Level} → {first : Bool} → Expr level first → Bool
  | _, _, integer _ | _, _, text _ | _, _, var _ => true
  | _, _, _ => false

/-- Each sign stands in front of a literal or a variable. -/
def SimpleSigns : {level : Level} → {first : Bool} → Expr level first → Prop
  | _, _, integer _ | _, _, text _ | _, _, var _ | _, _, callNone _ => True
  | _, _, group e => e.SimpleSigns
  | _, _, call _ arguments => arguments.SimpleSigns
  | _, _, negate e => e.isOperand
  | _, _, ofFactor e | _, _, ofProduct e | _, _, ofSum e => e.SimpleSigns
  | _, _, multiply left _ right => left.SimpleSigns ∧ right.SimpleSigns
  | _, _, add left _ right => left.SimpleSigns ∧ right.SimpleSigns
  | _, _, append left right => left.SimpleSigns ∧ right.SimpleSigns

instance decidableSimpleSigns :
    {level : Level} → {first : Bool} → (e : Expr level first) → Decidable e.SimpleSigns
  | _, _, integer _ | _, _, text _ | _, _, var _ | _, _, callNone _ =>
    inferInstanceAs (Decidable True)
  | _, _, group e => decidableSimpleSigns e
  | _, _, call _ arguments => decidableSimpleSigns arguments
  | _, _, negate e => inferInstanceAs (Decidable (e.isOperand = true))
  | _, _, ofFactor e | _, _, ofProduct e | _, _, ofSum e => decidableSimpleSigns e
  | _, _, multiply left _ right =>
    have := decidableSimpleSigns left
    have := decidableSimpleSigns right
    inferInstanceAs (Decidable (left.SimpleSigns ∧ right.SimpleSigns))
  | _, _, add left _ right =>
    have := decidableSimpleSigns left
    have := decidableSimpleSigns right
    inferInstanceAs (Decidable (left.SimpleSigns ∧ right.SimpleSigns))
  | _, _, append left right =>
    have := decidableSimpleSigns left
    have := decidableSimpleSigns right
    inferInstanceAs (Decidable (left.SimpleSigns ∧ right.SimpleSigns))

theorem reads_operator (k : Kind) (hk : k.isArithmetic) :
    Signs.quiet.Reads [.mark k] [.mark k] Signs.quiet := by
  have h := @Signs.reads_of_not_minus (.mark k) false (Or.inr rfl)
  have hexpects : (Word.mark k).expectsOperand = false := by
    cases k <;> first | rfl | cases hk
  rwa [hexpects] at h

theorem reads_opening (allowed : Bool) :
    Signs.Reads ⟨false, allowed⟩ [opening] [opening] ⟨false, true⟩ :=
  Signs.reads_of_not_minus (Or.inl (by decide))

theorem reads_closing (allowed : Bool) :
    Signs.Reads ⟨false, allowed⟩ [closing] [closing] Signs.quiet :=
  Signs.reads_of_not_minus (Or.inl (by decide))

theorem reads_callee (callee : String) (arity : Nat) (allowed : Bool) :
    Signs.Reads ⟨false, allowed⟩ [.callee callee arity] [.callee callee arity] Signs.quiet :=
  Signs.reads_of_not_minus (Or.inl (by simp [minus]))

theorem reads_signed {w : Word} (hw : w.isOperand) :
    Signs.Reads ⟨false, true⟩ [minus, w] [opening, zero, minus, w, closing] Signs.quiet := by
  have hexpects : w.expectsOperand = false := by
    cases w <;> first | rfl | cases hw
  constructor <;>
    simp [Signs.rewrite, Signs.after, Signs.written, Signs.next, hw, hexpects, Signs.quiet]

/-- Simple signs are written out as the structure of the expression says. -/
theorem reads_words (scope : String) (e : Expr level first) (h : e.SimpleSigns) :
    Signs.Reads ⟨false, first⟩ (e.words scope) (e.tree scope).tokens Signs.quiet := by
  induction e with
  | integer | text | var => exact Signs.reads_of_not_minus (Or.inl (by simp [minus]))
  | ofFactor e ih | ofProduct e ih | ofSum e ih => exact ih h
  | group e ih => exact (reads_opening _).cons ((ih h).append (reads_closing _))
  | callNone callee =>
    exact (reads_callee callee 0 _).cons ((reads_opening _).cons (reads_closing _))
  | call callee arguments ih =>
    exact (reads_callee callee _ _).cons
      ((reads_opening _).cons ((ih h).append (reads_closing _)))
  | negate e ih =>
    cases e with
    | integer | text | var => exact reads_signed rfl
    | group | callNone | call => cases h
  | multiply left operator right ihl ihr =>
    have hk := (Postfix.priority_of_multiplicative operator.2).1
    exact (ihl h.1).append ((reads_operator _ hk).cons (ihr h.2))
  | add left operator right ihl ihr =>
    have hk := (Postfix.priority_of_additive operator.2).1
    exact (ihl h.1).append ((reads_operator _ hk).cons (ihr h.2))
  | append left right ihl ihr =>
    have hcomma : Signs.quiet.Reads [comma] [comma] Signs.quiet :=
      Signs.reads_of_not_minus (Or.inr rfl)
    exact (ihl h.1).append (hcomma.cons (ihr h.2))

end Expr
end Ttm.Core
