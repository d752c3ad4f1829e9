import Ttm.Postfix.Statement

/-! What the parts of a statement say about it when it is put into postfix order. -/
namespace Ttm.Postfix

open Lexeme (Kind)

variable {limits : Limits} {symbols : Symbol.Table} {l : Lexeme} {ls rest reordered : List Lexeme}
  {w w' : Tally}

theorem isTerminator_iff : isTerminator l ↔ l.kind = .semicolon := beq_iff_eq

theorem kind_of_isCallee (h : isCallee symbols l) : l.kind = .identifier := by
  rw [isCallee, Bool.and_eq_true, beq_iff_eq] at h
  exact h.1

/-- Parentheses are counted where they stand. -/
theorem weigh_brackets (h : weigh symbols l rest w = .ok w') :
    w'.opened = w.opened + [l.kind].count .openParen ∧
      w'.closed = w.closed + [l.kind].count .closeParen := by
  cases hk : l.kind
  case identifier =>
    simp only [weigh, hk] at h
    split at h
    · cases h
      split <;> exact ⟨rfl, rfl⟩
    · cases h
      exact ⟨rfl, rfl⟩
  case literal | comma | openParen | closeParen | semicolon =>
    simp only [weigh, hk] at h
    cases h
    exact ⟨rfl, rfl⟩
  case plus | minus | star | slash | percent =>
    simp only [weigh, hk, Kind.isArithmetic, if_true] at h
    cases h
    exact ⟨rfl, rfl⟩
  all_goals
    simp only [weigh, hk, Kind.isArithmetic, Bool.false_eq_true, if_false] at h
    cases h

theorem tally_brackets (h : tally symbols ls w = .ok w') :
    w'.opened = w.opened + (ls.map (·.kind)).count .openParen ∧
      w'.closed = w.closed + (ls.map (·.kind)).count .closeParen := by
  induction ls generalizing w with
  | nil =>
    cases h
    exact ⟨rfl, rfl⟩
  | cons l ls ih =>
    rw [tally] at h
    cases hw : weigh symbols l ls w with
    | error reason =>
      rw [hw] at h
      cases h
    | ok w₁ =>
      rw [hw] at h
      obtain ⟨hopened, hclosed⟩ := weigh_brackets hw
      obtain ⟨hopened', hclosed'⟩ := ih h
      rw [List.map_cons, ← List.singleton_append, List.count_append, List.count_append]
      exact ⟨by omega, by omega⟩

theorem check_eq_ok : w.check = .ok () ↔ w.opened = w.closed ∧ w.operands - w.operators = 1 := by
  unfold Tally.check
  split
  · simp_all
  · split <;> simp_all

/-- A statement is put into postfix order when it is not too long, its parts are of the right
number, and its calls, once marked, can be read with a stack. -/
theorem ofStatement_eq_ok : ofStatement symbols ls = .ok reordered ↔
    ls.length ≤ Limits.maxStatementLength ∧
      (∃ w, tally symbols ls {} = .ok w ∧ w.opened = w.closed ∧
        w.operands - w.operators = 1) ∧
      shunt (ls.map (markCall symbols)) [] [] = .ok reordered.reverse := by
  have horder (marked : List Lexeme) : reorder marked = .ok reordered ↔
      shunt marked [] [] = .ok reordered.reverse := by
    unfold reorder
    cases shunt marked [] [] with
    | error reason => simp [Except.map]
    | ok result => simp [Except.map, List.reverse_eq_iff]
  simp only [ofStatement]
  by_cases hlong : Limits.maxStatementLength < ls.length
  · simp only [hlong, if_true]
    constructor
    · intro h
      cases h
    · rintro ⟨hlength, -⟩
      omega
  simp only [hlong, if_false, markCalls]
  cases htally : tally symbols ls {} with
  | error reason => simp [bind, Except.bind]
  | ok w =>
    cases hcheck : w.check with
    | error reason =>
      have hno : ¬ (w.opened = w.closed ∧ w.operands - w.operators = 1) := by
        rw [← check_eq_ok, hcheck]
        simp
      simp [bind, Except.bind, hcheck, hno]
    | ok _ =>
      have hyes := check_eq_ok.mp hcheck
      simp [bind, Except.bind, pure, Except.pure, hcheck, horder, hyes, Nat.le_of_not_lt hlong]

theorem count_of_ofStatement (h : ofStatement symbols ls = .ok reordered) :
    (ls.map (·.kind)).count .openParen = (ls.map (·.kind)).count .closeParen := by
  obtain ⟨-, ⟨w, htally, hpaired, -⟩, -⟩ := ofStatement_eq_ok.mp h
  obtain ⟨hopened, hclosed⟩ := tally_brackets htally
  simp only [Nat.zero_add] at hopened hclosed
  rw [← hopened, ← hclosed, hpaired]

/-- Kinds that a statement can be made of. -/
def isPart (k : Kind) : Bool :=
  k.isArithmetic || k ∈ [.identifier, .literal, .comma, .openParen, .closeParen, .semicolon]

theorem isPart_of_weigh (h : weigh symbols l rest w = .ok w') : isPart l.kind := by
  cases hk : l.kind <;> first
    | rfl
    | simp [weigh, hk, Kind.isArithmetic] at h

theorem isPart_of_tally (h : tally symbols ls w = .ok w') : ∀ l ∈ ls, isPart l.kind := by
  induction ls generalizing w with
  | nil => simp
  | cons l ls ih =>
    rw [tally] at h
    cases hw : weigh symbols l ls w with
    | error reason =>
      rw [hw] at h
      cases h
    | ok w₁ =>
      rw [hw] at h
      exact List.forall_mem_cons.mpr ⟨isPart_of_weigh hw, ih h⟩

end Ttm.Postfix
