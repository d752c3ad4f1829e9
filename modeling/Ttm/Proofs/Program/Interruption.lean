import Ttm.Proofs.Program.Step

/-! What a scan leaves behind when a token fails. -/
namespace Ttm.Program

open Lexeme (Kind)
open Source (Token)

namespace Scan

/-- The tables behind a token that is not accepted. -/
inductive Interrupted [Limits] (token : Token) (called : Bool) (s : State) : Program → Prop
  | unchanged : Interrupted token called s s.program
  | resolved {k : Kind} {index : Nat} {u : State} (hr : Resolves token called s k index u) :
    Interrupted token called s u.program
  | referred {k : Kind} {index : Nat} {u : State} (hr : Resolves token called s k index u) :
    Interrupted token called s (u.addLexeme ⟨k, token.line, some index⟩).program
  | opened : Interrupted token called s (s.addLexeme ⟨.openParen, token.line, none⟩).program
  | zero {index : Nat} {u : State}
    (hi : Interns .i32 "0" (s.addLexeme ⟨.openParen, token.line, none⟩) index u) :
    Interrupted token called s u.program
  | zeroReferred {index : Nat} {u : State}
    (hi : Interns .i32 "0" (s.addLexeme ⟨.openParen, token.line, none⟩) index u) :
    Interrupted token called s (u.addLexeme ⟨.literal, token.line, some index⟩).program

variable {limits : Limits} {s t : State} {token : Token} {called : Bool} {index line : Nat}
  {e : Error} {type : DataType} {value : String}

theorem refers_error {k : Kind} {c : State → Prop} [DecidablePred c]
    (h : (do emit k line (some index)
             let u ← get
             if c u then closeSign line : Action Unit) s = .error e t) :
    t.program = s.program ∨ t.program = (s.addLexeme ⟨k, line, some index⟩).program := by
  simp only [bind_eq_error, emit_eq_error, emit_eq_ok, get_bind, ite_eq_error, pure_eq_error] at h
  rcases h with ⟨-, -, rfl⟩ | ⟨_, _, ⟨-, rfl⟩, ⟨-, h⟩ | ⟨-, h⟩⟩
  · exact Or.inl rfl
  · exact Or.inr (by rw [closeSign_eq_error h, note_program])
  · exact h.elim

theorem Resolves.interrupted {k : Kind} {u : State} (hr : Resolves token called s k index u)
    (h : t.program = u.program ∨ t.program = (u.addLexeme ⟨k, token.line, some index⟩).program) :
    Interrupted token called s t.program := by
  rcases h with h | h
  · rw [h]
    exact .resolved hr
  · rw [h]
    exact .referred hr

theorem scanIdentifier_eq_error (hk : Kind.ofText? token.text = some .identifier)
    (h : scanIdentifier token.text token.line called s = .error e t) :
    Interrupted token called s t.program := by
  by_cases hself : token.text = s.scopes.current ∧ !called
  · simp only [scanIdentifier, get_bind, hself, and_self, if_true, raise_bind] at h
    cases h
    exact .unchanged
  have hself' : token.text = s.scopes.current → called := by simpa using hself
  simp only [scanIdentifier, get_bind, if_neg hself] at h
  cases hl : s.program.symbols.lookup (s.lookupScope called) token.text with
  | some found =>
    rw [hl] at h
    cases hd : s.declarationKind? with
    | some kind =>
      simp only [hd, Option.isSome_some, if_true, raise_bind] at h
      cases h
      exact .unchanged
    | none =>
      simp only [hd, Option.isSome_none, Bool.false_eq_true, if_false, pure_bind] at h
      exact (Resolves.found hk hself' hl hd).interrupted (refers_error h)
  | none =>
    rw [hl] at h
    rcases bind_eq_error.mp h with h | ⟨index, u, hdeclare, h⟩
    · rw [declare_eq_error h]
      exact .unchanged
    · obtain ⟨kind, type, hd, ht, hr, rfl, rfl⟩ := declare_eq_ok.mp hdeclare
      exact (Resolves.declared hk hself' hl hd ht hr).interrupted (refers_error h)

theorem emit_error_program {k : Kind} {symbol : Option Nat}
    (h : emit k line symbol s = .error e t) : t.program = s.program := by
  rw [(emit_eq_error.mp h).2.2, note_program]

theorem scanMain_eq_error (hk : Kind.ofText? token.text = some .mainWord)
    (h : scanMain token.line s = .error e t) : Interrupted token called s t.program := by
  simp only [scanMain, get_bind] at h
  cases hl : s.program.symbols.lookup Symbol.globalScope Kind.mainWord.text with
  | some found =>
    rw [hl] at h
    cases hd : s.program.lexemes.declaresFunction with
    | true =>
      simp only [hd, if_true, raise_bind] at h
      cases h
      exact .unchanged
    | false =>
      simp only [hd, Bool.false_eq_true, if_false, pure_bind] at h
      exact (Resolves.main hk hl hd).interrupted (Or.inl (emit_error_program h))
  | none =>
    rw [hl] at h
    cases hd : s.program.lexemes.declaresFunction with
    | false =>
      simp only [hd, Bool.not_false, if_true, raise_bind] at h
      cases h
      exact .unchanged
    | true =>
      by_cases ht : s.pendingType = some .i32
      · simp only [hd, Bool.not_true, Bool.false_eq_true, if_false, ht, ne_eq, not_true_eq_false,
          modify_bind, bind_eq_error] at h
        rcases h with h | ⟨index, u, hdeclare, h⟩
        · rw [insertDeclaration_eq_error h]
          exact .unchanged
        · obtain ⟨type, ht', hr, rfl, rfl⟩ := insertDeclaration_eq_ok.mp hdeclare
          have htype : DataType.i32 = type := Option.some.inj (ht.symm.trans ht')
          subst htype
          exact (Resolves.mainDeclared hk hl hd ht hr).interrupted (Or.inl (emit_error_program h))
      · simp only [hd, Bool.not_true, Bool.false_eq_true, if_false, ht, ne_eq, not_false_eq_true,
          if_true, raise_bind] at h
        cases h
        exact .unchanged

theorem scanLiteral_eq_error (hv : literal? token.text = some (type, value))
    (h : scanLiteral type value token.line s = .error e t) :
    Interrupted token called s t.program := by
  rcases bind_eq_error.mp h with h | ⟨index, u, hi, h⟩
  · rw [intern_eq_error h]
    exact .unchanged
  · exact (Resolves.literal hv (intern_eq_ok_iff.mp hi)).interrupted (refers_error h)

theorem scanInteger_eq_error (hk : Kind.ofText? token.text = some .integer)
    (h : scanInteger token.text token.line s = .error e t) :
    Interrupted token called s t.program := by
  unfold scanInteger at h
  cases hn : Lexeme.decimal? maxInteger token.text.toList with
  | none =>
    rw [hn] at h
    rw [(raise_eq_error.mp h).2]
    exact .unchanged
  | some n =>
    rw [hn] at h
    exact scanLiteral_eq_error (by simp [literal?, hk, hn]) h

theorem scanString_eq_error (hk : Kind.ofText? token.text = some .string)
    (h : scanString token.text token.line s = .error e t) :
    Interrupted token called s t.program := by
  unfold scanString at h
  cases hc : token.text.toList.tail.dropLast with
  | nil =>
    rw [hc] at h
    rw [(raise_eq_error.mp h).2]
    exact .unchanged
  | cons c content =>
    rw [hc] at h
    exact scanLiteral_eq_error (by simp only [literal?, hk, hc]) h

theorem openSign_eq_error (h : openSign token.line s = .error e t) :
    Interrupted token called s t.program := by
  simp only [openSign, bind_eq_error, emit_eq_ok, intern_eq_ok_iff, modify_eq_error] at h
  rcases h with h | ⟨_, _, ⟨-, rfl⟩, h | ⟨index, u, hi, h | ⟨_, _, ⟨-, rfl⟩, h | ⟨_, _, -, h⟩⟩⟩⟩
  · rw [emit_error_program h]
    exact .unchanged
  · rw [intern_eq_error h]
    exact .opened
  · rw [emit_error_program h]
    exact .zero hi
  · rw [emit_error_program h]
    exact .zeroReferred hi
  · exact h.elim

theorem enterScope_eq_error (h : enterScope line s = .error e t) :
    t = s.note (.failed e) := by
  unfold enterScope at h
  split at h <;> cases h <;> rfl

theorem leaveScope_eq_error (h : leaveScope line s = .error e t) :
    t = s.note (.failed e) := by
  unfold leaveScope at h
  split at h <;> cases h
  rfl

theorem scanToken_eq_error (h : scanToken token called s = .error e t) :
    Interrupted token called s t.program := by
  cases hk : Kind.ofText? token.text with
  | none =>
    simp only [scanToken, hk, raise_eq_error] at h
    rw [h.2]
    exact .unchanged
  | some k =>
    by_cases hp : isPlain k
    · rw [scanToken_of_plain hk hp] at h
      rw [emit_error_program h]
      exact .unchanged
    by_cases hopen : k = .openBrace ∨ k = .openParen
    · rw [scanToken_of_opening hk hopen] at h
      rcases bind_eq_error.mp h with h | ⟨_, u, hu, h⟩
      · rw [enterScope_eq_error h]
        exact .unchanged
      · obtain ⟨scopes, -, rfl⟩ := enterScope_eq_ok.mp hu
        rw [emit_error_program h]
        exact .unchanged
    by_cases hclose : k = .closeBrace ∨ k = .closeParen
    · rw [scanToken_of_closing hk hclose] at h
      rcases bind_eq_error.mp h with h | ⟨_, u, hu, h⟩
      · rw [leaveScope_eq_error h]
        exact .unchanged
      · obtain ⟨scopes, -, rfl⟩ := leaveScope_eq_ok.mp hu
        rw [emit_error_program h]
        exact .unchanged
    unfold scanToken at h
    rw [hk] at h
    cases k with
    | i32 | str =>
      simp only [scanDatatype, modify_bind] at h
      rw [emit_error_program h]
      exact .unchanged
    | mainWord => exact scanMain_eq_error hk h
    | identifier => exact scanIdentifier_eq_error hk h
    | integer => exact scanInteger_eq_error hk h
    | string => exact scanString_eq_error hk h
    | minus =>
      simp only [scanMinus, get_bind, ite_eq_error] at h
      rcases h with ⟨-, h⟩ | ⟨-, h⟩
      · exact openSign_eq_error h
      · rw [emit_error_program h]
        exact .unchanged
    | openBrace | openParen => simp at hopen
    | closeBrace | closeParen => simp at hclose
    | _ => exact absurd rfl hp

/-- What every accepted token keeps, and a rejected one does not destroy, holds where a run
fails. -/
theorem scanTokens_error_induction {P : State → Prop} {Q : Program → Prop} {tokens : List Token}
    (hstep : ∀ token called s t, P s → Step token called s t → P t)
    (hstop : ∀ token called s p, P s → Interrupted token called s p → Q p) (hs : P s)
    (h : scanTokens tokens s = .error e t) : Q t.program := by
  induction tokens generalizing s with
  | nil => cases h
  | cons token tokens ih =>
    rcases bind_eq_error.mp h with h | ⟨_, u, hu, hrest⟩
    · exact hstop _ _ _ _ hs (scanToken_eq_error h)
    · exact ih (hstep _ _ _ _ hs (scanToken_eq_ok.mp hu)) hrest

theorem registerLibrary_eq_error (h : registerLibrary line s = .error e t) :
    t = { s with program.symbols := s.program.symbols.registerLibrary.2 }.note (.failed e) := by
  unfold registerLibrary at h
  split at h <;> cases h
  next hr => rw [hr]

theorem run_eq_error {tokens : List Token} (h : run tokens s = .error e t) :
    t = { s with program.symbols := s.program.symbols.registerLibrary.2 }.note (.failed e) ∨
    scanTokens tokens { s with program.symbols := s.program.symbols.registerLibrary.2 } =
      .error e t ∨
    ∃ u, scanTokens tokens { s with program.symbols := s.program.symbols.registerLibrary.2 } =
      .ok () u ∧ t = u.note (.failed e) := by
  unfold run at h
  simp only [bind_eq_error, registerLibrary_eq_ok, get_bind] at h
  rcases h with h | ⟨_, _, ⟨n, symbols, hr, rfl⟩, h | ⟨_, u, hu, h⟩⟩
  · exact Or.inl (registerLibrary_eq_error h)
  · rw [hr]
    exact Or.inr (Or.inl h)
  · rw [hr]
    cases hc : checkStructure u.program.lexemes with
    | error e =>
      rw [hc] at h
      obtain ⟨rfl, rfl⟩ := raise_eq_error.mp h
      exact Or.inr (Or.inr ⟨u, hu, rfl⟩)
    | ok _ =>
      rw [hc] at h
      exact (pure_eq_error.mp h).elim

end Scan

variable {limits : Limits}

/-- What holds with the library in the tables, and every token keeps, holds behind a scan, whether
it succeeds or fails. -/
theorem scan_induction {P : Scan.State → Prop} {Q : Program → Prop} {p : Program}
    {settings : ScanSettings} {maxDepth : Nat} {tokens : List Token}
    (hstep : ∀ token called s t, P s → Scan.Step token called s t → P t)
    (hstop : ∀ token called s p, P s → Scan.Interrupted token called s p → Q p)
    (hkept : ∀ s, P s → Q s.program)
    (h : P (.begin settings maxDepth p.symbols.registerLibrary.2 p.lexemes)) :
    Q (scan settings maxDepth tokens p).program := by
  unfold scan
  split
  · next hrun =>
    obtain ⟨n, symbols, hr, htokens, -, -⟩ := Scan.run_eq_ok.mp hrun
    rw [hr] at h
    exact hkept _ (Scan.scanTokens_induction hstep h htokens)
  · next hrun =>
    rcases Scan.run_eq_error hrun with rfl | htokens | ⟨u, htokens, rfl⟩
    · rw [Scan.note_program]
      exact hkept _ h
    · exact Scan.scanTokens_error_induction hstep hstop h htokens
    · rw [Scan.note_program]
      exact hkept _ (Scan.scanTokens_induction hstep h htokens)

end Ttm.Program
