import Ttm.Proofs.Program.CrossReference

/-! What is known of a scan between two tokens: those done, and those still to come. -/
namespace Ttm.Program

open Lexeme (Kind)
open Source (Token)

variable {limits : Limits} {p u : Program} {l : Lexeme} {i : Nat} {x : Symbol}

theorem kinds_addLexeme : (p.addLexeme l).lexemes.kinds = p.lexemes.kinds ++ [l.kind] :=
  Lexeme.Table.kinds_add

theorem size_addLexeme : (p.addLexeme l).lexemes.size = p.lexemes.size + 1 :=
  Lexeme.Table.size_add

theorem Grows.get? (h : Grows p u) (hx : p.symbols.get? i = some x) :
    u.symbols.get? i = some x := by
  induction h with
  | refl => exact hx
  | bare _ _ _ ih => exact ih
  | refer _ ha ih =>
    cases ha with
    | known => exact ih
    | added => exact Symbol.Table.get?_add ih

theorem Grows.lexeme (h : Grows p u) (hl : p.lexemes.get? i = some l) :
    u.lexemes.get? i = some l := by
  induction h with
  | refl => exact hl
  | bare _ _ _ ih => exact Lexeme.Table.get?_add ih
  | refer _ ha ih =>
    cases ha with
    | known | added => exact Lexeme.Table.get?_add ih

/-- A lexeme that is in the table keeps its symbol, and so what it stands for. -/
theorem Grows.isFunction (h : Grows p u) (hl : l.Linked p.symbols) :
    u.symbols.isFunction l.symbol = p.symbols.isFunction l.symbol := by
  cases hl with
  | bare => rfl
  | pointing hx =>
    simp only [Symbol.Table.isFunction, Option.bind_some, hx, h.get? hx]

theorem Grows.trans {v : Program} (h : Grows p u) (h' : Grows u v) : Grows p v := by
  induction h' with
  | refl => exact h
  | bare _ hk hw ih => exact ih.bare hk hw
  | refer _ ha ih => exact ih.refer ha

namespace Scan

variable {s t : State} {tokens : List Token} {e : Error}

/-- What holds of the tokens done and to come, and is kept by every accepted token, holds when all
are done. -/
theorem scanTokens_history {P : List Token → List Token → State → Prop}
    (hstep : ∀ done token rest u v, P done (token :: rest) u → Step token (opensCall rest) u v →
      scanTokens rest v = .ok () t → P (done ++ [token]) rest v)
    (hs : P [] tokens s) (h : scanTokens tokens s = .ok () t) : P tokens [] t := by
  -- generalised over the tokens done, since the induction is on those to come
  have hfrom (done rest : List Token) (u : State) (hu : P done rest u)
      (hrest : scanTokens rest u = .ok () t) : P (done ++ rest) [] t := by
    induction rest generalizing done u with
    | nil =>
      obtain ⟨-, rfl⟩ := pure_eq_ok.mp hrest
      rwa [List.append_nil]
    | cons token rest ih =>
      obtain ⟨v, hv, hrest⟩ := scanTokens_cons_eq_ok.mp hrest
      rw [List.append_cons]
      exact ih _ _ (hstep _ _ _ _ _ hu hv hrest) hrest
  exact hfrom [] tokens s hs h

/-- Where a scan fails, it fails at a token, behind others that were accepted. -/
theorem scanTokens_failure {P : List Token → State → Prop}
    (hstep : ∀ done token called u v, P done u → Step token called u v → P (done ++ [token]) v)
    (hs : P [] s) (h : scanTokens tokens s = .error e t) :
    ∃ done token rest u, tokens = done ++ token :: rest ∧ P done u ∧
      scanToken token (opensCall rest) u = .error e t := by
  have hfrom (done rest : List Token) (u : State) (hu : P done u)
      (hrest : scanTokens rest u = .error e t) :
      ∃ before token after v, done ++ rest = before ++ token :: after ∧ P before v ∧
        scanToken token (opensCall after) v = .error e t := by
    induction rest generalizing done u with
    | nil => cases hrest
    | cons token rest ih =>
      rcases bind_eq_error.mp hrest with hfail | ⟨_, v, hv, hrest⟩
      · exact ⟨done, token, rest, u, rfl, hu, hfail⟩
      · rw [List.append_cons]
        exact ih _ _ (hstep _ _ _ _ _ hu (scanToken_eq_ok.mp hv)) hrest
  exact hfrom [] tokens s hs h

theorem Ready.grows (h : Ready s) (hrun : scanTokens tokens s = .ok () t) :
    s.program.Grows t.program := by
  have hrun := scanTokens_induction (P := fun u => Ready u ∧ s.program.Grows u.program)
    (fun token called u v hu hstep =>
      ⟨hu.1.step hstep, hu.2.trans (hstep.grows hu.1).1⟩) ⟨h, .refl⟩ hrun
  exact hrun.2

end Scan

variable {settings : ScanSettings} {maxSymbols maxLexemes maxDepth n : Nat} {symbols : Symbol.Table}
  {tokens : List Token} {e : Error}

theorem ready_library
    (h : (Symbol.Table.empty maxSymbols).registerLibrary = (.ok n, symbols)) :
    Scan.Ready (.begin settings maxDepth symbols (.empty maxLexemes)) := by
  have hlinked := (linked_empty maxSymbols maxLexemes).registerLibrary
  rw [empty, h] at hlinked
  exact ⟨hlinked, by simp [Scan.State.begin]⟩

/-- A scan fails when the library finds no room, at a token, or in the check at the end. -/
theorem failure_of_scan (h : (scan settings maxDepth tokens p).result = .error e) :
    (∃ cause, e = Scan.ofTableError (Scan.firstLine tokens) cause) ∨
    (∃ n symbols t, p.symbols.registerLibrary = (.ok n, symbols) ∧
      Scan.scanTokens tokens (.begin settings maxDepth symbols p.lexemes) = .error e t) ∨
    ∃ n symbols t, p.symbols.registerLibrary = (.ok n, symbols) ∧
      Scan.scanTokens tokens (.begin settings maxDepth symbols p.lexemes) = .ok () t ∧
      Scan.checkStructure t.program.lexemes = .error e := by
  have hrun : ∃ t, Scan.run tokens (.begin settings maxDepth p.symbols p.lexemes) = .error e t := by
    unfold scan at h
    split at h
    · cases h
    · next hrun =>
      cases h
      exact ⟨_, hrun⟩
  obtain ⟨t, hrun⟩ := hrun
  unfold Scan.run at hrun
  simp only [Scan.bind_eq_error, Scan.registerLibrary_eq_ok, Scan.get_bind] at hrun
  rcases hrun with hlibrary | ⟨_, _, ⟨n, symbols, hr, rfl⟩, htokens | ⟨_, u, hu, hcheck⟩⟩
  · unfold Scan.registerLibrary at hlibrary
    split at hlibrary <;> cases hlibrary
    exact Or.inl ⟨_, rfl⟩
  · exact Or.inr (Or.inl ⟨n, symbols, t, hr, htokens⟩)
  · cases hc : Scan.checkStructure u.program.lexemes with
    | error cause =>
      rw [hc] at hcheck
      obtain ⟨rfl, -⟩ := Scan.raise_eq_error.mp hcheck
      exact Or.inr (Or.inr ⟨n, symbols, u, hr, hu, hc⟩)
    | ok _ =>
      rw [hc] at hcheck
      exact (Scan.pure_eq_error.mp hcheck).elim

/-- The tokens of one line. -/
def oneLine (line : Nat) (texts : List String) : List Token := texts.map (⟨·, line⟩)

end Ttm.Program
