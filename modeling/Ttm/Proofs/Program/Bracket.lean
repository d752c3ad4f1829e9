import Mathlib
import Ttm.Proofs.Program.Assembly
import Ttm.Proofs.Program.Fault

/-! The brackets of an accepted token list, and those at which a scan fails. -/
namespace Ttm.Program

open Lexeme (Kind)
open Source (Token)

/-- As many brackets of each form are closed as are opened. -/
structure Balanced (tokens : List Token) : Prop where
  parens : tokens.countP (·.spells .openParen) = tokens.countP (·.spells .closeParen)
  braces : tokens.countP (·.spells .openBrace) = tokens.countP (·.spells .closeBrace)

/-- No beginning of the list closes more brackets than it opens, or leaves more of them open than
the limit says. -/
def Fits (limit : Nat) (tokens : List Token) : Prop :=
  ∀ before, before <+: tokens →
    closed before ≤ opened before ∧ opened before ≤ closed before + limit

variable {settings : ScanSettings} {limits : Limits} {done tokens : List Token} {token : Token}
  {pieces : List Piece} {s t : Scan.State} {n maxDepth maxSymbols maxLexemes : Nat}
  {symbols : Symbol.Table} {metrics : Metrics}

theorem countP_or {α : Type} {p q : α → Bool} (h : ∀ a, p a → q a = false) (l : List α) :
    l.countP (fun a => p a || q a) = l.countP p + l.countP q := by
  induction l with
  | nil => rfl
  | cons a l ih =>
    rw [List.countP_cons, List.countP_cons, List.countP_cons, ih]
    cases hp : p a with
    | true =>
      simp only [h a hp, Bool.or_false, if_true, Bool.false_eq_true, if_false]
      omega
    | false =>
      simp only [Bool.false_or, Bool.false_eq_true, if_false]
      omega

theorem spells_ne {k k' : Kind} (hne : k.text ≠ k'.text) (h : token.spells k) :
    token.spells k' = false := by
  rw [Token.spells, beq_iff_eq] at h
  rw [Token.spells, h]
  exact beq_eq_false_iff_ne.mpr hne

theorem not_opens_of_closes (h : token.closes) : token.opens = false := by
  rw [Token.closes, Bool.or_eq_true] at h
  rw [Token.opens, Bool.or_eq_false_iff]
  rcases h with h | h <;> exact ⟨spells_ne (by decide) h, spells_ne (by decide) h⟩

theorem not_closes_of_opens (h : token.opens) : token.closes = false := by
  refine Bool.eq_false_iff.mpr fun hcloses => ?_
  rw [not_opens_of_closes hcloses] at h
  cases h

theorem opened_eq : opened tokens =
    tokens.countP (·.spells .openBrace) + tokens.countP (·.spells .openParen) :=
  countP_or (fun _ => spells_ne (by decide)) tokens

theorem closed_eq : closed tokens =
    tokens.countP (·.spells .closeBrace) + tokens.countP (·.spells .closeParen) :=
  countP_or (fun _ => spells_ne (by decide)) tokens

/-- What the check at the end settles. The table has no more closing parentheses than the tokens
have, but for those of signs that were opened before, so a missing one cannot be made up for. -/
structure Settles (tokens : List Token) (pieces : List Piece) (t : Scan.State) : Prop where
  balanced : Balanced tokens
  endings : pieces.countP Piece.ended = pieces.countP Piece.signed
  signOpen : t.signOpen = false

theorem Assembles.settles (h : Assembles tokens pieces t) (hf : Follows maxDepth tokens t)
    (hc : Scan.checkStructure t.program.lexemes = .ok ()) : Settles tokens pieces t := by
  obtain ⟨-, hparens, hbraces⟩ := Scan.checkStructure_eq_ok.mp hc
  have hkinds : t.program.lexemes.kinds = Piece.kinds pieces := by
    rw [Lexeme.Table.kinds, h.lexemes, Piece.kinds]
  have htally := Piece.tally h.formed
  rw [hkinds, htally.openParens, htally.closeParens, ← h.countP_spells (by decide),
    ← h.countP_spells (by decide)] at hparens
  rw [hkinds, htally.openBraces, htally.closeBraces, ← h.countP_spells (by decide),
    ← h.countP_spells (by decide)] at hbraces
  have hendings := h.endings
  have hdepth := hf.depth
  rw [opened_eq, closed_eq] at hdepth
  -- the excess of opening brackets in the tokens is the depth on one side, and on the other side
  -- what the signs that did not end take away; so both are zero
  refine ⟨⟨by omega, hbraces⟩, by omega, ?_⟩
  cases hsign : t.signOpen with
  | false => rfl
  | true =>
    rw [hsign, Bool.toNat_true] at hendings
    omega

theorem Follows.fits (h : Follows maxDepth done s) : Fits maxDepth done := by
  intro before hbefore
  have hcovered := h.nested.covered before hbefore
  have hbounded := h.nested.bounded before hbefore
  have hwithin := h.within
  omega

/-- Every accepted scan into an empty lexeme table goes through pieces for all of its tokens. -/
theorem assembled_of_steps
    (hr : (Symbol.Table.empty maxSymbols).registerLibrary = (.ok n, symbols))
    (hs : Scan.scanTokens tokens (.begin settings maxDepth symbols (.empty maxLexemes)) =
      .ok () t) :
    Follows maxDepth tokens t ∧ ∃ pieces, Assembles tokens pieces t := by
  have hrun := Scan.scanTokens_history
    (P := fun done _ u => Scan.Ready u ∧ Follows maxDepth done u ∧
      ∃ pieces, Assembles done pieces u) ?_
    ⟨ready_library hr, follows_begin, [], assembles_begin⟩ hs
  · exact hrun.2
  · rintro done token rest u v ⟨hready, hfollows, pieces, hpieces⟩ hstep -
    obtain ⟨b, hb⟩ := hstep.leaves hready.1.indexed
    exact ⟨hready.step hstep, hfollows.step hstep, _, hpieces.concat hb⟩

/-- The brackets of an accepted token list are balanced, never close what is not open, and are as
deep as the scan says. Where a scan fails at a bracket, those before it fit, and this one does
not. -/
theorem scan_nesting (limits : Limits) (settings : ScanSettings) (p : Program)
    (maxDepth maxSymbols maxLexemes : Nat) (tokens : List Token) :
    (∀ metrics, (scan settings maxDepth tokens (empty maxSymbols maxLexemes)).result = .ok metrics →
      Balanced tokens ∧ Nested tokens metrics.maxScopeDepth ∧
        metrics.maxScopeDepth ≤ maxDepth) ∧
    (∀ detail line,
      (scan settings maxDepth tokens p).result = .error (.unbalancedBrackets detail (some line)) →
      ∃ done token rest, tokens = done ++ token :: rest ∧ token.line = line ∧ token.closes ∧
        opened done = closed done ∧ Fits maxDepth done) ∧
    (∀ max line, (scan settings maxDepth tokens p).result = .error (.scopeTooDeep max line) →
      max = maxDepth ∧ ∃ done token rest, tokens = done ++ token :: rest ∧ token.line = line ∧
        token.opens ∧ opened done = closed done + maxDepth ∧ Fits maxDepth done) := by
  refine ⟨fun metrics h => ?_, fun detail line h => ?_, fun max line h => ?_⟩
  · obtain ⟨n, symbols, t, hr, hs, hc, hscan⟩ := steps_of_scan h
    obtain ⟨hfollows, pieces, hpieces⟩ := assembled_of_steps hr hs
    rw [hscan] at h
    obtain rfl : t.summary tokens = metrics := Except.ok.inj h
    exact ⟨(hpieces.settles hfollows hc).balanced, hfollows.nested, hfollows.within⟩
  · obtain ⟨done, token, rest, u, rfl, hu, hunfit⟩ := unfit_of_scan h rfl
    cases hunfit with
    | unopened hk hd =>
      have hdepth := hu.depth
      exact ⟨done, token, rest, rfl, rfl, hk, by omega, hu.fits⟩
  · obtain ⟨done, token, rest, u, rfl, hu, hunfit⟩ := unfit_of_scan h rfl
    cases hunfit with
    | tooDeep hk hd =>
      have hdepth := hu.depth
      have hbounded := hu.nested.bounded done List.prefix_rfl
      have hwithin := hu.within
      rw [hu.limit] at hd ⊢
      exact ⟨rfl, done, token, rest, rfl, rfl, hk, by omega, hu.fits⟩

/-- A header, and a body in which a call stands. -/
def bracketed : List Token :=
  oneLine 1 ["fn", "i32", "main", "(", ")"] ++
    oneLine 2 ["\x7b", "echo", "parseInt", "(", ")", ";", "\x7d"]

theorem scan_nesting_bracketed :
    (Balanced bracketed ∧ Nested bracketed 2 ∧ 2 ≤ 2) ∧
    (∃ done token rest, bracketed ++ [⟨")", 3⟩] = done ++ token :: rest ∧ token.line = 3 ∧
      token.closes ∧ opened done = closed done ∧ Fits 2 done) ∧
    1 = 1 ∧ ∃ done token rest, bracketed = done ++ token :: rest ∧ token.line = 2 ∧
      token.opens ∧ opened done = closed done + 1 ∧ Fits 1 done :=
  ⟨(scan_nesting .development {} (empty 6 13) 2 6 13 bracketed).1
      { tokens := 12, lexemes := 12, symbols := 6, declarations := 1, maxScopeDepth := 2 }
      (by cbv),
    (scan_nesting .development {} (empty 6 13) 2 6 13 (bracketed ++ [⟨")", 3⟩])).2.1
      "closing bracket without an opening bracket" 3 (by cbv),
    (scan_nesting .development {} (empty 6 13) 1 6 13 bracketed).2.2 1 2 (by cbv)⟩

end Ttm.Program
