import Ttm.Proofs.Program.Image

/-! Tokens whose brackets are paired, and the scans of them that fail for brackets all the same. -/
namespace Ttm.Program

open Lexeme (Kind SignLost)
open Source (Token)

/-- Every closing bracket has an opening one of its form before it, and none is left open. -/
structure Paired (tokens : List Token) : Prop where
  parens : ∀ before, before <+: tokens →
    before.countP (·.spells .closeParen) ≤ before.countP (·.spells .openParen)
  braces : ∀ before, before <+: tokens →
    before.countP (·.spells .closeBrace) ≤ before.countP (·.spells .openBrace)
  balanced : Balanced tokens

/-- All tokens are accepted, and pieces for them make up the lexeme table. -/
structure Accepted [Limits] (settings : ScanSettings) (maxDepth maxSymbols maxLexemes : Nat)
    (tokens : List Token) (t : Scan.State) (pieces : List Piece) : Prop where
  steps : ∃ n symbols, (Symbol.Table.empty maxSymbols).registerLibrary = (.ok n, symbols) ∧
    Scan.scanTokens tokens (.begin settings maxDepth symbols (.empty maxLexemes)) = .ok () t
  assembles : Assembles tokens pieces t
  signs : Signs t.program.symbols pieces t.signOpen

section

variable {limits : Limits} {settings : ScanSettings} {tokens before : List Token} {t : Scan.State}
  {pieces : List Piece} {p : Program} {symbols : Symbol.Table} {lexemes : Lexeme.Table}
  {n maxDepth maxSymbols maxLexemes : Nat} {detail : String} {line : Option Nat} {e : Error}

theorem Paired.covered (h : Paired tokens) (hbefore : before <+: tokens) :
    closed before ≤ opened before := by
  have hparens := h.parens before hbefore
  have hbraces := h.braces before hbefore
  rw [opened_eq, closed_eq]
  omega

theorem checkPair_of_ne {opening closing : Kind}
    (hne : lexemes.kinds.count opening ≠ lexemes.kinds.count closing) :
    ∃ detail,
      Scan.checkPair opening closing lexemes = .error (.unbalancedBrackets detail none) := by
  simp [Scan.checkPair, Lexeme.Table.countKind_eq, hne]

theorem checkPair_eq_error {opening closing : Kind}
    (h : Scan.checkPair opening closing lexemes = .error e) :
    lexemes.kinds.count opening ≠ lexemes.kinds.count closing ∧
      ∃ detail, e = .unbalancedBrackets detail none := by
  have hne : lexemes.kinds.count opening ≠ lexemes.kinds.count closing := by
    intro heq
    rw [Scan.checkPair_eq_ok (u := ()) |>.mpr heq] at h
    cases h
  obtain ⟨detail, hdetail⟩ := checkPair_of_ne hne
  cases h.symm.trans hdetail
  exact ⟨hne, detail, rfl⟩

/-- The check at the end fails for brackets where there is an entry point, but brackets of one form
are not equally many. -/
theorem checkStructure_eq_unbalanced
    (h : Scan.checkStructure lexemes = .error (.unbalancedBrackets detail line)) :
    line = none ∧ .mainWord ∈ lexemes.kinds ∧
      (lexemes.kinds.count .openParen ≠ lexemes.kinds.count .closeParen ∨
        lexemes.kinds.count .openBrace ≠ lexemes.kinds.count .closeBrace) := by
  unfold Scan.checkStructure at h
  by_cases hmain : lexemes.hasKind .mainWord
  · simp only [hmain, Bool.not_true, Bool.false_eq_true, if_false] at h
    have hmem := Lexeme.Table.hasKind_iff.mp hmain
    rcases hparens : Scan.checkPair .openParen .closeParen lexemes with cause | _
    · rw [hparens] at h
      cases h
      obtain ⟨hne, _, herror⟩ := checkPair_eq_error hparens
      cases herror
      exact ⟨rfl, hmem, Or.inl hne⟩
    · rw [hparens] at h
      obtain ⟨hne, _, herror⟩ := checkPair_eq_error h
      cases herror
      exact ⟨rfl, hmem, Or.inr hne⟩
  · simp only [hmain, Bool.not_false, if_true] at h
    cases h

theorem checkStructure_of_parens (hmain : .mainWord ∈ lexemes.kinds)
    (hne : lexemes.kinds.count .openParen ≠ lexemes.kinds.count .closeParen) :
    ∃ detail, Scan.checkStructure lexemes = .error (.unbalancedBrackets detail none) := by
  obtain ⟨detail, hdetail⟩ := checkPair_of_ne hne
  refine ⟨detail, ?_⟩
  unfold Scan.checkStructure
  rw [Lexeme.Table.hasKind_iff.mpr hmain, hdetail]
  rfl

/-- Where all tokens are accepted, the scan fails as the check at the end does. -/
theorem result_of_check (hr : p.symbols.registerLibrary = (.ok n, symbols))
    (hs : Scan.scanTokens tokens (.begin settings maxDepth symbols p.lexemes) = .ok () t)
    (hc : Scan.checkStructure t.program.lexemes = .error e) :
    (scan settings maxDepth tokens p).result = .error e := by
  have hrun : Scan.run tokens (.begin settings maxDepth p.symbols p.lexemes) =
      .error e (t.note (.failed e)) := by
    unfold Scan.run
    simp only [Scan.bind_eq_error, Scan.registerLibrary_eq_ok, Scan.get_bind]
    refine Or.inr ⟨(), _, ⟨n, symbols, hr, rfl⟩, Or.inr ⟨(), t, hs, ?_⟩⟩
    rw [hc]
    exact Scan.raise_eq_error.mpr ⟨rfl, rfl⟩
  unfold scan
  split
  · next hok => cases hrun.symm.trans hok
  · next herror =>
    cases hrun.symm.trans herror
    rfl

theorem exists_accepted
    (hr : (Symbol.Table.empty maxSymbols).registerLibrary = (.ok n, symbols))
    (hs : Scan.scanTokens tokens (.begin settings maxDepth symbols (.empty maxLexemes)) =
      .ok () t) :
    ∃ pieces, Accepted settings maxDepth maxSymbols maxLexemes tokens t pieces := by
  obtain ⟨pieces, hpieces, hsigns⟩ := signs_of_steps (ready_library hr) assembles_begin rfl hs
  exact ⟨pieces, ⟨n, symbols, hr, hs⟩, hpieces, hsigns⟩

/-- A sign gets no operand of its own just where not every sign has been ended. -/
theorem Accepted.signLost_iff
    (h : Accepted settings maxDepth maxSymbols maxLexemes tokens t pieces) :
    (∃ s, SignLost t.program.symbols (Piece.own pieces) s) ↔
      pieces.countP Piece.ended ≠ pieces.countP Piece.signed := by
  obtain ⟨-, hpieces, hsigns⟩ := h
  have hendings := hpieces.endings
  rw [← not_iff_not, not_exists, Lexeme.not_signLost_iff, not_not]
  constructor
  · rintro ⟨hapart, hwaits⟩
    have hcount := hsigns.counted hapart
    cases hopen : t.signOpen with
    | false => simpa [hopen] using hcount
    | true =>
      obtain ⟨s, hs⟩ := hsigns.waits.mp hopen
      exact absurd hs (hwaits s)
  · intro heq
    cases hopen : t.signOpen with
    | true =>
      rw [hopen, Bool.toNat_true] at hendings
      omega
    | false =>
      refine ⟨hsigns.apart (by rw [hopen, heq]; rfl), fun s hs => ?_⟩
      rw [hsigns.waits.mpr ⟨s, hs⟩] at hopen
      cases hopen

/-- Only signs can make the brackets of the table differ from those of the tokens, and they do if
one of them gets no operand of its own. -/
theorem Accepted.count_ne_iff (h : Accepted settings maxDepth maxSymbols maxLexemes tokens t pieces)
    (hb : Balanced tokens) :
    (t.program.lexemes.kinds.count .openParen ≠ t.program.lexemes.kinds.count .closeParen ↔
      ∃ s, SignLost t.program.symbols (Piece.own pieces) s) ∧
    t.program.lexemes.kinds.count .openBrace = t.program.lexemes.kinds.count .closeBrace := by
  rw [h.signLost_iff]
  obtain ⟨-, hpieces, -⟩ := h
  have hkinds : t.program.lexemes.kinds = Piece.kinds pieces := by
    rw [Lexeme.Table.kinds, hpieces.lexemes, Piece.kinds]
  have htally := Piece.tally hpieces.formed
  obtain ⟨hparens, hbraces⟩ := hb
  rw [hpieces.countP_spells (by decide), hpieces.countP_spells (by decide)] at hparens hbraces
  rw [hkinds, htally.openParens, htally.closeParens, htally.openBraces, htally.closeBraces]
  exact ⟨by omega, hbraces⟩

/-- Brackets that are paired are refused by the check at the end only. -/
theorem Paired.check (h : Paired tokens)
    (hresult : (scan settings maxDepth tokens (empty maxSymbols maxLexemes)).result =
      .error (.unbalancedBrackets detail line)) :
    ∃ n symbols t, (Symbol.Table.empty maxSymbols).registerLibrary = (.ok n, symbols) ∧
      Scan.scanTokens tokens (.begin settings maxDepth symbols (.empty maxLexemes)) = .ok () t ∧
      Scan.checkStructure t.program.lexemes = .error (.unbalancedBrackets detail line) := by
  rcases bracketFailure_of_scan hresult rfl with ⟨done, token, rest, u, rfl, hu, hunfit⟩ | hcheck
  · cases hunfit with
    | unopened hk hd =>
      have hcovered : closed (done ++ [token]) ≤ opened (done ++ [token]) :=
        h.covered ⟨rest, by simp⟩
      have hdepth := hu.depth
      have hopened := @opened_concat done token
      have hclosed := @closed_concat done token
      rw [hk, Bool.toNat_true] at hclosed
      rw [not_opens_of_closes hk, Bool.toNat_false] at hopened
      omega
  · exact hcheck

/-- A scan of tokens whose brackets are paired fails for brackets just where all of them are
accepted, and there is an entry point and a sign that gets no operand of its own. -/
theorem scan_unbalanced_iff (settings : ScanSettings) (maxDepth maxSymbols maxLexemes : Nat)
    (h : Paired tokens) :
    (∀ detail line, (scan settings maxDepth tokens (empty maxSymbols maxLexemes)).result =
      .error (.unbalancedBrackets detail line) → line = none) ∧
    ((∃ detail, (scan settings maxDepth tokens (empty maxSymbols maxLexemes)).result =
        .error (.unbalancedBrackets detail none)) ↔
      ∃ t pieces, Accepted settings maxDepth maxSymbols maxLexemes tokens t pieces ∧
        .mainWord ∈ t.program.lexemes.kinds ∧
        ∃ s, SignLost t.program.symbols (Piece.own pieces) s) := by
  refine ⟨fun detail line hresult => ?_, ?_, ?_⟩
  · obtain ⟨n, symbols, t, -, -, hc⟩ := h.check hresult
    exact (checkStructure_eq_unbalanced hc).1
  · rintro ⟨detail, hresult⟩
    obtain ⟨n, symbols, t, hr, hs, hc⟩ := h.check hresult
    obtain ⟨pieces, haccepted⟩ := exists_accepted hr hs
    obtain ⟨-, hmain, hne⟩ := checkStructure_eq_unbalanced hc
    obtain ⟨hparens, hbraces⟩ := haccepted.count_ne_iff h.balanced
    exact ⟨t, pieces, haccepted, hmain, hparens.mp (hne.resolve_right (not_not.mpr hbraces))⟩
  · rintro ⟨t, pieces, haccepted, hmain, hlost⟩
    obtain ⟨n, symbols, hr, hs⟩ := haccepted.steps
    have hparens := (haccepted.count_ne_iff h.balanced).1.mpr hlost
    obtain ⟨detail, hc⟩ := checkStructure_of_parens hmain hparens
    exact ⟨detail, result_of_check hr hs hc⟩

end

attribute [local instance] Limits.development

/-- An entry point, and a sign in front of a call without arguments. -/
def signedCall : List Token := oneLine 1 ["fn", "i32", "main", "ret", "-", "main", "(", ")"]

theorem paired_signedCall : Paired signedCall := by
  have hbeginnings (P : List Token → Prop) (h : ∀ before ∈ signedCall.inits, P before) :
      ∀ before, before <+: signedCall → P before := fun before hbefore =>
    h before ((List.mem_inits _ _).mpr hbefore)
  exact ⟨hbeginnings _ (by decide), hbeginnings _ (by decide), by decide, by decide⟩

theorem accepted_signedCall : ∃ t pieces, Accepted {} 1 7 10 signedCall t pieces ∧
    .mainWord ∈ t.program.lexemes.kinds := by
  obtain ⟨u, n, hu, hsize, hcapacity, hmain, hfirst⟩ := exists_library (show 5 ≤ 7 by decide)
  have hzero : (u.add signedLiteralMain).lookupLiteral .i32 "0" = none := by
    rw [Symbol.Table.lookupLiteral_add_of_none rfl, hfirst]
  have hmainRoom : u.refusal? signedLiteralMain = none :=
    Symbol.Table.refusal?_eq_none.mpr ⟨by omega, fun _ => hmain⟩
  have hzeroRoom : (u.add signedLiteralMain).refusal? signedLiteralZero = none :=
    Symbol.Table.refusal?_eq_none.mpr ⟨by simp [hsize, hcapacity], fun h => by cases h⟩
  have room {m n : Nat} (h : Nat.ble m n = true) : m ≤ n := Nat.le_of_ble_eq_true h
  have hfound : ((u.add signedLiteralMain).add signedLiteralZero).lookup Symbol.globalScope
      Kind.mainWord.text = some u.size := by
    rw [Symbol.Table.lookup_add_of_key (x := signedLiteralZero) rfl, Symbol.Table.lookup_add rfl]
    rfl
  have hrun : ∃ t, Scan.scanTokens signedCall (.begin {} 1 u (.empty 10)) = .ok () t ∧
      t.program.lexemes.kinds = [.fnWord, .datatype, .mainWord, .retWord, .openParen, .literal,
        .minus, .mainWord, .openParen, .closeParen] := by
    exact ⟨_,
      Scan.scanTokens_cons_eq_ok.mpr ⟨_, .plain (k := .fnWord) (by decide) rfl (room rfl),
      Scan.scanTokens_cons_eq_ok.mpr ⟨_, .datatype (k := .i32) (by decide) rfl (room rfl),
      Scan.scanTokens_cons_eq_ok.mpr ⟨_, .refer (.mainDeclared (by decide) hmain rfl rfl
        hmainRoom) (.plain rfl (room rfl)),
      Scan.scanTokens_cons_eq_ok.mpr ⟨_, .plain (k := .retWord) (by decide) rfl (room rfl),
      Scan.scanTokens_cons_eq_ok.mpr ⟨_, .sign (by decide) rfl (room rfl) (.added hzero hzeroRoom),
      Scan.scanTokens_cons_eq_ok.mpr ⟨_, .refer (.main (by decide) hfound rfl)
        (.plain rfl (room rfl)),
      Scan.scanTokens_cons_eq_ok.mpr ⟨_,
        .enter (k := .openParen) (by decide) (Or.inr rfl) rfl (room rfl),
      Scan.scanTokens_cons_eq_ok.mpr ⟨_, .leave (k := .closeParen) (by decide) (Or.inr rfl) rfl
        (room rfl), rfl⟩⟩⟩⟩⟩⟩⟩⟩, rfl⟩
  obtain ⟨t, ht, hkinds⟩ := hrun
  obtain ⟨pieces, haccepted⟩ := exists_accepted hu ht
  exact ⟨t, pieces, haccepted, by rw [hkinds]; decide⟩

/-- Behind its sign comes no operand. -/
theorem Accepted.signLost_signedCall {t : Scan.State} {pieces : List Piece}
    (h : Accepted {} 1 7 10 signedCall t pieces) :
    SignLost t.program.symbols (Piece.own pieces) 4 := by
  have hkinds : Piece.ownKinds pieces = [.fnWord, .datatype, .mainWord, .retWord, .minus,
      .mainWord, .openParen, .closeParen] :=
    List.map_injective_iff.mpr (Option.some_injective _)
      (h.assembles.ownKinds.trans (by decide))
  have hown (q : Nat) : (Piece.own pieces)[q]?.map (·.kind) = (Piece.ownKinds pieces)[q]? :=
    List.getElem?_map.symm
  rw [hkinds] at hown
  obtain ⟨previous, hprevious, hret⟩ := Option.map_eq_some_iff.mp (hown 3)
  obtain ⟨sign, hsign, hminus⟩ := Option.map_eq_some_iff.mp (hown 4)
  refine ⟨⟨3, previous, sign, rfl, hprevious, by rw [hret]; decide, hsign, hminus⟩, ?_⟩
  rintro q hq ⟨l, hl, hoperand⟩
  have hkind := hown q
  rw [hl, Option.map_some] at hkind
  have hlt : q < 8 := Lexeme.lt_of_getElem? hkind.symm
  obtain rfl | rfl | rfl : q = 5 ∨ q = 6 ∨ q = 7 := by omega
  all_goals
    have hk := Option.some.inj hkind
    simp [Lexeme.isOperand, hk] at hoperand

theorem scan_unbalanced_signedCall : Paired signedCall ∧
    ∃ detail, (scan {} 1 signedCall (empty 7 10)).result =
      .error (.unbalancedBrackets detail none) := by
  obtain ⟨t, pieces, haccepted, hmain⟩ := accepted_signedCall
  exact ⟨paired_signedCall, (scan_unbalanced_iff {} 1 7 10 paired_signedCall).2.mpr
    ⟨t, pieces, haccepted, hmain, 4, haccepted.signLost_signedCall⟩⟩

end Ttm.Program
