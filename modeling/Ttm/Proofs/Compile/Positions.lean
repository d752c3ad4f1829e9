import Ttm.Proofs.Postfix.Reference
import Ttm.Proofs.Program.Image

/-!
What becomes of the positions of symbols. They are those of the scan, and are not adjusted when the
expressions are put into postfix order.
-/
namespace Ttm

namespace Postfix

open Ttm.Program (FirstReference Placed)

/-- What the positions of a scanned program say about the compiled one. A symbol is still referred
to first where it was, or within the same statement. Names of variables and parameters stay; a
literal stays just when no operator, call, comma or parenthesis of its expression stands in front of
it; and a function stays unless its name begins a statement that does not begin with it any more. -/
structure Positioned [Limits] (scanned compiled : Program) : Prop where
  symbols : compiled.symbols = scanned.symbols
  moved : ∀ i x p, scanned.symbols.get? i = some x → x.position = some p →
    ∃ q, FirstReference compiled.lexemes i q ∧
      (q = p ∨ ∃ s ∈ starts scanned.symbols scanned.lexemes, Inside scanned.lexemes s p ∧
        Inside scanned.lexemes s q)
  named : ∀ i x p, scanned.symbols.get? i = some x → x.position = some p →
    x.kind = .var ∨ x.kind = .parameter → FirstReference compiled.lexemes i p
  literal : ∀ i x p, scanned.symbols.get? i = some x → x.position = some p → x.kind = .literal →
    (∃ q ≤ p, FirstReference compiled.lexemes i q) ∧
      (FirstReference compiled.lexemes i p ↔ BehindOperands scanned.symbols scanned.lexemes p)
  function : ∀ i x p, scanned.symbols.get? i = some x → x.position = some p → x.kind = .function →
    (FirstReference compiled.lexemes i p ↔
      ∀ span reordered, p ∈ starts scanned.symbols scanned.lexemes →
        statementAt? scanned.lexemes p = some span →
          ofStatement scanned.symbols span = .ok reordered →
            reordered.head?.bind (·.symbol) = some i)

variable {limits : Limits} {scanned compiled : Program} {metrics : Metrics} {l : Lexeme}
  {x : Symbol} {i p s : Nat}

/-- The first reference to a symbol, and what it is by the kind of the symbol. -/
theorem exists_reference (h : Placed scanned) (hx : scanned.symbols.get? i = some x)
    (hp : x.position = some p) : ∃ l, scanned.lexemes.get? p = some l ∧
      l.kind ∈ Lexeme.Kind.referring ∧
        (x.kind ≠ .function → isOperand scanned.symbols l) := by
  obtain ⟨⟨l, hl, hi⟩, -⟩ := h.first i x p hx hp
  have hmem := Lexeme.Table.mem_toList_of_get? hl
  refine ⟨l, hl, (h.linked.crossReferenced.symbol_isSome l hmem).mp (by simp [hi]), fun hne => ?_⟩
  have hsuits := h.linked.suits hmem hi hx
  have hfunction : scanned.symbols.isFunction l.symbol = false := by
    simpa [Symbol.Table.isFunction, hi, hx, Symbol.isFunction] using hne
  cases hk : l.kind <;> simp_all [Symbol.Suits, isOperand, isCallee]

/-- Where a name is declared, no statement goes on. -/
theorem Completed.starts_at (h : Completed scanned.symbols scanned.lexemes compiled.lexemes metrics)
    (hplaced : Placed scanned) (hx : scanned.symbols.get? i = some x) (hp : x.position = some p)
    (hk : x.kind ≠ .literal) :
    ∀ s ∈ starts scanned.symbols scanned.lexemes, Inside scanned.lexemes s p → s = p := by
  intro s hs hinside
  have hsound := hplaced.linked.sound_get? hx
  obtain ⟨back, k, ha⟩ : ∃ back k, x.kind.announcement? = some (back, k) := by
    cases hkind : x.kind <;> first
      | exact ⟨_, _, rfl⟩
      | exact absurd hkind hk
      | exact absurd hkind hsound.2.1
  obtain ⟨d, rfl, hd⟩ := hplaced.announced i x p back k hx ha hp
  exact h.start_of_announced hs hinside hd ha

theorem Completed.positioned
    (h : Completed scanned.symbols scanned.lexemes compiled.lexemes metrics)
    (hplaced : Placed scanned) (hsymbols : compiled.symbols = scanned.symbols) :
    Positioned scanned compiled := by
  constructor
  · exact hsymbols
  · intro i x p hx hp
    obtain ⟨l, hl, hk, -⟩ := exists_reference hplaced hx hp
    exact h.exists_firstReference (hplaced.first i x p hx hp) hl hk
  · intro i x p hx hp hkind
    have hne : x.kind ≠ .function ∧ x.kind ≠ .literal := by
      rcases hkind with hkind | hkind <;> simp [hkind]
    obtain ⟨l, hl, -, hoperand⟩ := exists_reference hplaced hx hp
    refine (h.firstReference_operand (hplaced.first i x p hx hp) hl (hoperand hne.1)).2.mpr ?_
    intro s hs hinside j m hle hlt
    have := h.starts_at hplaced hx hp hne.2 s hs hinside
    omega
  · intro i x p hx hp hkind
    obtain ⟨l, hl, -, hoperand⟩ := exists_reference hplaced hx hp
    exact h.firstReference_operand (hplaced.first i x p hx hp) hl (hoperand (by simp [hkind]))
  · intro i x p hx hp hkind
    obtain ⟨l, hl, hk, -⟩ := exists_reference hplaced hx hp
    exact h.firstReference_start (hplaced.first i x p hx hp) hl hk
      (h.starts_at hplaced hx hp (by simp [hkind]))

end Postfix

namespace Compile

open Postfix
open Ttm.Program (Placed)

section

variable {limits : Limits} {settings : Settings} {source : List UInt8} {compiled : Compiled}

/-- The positions of symbols in a compiled program are those of its scan, where each symbol stands
at its first use. -/
theorem source_positioned (h : (Compile.source limits settings source).2 = .ok compiled) :
    ∃ tokens program notes metrics, Source.tokenize limits source = .ok tokens ∧
      Program.scan settings.scan limits.maxScopeDepth tokens.tokens
        (.empty limits.maxSymbols limits.maxLexemes) = ⟨program, notes, .ok metrics⟩ ∧
      Placed program ∧ Positioned program compiled.program := by
  obtain ⟨tokens, program, notes, metrics, conversion, htokens, hscan, hsymbols, hcompleted⟩ :=
    completed_of_source h
  have hplaced := Program.placed_of_scan (congrArg Program.Scanned.result hscan)
  rw [hscan] at hplaced
  exact ⟨tokens, program, notes, metrics, htokens, hscan, hplaced,
    hcompleted.positioned hplaced hsymbols⟩

end

attribute [local instance] Limits.development

/-- An entry point that returns the sum of two literals. -/
def sumSource : List UInt8 := "fn i32 main ret 1 + 2;".toList.map fun c => .ofNat c.toNat

def sum : List Source.Token :=
  Program.oneLine 1 ["fn", "i32", "main", "ret", "1", "+", "2", ";"]

theorem tokenize_sum : (Source.tokenize .development sumSource).map (·.tokens) = .ok sum := by
  decide +kernel

def sumLexemes : List Lexeme :=
  [⟨.fnWord, 1, none⟩, ⟨.datatype, 1, none⟩, ⟨.mainWord, 1, some 5⟩, ⟨.retWord, 1, none⟩,
    ⟨.literal, 1, some 6⟩, ⟨.plus, 1, none⟩, ⟨.literal, 1, some 7⟩, ⟨.semicolon, 1, none⟩]

/-- The symbols of its literals, each with the place of its first use. -/
def sumOne : Symbol := .literal 4 .i32 "1"

def sumTwo : Symbol := .literal 6 .i32 "2"

theorem scan_sum : ∃ p notes metrics, Program.scan {} Limits.development.maxScopeDepth sum
    (.empty Limits.development.maxSymbols Limits.development.maxLexemes) =
      ⟨p, notes, .ok metrics⟩ ∧ p.lexemes.toList = sumLexemes ∧ p.symbols.get? 7 = some sumTwo := by
  obtain ⟨u, n, hu, hsize, hcapacity, hmain, hfirst⟩ :=
    Program.exists_library (show 5 ≤ Limits.development.maxSymbols by decide)
  have hone : (u.add Program.signedLiteralMain).lookupLiteral .i32 "1" = none := by
    rw [Symbol.Table.lookupLiteral_add_of_none rfl, hfirst]
  have htwo : ((u.add Program.signedLiteralMain).add sumOne).lookupLiteral .i32 "2" = none := by
    rw [Symbol.Table.lookupLiteral_add (x := sumOne) rfl,
      Symbol.Table.lookupLiteral_add_of_none rfl, hfirst]
    rfl
  have hmainRoom : u.refusal? Program.signedLiteralMain = none :=
    Symbol.Table.refusal?_eq_none.mpr ⟨by rw [hsize, hcapacity]; decide, fun _ => hmain⟩
  have honeRoom : (u.add Program.signedLiteralMain).refusal? sumOne = none :=
    Symbol.Table.refusal?_eq_none.mpr ⟨by simp [hsize, hcapacity]; decide, nofun⟩
  have htwoRoom : ((u.add Program.signedLiteralMain).add sumOne).refusal? sumTwo = none :=
    Symbol.Table.refusal?_eq_none.mpr ⟨by simp [hsize, hcapacity]; decide, nofun⟩
  have honeValue : Program.Scan.literal? "1" = some (.i32, "1") := by decide
  have htwoValue : Program.Scan.literal? "2" = some (.i32, "2") := by decide
  have room {m n : Nat} (h : Nat.ble m n = true) : m ≤ n := Nat.le_of_ble_eq_true h
  have hrun : ∃ t, Program.Scan.scanTokens sum (.begin {} Limits.development.maxScopeDepth u
      (.empty Limits.development.maxLexemes)) = .ok () t ∧
      t.program.symbols = ((u.add Program.signedLiteralMain).add sumOne).add sumTwo ∧
      t.program.lexemes.toList = [⟨.fnWord, 1, none⟩, ⟨.datatype, 1, none⟩,
        ⟨.mainWord, 1, some u.size⟩, ⟨.retWord, 1, none⟩,
        ⟨.literal, 1, some (u.add Program.signedLiteralMain).size⟩, ⟨.plus, 1, none⟩,
        ⟨.literal, 1, some ((u.add Program.signedLiteralMain).add sumOne).size⟩,
        ⟨.semicolon, 1, none⟩] := by
    exact ⟨_,
      Program.Scan.scanTokens_cons_eq_ok.mpr ⟨_, .plain (k := .fnWord) (by decide) rfl (room rfl),
      Program.Scan.scanTokens_cons_eq_ok.mpr ⟨_, .datatype (k := .i32) (by decide) rfl (room rfl),
      Program.Scan.scanTokens_cons_eq_ok.mpr ⟨_, .refer (.mainDeclared (by decide) hmain rfl rfl
        hmainRoom) (.plain rfl (room rfl)),
      Program.Scan.scanTokens_cons_eq_ok.mpr ⟨_, .plain (k := .retWord) (by decide) rfl (room rfl),
      Program.Scan.scanTokens_cons_eq_ok.mpr ⟨_, .refer (.literal honeValue (.added hone honeRoom))
        (.plain rfl (room rfl)),
      Program.Scan.scanTokens_cons_eq_ok.mpr ⟨_, .plain (k := .plus) (by decide) rfl (room rfl),
      Program.Scan.scanTokens_cons_eq_ok.mpr ⟨_, .refer (.literal htwoValue (.added htwo htwoRoom))
        (.plain rfl (room rfl)),
      Program.Scan.scanTokens_cons_eq_ok.mpr ⟨_,
        .plain (k := .semicolon) (by decide) rfl (room rfl), rfl⟩⟩⟩⟩⟩⟩⟩⟩, rfl, rfl⟩
  obtain ⟨t, ht, hsymbols, hlexemes⟩ := hrun
  simp only [Symbol.Table.size_add, hsize] at hlexemes
  have hstructure : Program.Scan.checkStructure t.program.lexemes = .ok () := by
    rw [Program.Scan.checkStructure_eq_ok, Lexeme.Table.kinds, hlexemes]
    decide
  refine ⟨t.program, _, _, Program.scan_of_steps hu ht hstructure, hlexemes, ?_⟩
  have hlast := @Symbol.Table.get?_add_self
    ((u.add Program.signedLiteralMain).add sumOne) sumTwo
  rwa [Symbol.Table.size_add, Symbol.Table.size_add, hsize, ← hsymbols] at hlast

theorem convertAll_sum {settings : ConversionSettings} {symbols : Symbol.Table}
    {t : Lexeme.Table} (h : t.toList = sumLexemes) :
    (convertAll symbols settings t).result = .ok { statements := 1, calls := 0, padding := 0 } := by
  have hfirst : convertFirst symbols 4 (sumLexemes.drop 4) =
      .ok ([⟨.literal, 1, some 6⟩, ⟨.literal, 1, some 7⟩, ⟨.plus, 1, none⟩, ⟨.semicolon, 1, none⟩],
        4, []) := rfl
  simp only [sumLexemes, List.drop] at hfirst
  rw [convertAll, h]
  simp only [walk, sumLexemes, startAt, isCallee, Lexeme.isPadding, beq_iff_eq, reduceCtorEq,
    ↓reduceIte, Bool.and_eq_true, false_and, Nat.reduceAdd]
  split
  · next hconvert => cases hfirst.symm.trans hconvert
  · next hconvert =>
    cases hfirst.symm.trans hconvert
    simp [walk, Pass.convert, Pass.keep, Metrics.of, Converted.calls, Except.map]

/-- The operator gets behind the second literal, whose position then is that of the operator. -/
theorem positioned_sum : ∃ compiled program,
    (Compile.source .development {} sumSource).2 = .ok compiled ∧
      Positioned program compiled.program ∧ program.symbols.get? 7 = some sumTwo ∧
      ¬ Program.FirstReference compiled.program.lexemes 7 6 := by
  obtain ⟨p, notes, metrics, hscan, hlexemes, htwo⟩ := scan_sum
  obtain ⟨compiled, hok⟩ : ∃ compiled,
      (Compile.source .development {} sumSource).2 = .ok compiled :=
    source_of_stages tokenize_sum hscan (convertAll_sum hlexemes)
  obtain ⟨tokens, program, notes', metrics', htokens, hscan', -, hpositioned⟩ :=
    source_positioned hok
  have hread := tokenize_sum
  rw [htokens] at hread
  have hlist : tokens.tokens = sum := Except.ok.inj hread
  rw [hlist, hscan] at hscan'
  obtain rfl : p = program := congrArg Program.Scanned.program hscan'
  refine ⟨compiled, p, hok, hpositioned, htwo, fun hfirst => ?_⟩
  have hbehind := (hpositioned.literal 7 sumTwo 6 htwo rfl rfl).2.mp hfirst
  have hget (n : Nat) : p.lexemes.get? n = sumLexemes[n]? := by
    rw [Lexeme.Table.get?_eq_getElem?, hlexemes]
  have hstart : 4 ∈ starts p.symbols p.lexemes := by
    refine mem_startsBelow.mpr ⟨?_, by simp [isStart, kindBefore, hget, sumLexemes, leads]⟩
    rw [← Lexeme.Table.length_toList, hlexemes]
    decide
  have hspan : statementAt? p.lexemes 4 = some (sumLexemes.drop 4) := by
    rw [statementAt?, hlexemes]
    rfl
  have hinside : Inside p.lexemes 4 6 := (inside_iff hspan).mpr (by decide)
  have hplus := hbehind 4 hstart hinside 5 ⟨.plus, 1, none⟩ (by decide) (by decide) (hget 5)
  cases hplus

end Compile
end Ttm
