import Ttm.Proofs.Postfix.Origin
import Ttm.Proofs.Program.Lines

/-!
The dump of a compiled program. A statement that is written over several lines may get its lexemes
out of the order of their lines when it is put into postfix order, and then a line has several rows.
-/
namespace Ttm

namespace Postfix

open Lexeme (Row)
open Lexeme.Table (InOrder)

/-- What the dump of a compiled program has in its rows. -/
structure Dumped [Limits] (scanned compiled : Program) : Prop where
  before : scanned.lexemes.DumpsByLine
  runs : ∃ rows, Row.Runs rows compiled.lexemes.contents ∧
    compiled.lexemes.renderByLine = String.ofList (rows.flatMap Row.chars)
  byLine : compiled.lexemes.DumpsByLine ↔ StatementsInOrder scanned.symbols scanned.lexemes
  oneLine : (∀ s ∈ starts scanned.symbols scanned.lexemes, ∀ span,
    statementAt? scanned.lexemes s = some span → ∀ l ∈ span, ∀ m ∈ span, l.line = m.line) →
      compiled.lexemes.DumpsByLine

variable {limits : Limits} {symbols : Symbol.Table} {t : Lexeme.Table} {s : Nat}
  {span reordered : List Lexeme}

/-- A statement on one line stays in order however it is arranged. -/
theorem inOrder_of_oneLine (hspan : statementAt? t s = some span)
    (hreordered : ofStatement symbols span = .ok reordered)
    (h : ∀ l ∈ span, ∀ m ∈ span, l.line = m.line) : InOrder reordered := by
  refine List.pairwise_of_forall_mem_list fun l hl m hm => ?_
  obtain ⟨l', hl', rfl⟩ := exists_written hspan hreordered hl
  obtain ⟨m', hm', rfl⟩ := exists_written hspan hreordered hm
  rw [markCall_line, markCall_line]
  exact Nat.le_of_eq (h l' hl' m' hm')

end Postfix

namespace Compile

open Postfix (Dumped)
open Lexeme (Row)

section

variable {limits : Limits} {settings : Settings} {source : List UInt8} {compiled : Compiled}

/-- The dump of a scanned program has one row for each line. After that there is a row for each run
of lexemes of one line, and one row for each line just when every statement keeps the order of its
lines. -/
theorem source_dumped (h : (Compile.source limits settings source).2 = .ok compiled) :
    ∃ tokens program notes metrics, Source.tokenize limits source = .ok tokens ∧
      Program.scan settings.scan limits.maxScopeDepth tokens.tokens
        (.empty limits.maxSymbols limits.maxLexemes) = ⟨program, notes, .ok metrics⟩ ∧
      Dumped program compiled.program := by
  obtain ⟨tokens, program, notes, metrics, conversion, htokens, hscan, hsymbols, hcompleted⟩ :=
    completed_of_source h
  have hresult : (Program.scan settings.scan limits.maxScopeDepth tokens.tokens
      (.empty limits.maxSymbols limits.maxLexemes)).result = .ok metrics := by rw [hscan]
  have hscanned := (Program.lined_of_scan (Source.lines_of_tokenize htokens) hresult).inOrder
  rw [hscan] at hscanned
  have hbyLine := Lexeme.Table.dumpsByLine_iff.trans (hcompleted.inOrder_iff hscanned)
  refine ⟨tokens, program, notes, metrics, htokens, hscan, ?_⟩
  exact {
    before := Lexeme.Table.dumpsByLine_iff.mpr (List.Pairwise.filter _ hscanned)
    runs := ⟨_, Row.runs_ofLexemes, Lexeme.Table.renderByLine_eq⟩
    byLine := hbyLine
    oneLine := fun hlines => hbyLine.mpr fun s hs span reordered hspan hreordered =>
      Postfix.inOrder_of_oneLine hspan hreordered (hlines s hs span hspan) }

end

attribute [local instance] Limits.development

/-- A sum that goes on behind its operator on the next line. -/
def spreadSource : List UInt8 :=
  "fn i32 main() \x7b let i32 x;\nx = x +\nx; \x7d".toList.map fun c => .ofNat c.toNat

def spread : List Source.Token :=
  Program.oneLine 1 ["fn", "i32", "main", "(", ")", "\x7b", "let", "i32", "x", ";"] ++
    Program.oneLine 2 ["x", "=", "x", "+"] ++ Program.oneLine 3 ["x", ";", "\x7d"]

theorem tokenize_spread :
    (Source.tokenize .development spreadSource).map (·.tokens) = .ok spread := by
  decide +kernel

def spreadScan : Program.Scanned :=
  Program.scan {} Limits.development.maxScopeDepth spread
    (.empty Limits.development.maxSymbols Limits.development.maxLexemes)

theorem scan_spread : Program.scan {} Limits.development.maxScopeDepth spread
    (.empty Limits.development.maxSymbols Limits.development.maxLexemes) =
      ⟨spreadScan.program, spreadScan.notes, .ok
        { tokens := 17, lexemes := 17, symbols := 7, declarations := 2, maxScopeDepth := 1 }⟩ := by
  have hresult : spreadScan.result = .ok
      { tokens := 17, lexemes := 17, symbols := 7, declarations := 2, maxScopeDepth := 1 } := by
    cbv
  rw [← hresult]
  rfl

theorem convertAll_spread :
    (Postfix.convertAll spreadScan.program.symbols {} spreadScan.program.lexemes).result =
      .ok { statements := 1, calls := 0, padding := 0 } := by
  cbv

/-- The operator gets behind the operand that stands on the line below. -/
theorem statement_spread :
    Postfix.starts spreadScan.program.symbols spreadScan.program.lexemes = [12] ∧
      Postfix.statementAt? spreadScan.program.lexemes 12 = some
        [⟨.identifier, 2, some 6⟩, ⟨.plus, 2, none⟩, ⟨.identifier, 3, some 6⟩,
          ⟨.semicolon, 3, none⟩] ∧
      Postfix.ofStatement spreadScan.program.symbols
        [⟨.identifier, 2, some 6⟩, ⟨.plus, 2, none⟩, ⟨.identifier, 3, some 6⟩,
          ⟨.semicolon, 3, none⟩] =
          .ok [⟨.identifier, 2, some 6⟩, ⟨.identifier, 3, some 6⟩, ⟨.plus, 2, none⟩,
            ⟨.semicolon, 3, none⟩] := by
  refine ⟨?_, ?_, ?_⟩ <;> cbv

/-- The dump of this program has two rows for each of two lines. -/
theorem dumped_spread : ∃ compiled,
    (Compile.source .development {} spreadSource).2 = .ok compiled ∧
      Dumped spreadScan.program compiled.program ∧
      ¬ compiled.program.lexemes.DumpsByLine := by
  obtain ⟨compiled, hok⟩ : ∃ compiled,
      (Compile.source .development {} spreadSource).2 = .ok compiled :=
    source_of_stages tokenize_spread scan_spread convertAll_spread
  obtain ⟨tokens, program, notes, metrics, htokens, hscan, hdumped⟩ := source_dumped hok
  have hread := tokenize_spread
  rw [htokens] at hread
  have hlist : tokens.tokens = spread := Except.ok.inj hread
  rw [hlist] at hscan
  obtain rfl : spreadScan.program = program := congrArg Program.Scanned.program hscan
  refine ⟨compiled, hok, hdumped, fun hrows => ?_⟩
  obtain ⟨hstarts, hspan, hreordered⟩ := statement_spread
  have hordered := hdumped.byLine.mp hrows 12 (by simp [hstarts]) _ _ hspan hreordered
  simp [Lexeme.Table.InOrder] at hordered

end Compile
end Ttm
