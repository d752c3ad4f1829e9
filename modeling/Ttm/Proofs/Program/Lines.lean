import Ttm.Proofs.Lexeme.Rows
import Ttm.Proofs.Program.Piece
import Ttm.Proofs.Source.Lines

/-! Lexemes are written in the order of the lines of their tokens. -/
namespace Ttm

open Lexeme.Table (InOrder)
open Source (Token)

namespace Program

variable {settings : ScanSettings} {limits : Limits} {maxDepth maxSymbols maxLexemes : Nat}
  {tokens done : List Token} {token : Token} {metrics : Metrics} {s t : Scan.State} {b : Piece}

theorem Scan.Leaves.lines (h : Scan.Leaves token s t b) : ∀ l ∈ b.all, l.line = token.line := by
  have hline := h.line
  cases h.writes with
  | sign => simp [Piece.all]
  | closing | alone => simpa [Piece.all] using hline

/-- The lexemes of the tokens `done` are in the order of their lines. -/
structure Lined (done : List Token) (p : Program) : Prop where
  inOrder : InOrder p.lexemes.toList
  token : ∀ l ∈ p.lexemes.toList, ∃ token ∈ done, token.line = l.line

theorem Lined.leaves (h : Lined done s.program) (hb : Scan.Leaves token s t b)
    (hdone : ∀ before ∈ done, before.line ≤ token.line) : Lined (done ++ [token]) t.program := by
  have hlines := hb.lines
  constructor
  · rw [hb.lexemes, InOrder, List.pairwise_append]
    refine ⟨h.inOrder, List.pairwise_of_forall_mem_list fun l hl m hm => ?_, fun l hl m hm => ?_⟩
    · rw [hlines l hl, hlines m hm]
    · obtain ⟨before, hbefore, hline⟩ := h.token l hl
      rw [← hline, hlines m hm]
      exact hdone before hbefore
  · intro l hl
    rw [hb.lexemes, List.mem_append] at hl
    rcases hl with hl | hl
    · obtain ⟨before, hbefore, hline⟩ := h.token l hl
      exact ⟨before, List.mem_append_left _ hbefore, hline⟩
    · exact ⟨token, by simp, (hlines l hl).symm⟩

/-- A scan of tokens in order of their lines leaves lexemes in this order. -/
theorem lined_of_scan (htokens : tokens.Pairwise (·.line ≤ ·.line))
    (h : (scan settings maxDepth tokens (empty maxSymbols maxLexemes)).result = .ok metrics) :
    Lined tokens (scan settings maxDepth tokens (empty maxSymbols maxLexemes)).program := by
  obtain ⟨n, symbols, t, hr, hs, -, hscan⟩ := steps_of_scan h
  rw [hscan]
  have hrun := Scan.scanTokens_history
    (P := fun done rest u => tokens = done ++ rest ∧ Scan.Ready u ∧ Lined done u.program)
    (fun done token rest u v hu hstep _ => ?_)
    ⟨rfl, ready_library hr, List.Pairwise.nil, fun l hl => by cases hl⟩ hs
  · exact hrun.2.2
  · obtain ⟨rfl, hready, hlined⟩ := hu
    obtain ⟨b, hb⟩ := hstep.leaves hready.1.indexed
    refine ⟨by simp, hready.step hstep, hlined.leaves hb fun before hbefore => ?_⟩
    exact (List.pairwise_append.mp htokens).2.2 before hbefore token List.mem_cons_self

end Program
end Ttm
