import Ttm.Proofs.Program.Nesting

/-! The lexeme table as a row of pieces, one for each token, and how many brackets it holds. -/
namespace Ttm

open Lexeme (Kind)
open Source (Token)

namespace Piece

/-- A sign opens in front of the lexeme. -/
def signed (b : Piece) : Bool := !b.before.isEmpty

/-- A sign ends behind the lexeme. -/
def ended (b : Piece) : Bool := !b.after.isEmpty

/-- A sign opens with a bracket and a literal, and it ends with a bracket, which stands behind no
lexeme that a sign could follow. -/
structure Formed (b : Piece) : Prop where
  before : b.before = [] ∨
    ∃ line i, b.before = [⟨.openParen, line, none⟩, ⟨.literal, line, some i⟩]
  after : b.after = [] ∨
    (∃ line, b.after = [⟨.closeParen, line, none⟩]) ∧ ¬ b.lexeme.kind.takesSign

/-- The kinds of the lexemes that pieces put into the table. -/
def kinds (pieces : List Piece) : List Kind := (pieces.flatMap all).map (·.kind)

/-- The lexemes that stand for tokens. -/
def own (pieces : List Piece) : List Lexeme := pieces.map (·.lexeme)

def ownKinds (pieces : List Piece) : List Kind := (own pieces).map (·.kind)

variable {b : Piece} {pieces : List Piece}

theorem kinds_cons : kinds (b :: pieces) = b.all.map (·.kind) ++ kinds pieces := by
  rw [kinds, List.flatMap_cons, List.map_append, kinds]

theorem ownKinds_cons : ownKinds (b :: pieces) = b.lexeme.kind :: ownKinds pieces := rfl

/-- Besides the lexeme itself, an opening bracket stands where a sign opens and a closing one where
it ends; there are no braces but its own. -/
theorem Formed.count_all (h : b.Formed) :
    (b.all.map (·.kind)).count .openParen = [b.lexeme.kind].count .openParen + b.signed.toNat ∧
    (b.all.map (·.kind)).count .closeParen = [b.lexeme.kind].count .closeParen + b.ended.toNat ∧
    (b.all.map (·.kind)).count .openBrace = [b.lexeme.kind].count .openBrace ∧
    (b.all.map (·.kind)).count .closeBrace = [b.lexeme.kind].count .closeBrace ∧
    b.all.length = 1 + 2 * b.signed.toNat + b.ended.toNat := by
  obtain ⟨before, l, after⟩ := b
  obtain ⟨hbefore, hafter⟩ := h
  rcases hbefore with rfl | ⟨_, _, rfl⟩ <;> rcases hafter with rfl | ⟨⟨_, rfl⟩, -⟩ <;>
    simp [all, signed, ended, List.count_cons, Nat.add_comm]

/-- The brackets of the table: those of the tokens, and those of signs. -/
structure Tally (pieces : List Piece) : Prop where
  openParens : (kinds pieces).count .openParen =
    (ownKinds pieces).count .openParen + pieces.countP signed
  closeParens : (kinds pieces).count .closeParen =
    (ownKinds pieces).count .closeParen + pieces.countP ended
  openBraces : (kinds pieces).count .openBrace = (ownKinds pieces).count .openBrace
  closeBraces : (kinds pieces).count .closeBrace = (ownKinds pieces).count .closeBrace
  length : (pieces.flatMap all).length =
    pieces.length + 2 * pieces.countP signed + pieces.countP ended

theorem tally (h : ∀ b ∈ pieces, b.Formed) : Tally pieces := by
  induction pieces with
  | nil => constructor <;> rfl
  | cons b pieces ih =>
    have ih := ih fun b hb => h b (List.mem_cons_of_mem _ hb)
    obtain ⟨hopen, hclose, hopenBrace, hcloseBrace, hlength⟩ :=
      (h b List.mem_cons_self).count_all
    have hcount (p : Piece → Bool) : (b :: pieces).countP p = pieces.countP p + (p b).toNat := by
      rw [List.countP_cons]
      cases p b <;> rfl
    have hsigned := hcount signed
    have hended := hcount ended
    have hown (k : Kind) : (ownKinds (b :: pieces)).count k =
        [b.lexeme.kind].count k + (ownKinds pieces).count k := by
      rw [ownKinds_cons, ← List.singleton_append, List.count_append]
    constructor
    · rw [kinds_cons, List.count_append, hopen, ih.openParens, hown, hsigned]
      omega
    · rw [kinds_cons, List.count_append, hclose, ih.closeParens, hown, hended]
      omega
    · rw [kinds_cons, List.count_append, hopenBrace, ih.openBraces, hown]
    · rw [kinds_cons, List.count_append, hcloseBrace, ih.closeBraces, hown]
    · rw [List.flatMap_cons, List.length_append, hlength, ih.length, hsigned, hended,
        List.length_cons]
      omega

end Piece

namespace Program

/-- Pieces for the tokens done make up the lexeme table, and no sign ends that was not opened. -/
structure Assembles [Limits] (done : List Token) (pieces : List Piece) (s : Scan.State) : Prop where
  lexemes : s.program.lexemes.toList = pieces.flatMap Piece.all
  tokens : pieces.map (fun b => (some b.lexeme.kind, b.lexeme.line)) =
    done.map fun token => (token.kind?, token.line)
  formed : ∀ b ∈ pieces, b.Formed
  signs : s.metrics.unaryGroups = pieces.countP Piece.signed
  endings : pieces.countP Piece.ended + s.signOpen.toNat ≤ pieces.countP Piece.signed

variable {limits : Limits} {settings : ScanSettings} {done : List Token} {token : Token}
  {pieces : List Piece} {b : Piece} {s t : Scan.State} {symbols : Symbol.Table}
  {maxDepth maxLexemes : Nat} {k : Kind}

theorem not_takesSign_of_isOperand {l : Lexeme} (h : l.isOperand symbols) :
    ¬ l.kind.takesSign := by
  intro htakes
  rcases h' : l.kind <;> simp_all [Lexeme.isOperand, Lexeme.Kind.takesSign]

theorem Scan.Writes.formed {line : Nat} (h : Writes line s t b) : b.Formed := by
  cases h with
  | sign => exact ⟨Or.inr ⟨_, _, rfl⟩, Or.inl rfl⟩
  | closing hl => exact ⟨Or.inl rfl, Or.inr ⟨⟨_, rfl⟩, not_takesSign_of_isOperand hl⟩⟩
  | alone => exact ⟨Or.inl rfl, Or.inl rfl⟩

/-- One piece more: a sign is counted when it opens, and one that ends was open before. -/
theorem Scan.Writes.signs {line : Nat} (h : Writes line s t b) :
    t.metrics.unaryGroups = s.metrics.unaryGroups + b.signed.toNat ∧
      b.ended.toNat + t.signOpen.toNat ≤ s.signOpen.toNat + b.signed.toNat := by
  cases h with
  | sign hs ht hcount =>
    rw [hcount, ht]
    exact ⟨rfl, Nat.le_add_left _ _⟩
  | closing hl hs ht hcount =>
    rw [hcount, hs, ht]
    exact ⟨rfl, Nat.le_refl _⟩
  | alone hminus hl ht hcount =>
    rw [hcount, ht]
    exact ⟨rfl, Nat.le_of_eq (Nat.add_comm _ _)⟩

theorem assembles_begin :
    Assembles [] [] (.begin settings maxDepth symbols (.empty maxLexemes)) := by
  refine ⟨rfl, rfl, ?_, rfl, Nat.le_refl _⟩
  intro b hb
  cases hb

theorem Assembles.concat (h : Assembles done pieces s) (hb : Scan.Leaves token s t b) :
    Assembles (done ++ [token]) (pieces ++ [b]) t := by
  obtain ⟨hcount, hopen⟩ := hb.writes.signs
  have hsigned := countP_concat Piece.signed pieces b
  have hended := countP_concat Piece.ended pieces b
  constructor
  · rw [hb.lexemes, h.lexemes, List.flatMap_append, List.flatMap_singleton]
  · rw [List.map_append, h.tokens, List.map_append, List.map_singleton, List.map_singleton,
      hb.kind, hb.line]
  · intro c hc
    rcases List.mem_append.mp hc with hc | hc
    · exact h.formed c hc
    · rw [List.mem_singleton.mp hc]
      exact hb.writes.formed
  · rw [hcount, h.signs, hsigned]
  · have hle := h.endings
    omega

theorem Assembles.ownKinds (h : Assembles done pieces s) :
    (Piece.ownKinds pieces).map some = done.map Token.kind? := by
  have hkinds := congrArg (List.map Prod.fst) h.tokens
  rw [List.map_map, List.map_map] at hkinds
  rw [Piece.ownKinds, Piece.own, List.map_map, List.map_map]
  exact hkinds

theorem Assembles.countP_spells (h : Assembles done pieces s)
    (hk : k ∈ [Kind.openParen, .closeParen, .openBrace, .closeBrace]) :
    done.countP (·.spells k) = (Piece.ownKinds pieces).count k := by
  have htokens := congrArg (List.countP fun entry => entry.1 == some k) h.tokens
  rw [List.countP_map, List.countP_map] at htokens
  rw [Piece.ownKinds, Piece.own, List.map_map, List.count, List.countP_map]
  calc done.countP (·.spells k)
      = done.countP ((fun entry => entry.1 == some k) ∘ fun token => (token.kind?, token.line)) :=
        List.countP_congr fun token _ => by rw [spells_bracket hk]; rfl
    _ = pieces.countP ((· == k) ∘ fun b => b.lexeme.kind) := htokens.symm

end Program
end Ttm
