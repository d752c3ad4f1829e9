import Ttm.Proofs.Lexeme.Sign
import Ttm.Proofs.Program.History

/-! What every accepted token leaves in the lexeme table. -/
namespace Ttm

open Lexeme (Kind)
open Source (Token)

/-- The kind of lexeme that a word becomes in a program. -/
def Lexeme.Kind.written : Kind → Kind
  | .i32 | .str => .datatype
  | .integer | .string => .literal
  | k => k

/-- The kind of lexeme that a token becomes. -/
def Source.Token.kind? [Limits] (token : Token) : Option Kind :=
  (Kind.ofText? token.text).map Kind.written

/-- What one token leaves in the lexeme table: its own lexeme, and what signs put around it. -/
structure Piece where
  before : List Lexeme
  lexeme : Lexeme
  after : List Lexeme

def Piece.all (b : Piece) : List Lexeme := b.before ++ b.lexeme :: b.after

variable {limits : Limits}

theorem Source.Token.kind?_of_ofText? {token : Token} {k : Kind}
    (h : Kind.ofText? token.text = some k) : token.kind? = some k.written := by
  rw [Token.kind?, h, Option.map_some]

namespace Program.Scan

/-- A token is written with the opening of a sign in front of it, with the bracket that ends a sign
behind it, or alone. -/
inductive Writes (line : Nat) (s t : State) : Piece → Prop
  | sign {i : Nat} {x : Symbol} (hs : s.expectsOperand) (ht : t.signOpen)
    (hcount : t.metrics.unaryGroups = s.metrics.unaryGroups + 1)
    (hx : t.program.symbols.get? i = some x) (hzero : x.literalKey? = some (.i32, "0")) :
    Writes line s t
      ⟨[⟨.openParen, line, none⟩, ⟨.literal, line, some i⟩], ⟨.minus, line, none⟩, []⟩
  | closing {l : Lexeme} (hl : l.isOperand t.program.symbols) (hs : s.signOpen)
    (ht : t.signOpen = false) (hcount : t.metrics.unaryGroups = s.metrics.unaryGroups) :
    Writes line s t ⟨[], l, [⟨.closeParen, line, none⟩]⟩
  | alone {l : Lexeme} (hminus : l.kind = .minus → s.expectsOperand = false)
    (hl : l.isOperand t.program.symbols → s.signOpen = false) (ht : t.signOpen = s.signOpen)
    (hcount : t.metrics.unaryGroups = s.metrics.unaryGroups) : Writes line s t ⟨[], l, []⟩

/-- A piece for a token stands at the end of the lexeme table. -/
structure Leaves [Limits] (token : Token) (s t : State) (b : Piece) : Prop where
  writes : Writes token.line s t b
  lexemes : t.program.lexemes.toList = s.program.lexemes.toList ++ b.all
  kind : token.kind? = some b.lexeme.kind
  line : b.lexeme.line = token.line

variable {s t u : State} {token : Token} {called : Bool} {index : Nat} {k : Kind}
  {type : DataType} {value : String} {b : Piece}

theorem expectsOperand_iff : s.expectsOperand ↔
    ∃ l, s.program.lexemes.toList.getLast? = some l ∧ l.kind.takesSign := by
  have hlast : s.program.lexemes.last? = s.program.lexemes.toList.getLast? := by
    rw [Lexeme.Table.toList, Array.getLast?_toList]
    rfl
  rw [State.expectsOperand, hlast]
  cases s.program.lexemes.toList.getLast? <;> simp [Kind.takesSign, or_assoc]

/-- The lexeme table and what is known of signs stay as they are. -/
structure SameTable (s t : State) : Prop where
  lexemes : t.program.lexemes = s.program.lexemes
  signOpen : t.signOpen = s.signOpen
  unaryGroups : t.metrics.unaryGroups = s.metrics.unaryGroups

theorem Interns.sameTable (hi : Interns type value s index t) : SameTable s t := by
  cases hi <;> exact ⟨rfl, rfl, rfl⟩

theorem Resolves.sameTable (hr : Resolves token called s k index t) : SameTable s t := by
  cases hr with
  | found | main => exact ⟨rfl, rfl, rfl⟩
  | declared =>
    unfold State.prepare
    split <;> exact ⟨rfl, rfl, rfl⟩
  | mainDeclared => exact ⟨rfl, rfl, rfl⟩
  | literal _ hi => exact hi.sameTable

theorem Resolves.kind? (hr : Resolves token called s k index t) : token.kind? = some k := by
  unfold Token.kind?
  rcases hr.kind with ⟨hk, rfl⟩ | ⟨hk, rfl⟩ | ⟨hk | hk, rfl⟩ <;> rw [hk] <;> rfl

theorem closes_eq (line : Nat) : s.closes k index =
    (s.signOpen && Lexeme.isOperand s.program.symbols ⟨k, line, some index⟩) := by
  cases k with
  | identifier => rfl
  | literal => exact (Bool.and_true s.signOpen).symm
  | _ => exact (Bool.and_false s.signOpen).symm

theorem toList_addLexeme {l : Lexeme} :
    (s.addLexeme l).program.lexemes.toList = s.program.lexemes.toList ++ [l] :=
  Lexeme.Table.toList_add

/-- A lexeme without a symbol that is no sign is written alone. -/
theorem leaves_alone {v : State} (hk : token.kind? = some k)
    (hminus : k = .minus → s.expectsOperand = false) (hoperand : k ≠ .literal ∧ k ≠ .identifier)
    (hv : SameTable s v) :
    Leaves token s (v.addLexeme ⟨k, token.line, none⟩) ⟨[], ⟨k, token.line, none⟩, []⟩ := by
  refine ⟨.alone hminus ?_ hv.signOpen hv.unaryGroups, ?_, hk, rfl⟩
  · intro hl
    simp [Lexeme.isOperand, hoperand] at hl
  · rw [toList_addLexeme, hv.lexemes]
    rfl

theorem Refers.leaves (hr : Resolves token called s k index u)
    (hw : Refers token.line k index u t) : ∃ b, Leaves token s t b := by
  have hsame := hr.sameTable
  have hkind : k ≠ .minus := by
    rcases hr.kind with ⟨-, rfl⟩ | ⟨-, rfl⟩ | ⟨-, rfl⟩ <;> decide
  cases hw with
  | plain hc room =>
    refine ⟨⟨[], ⟨k, token.line, some index⟩, []⟩,
      .alone (fun h => absurd h hkind) ?_ hsame.signOpen hsame.unaryGroups, ?_, hr.kind?, rfl⟩
    · intro hl
      have hl : Lexeme.isOperand u.program.symbols ⟨k, token.line, some index⟩ := hl
      rw [closes_eq token.line, hl, Bool.and_true, hsame.signOpen] at hc
      exact hc
    · rw [toList_addLexeme, hsame.lexemes]
      rfl
  | closing hc room =>
    rw [closes_eq token.line, Bool.and_eq_true, hsame.signOpen] at hc
    refine ⟨⟨[], ⟨k, token.line, some index⟩, [⟨.closeParen, token.line, none⟩]⟩,
      .closing hc.2 hc.1 rfl hsame.unaryGroups, ?_, hr.kind?, rfl⟩
    show ((u.addLexeme _).addLexeme _).program.lexemes.toList = _
    rw [toList_addLexeme, toList_addLexeme, hsame.lexemes, List.append_assoc]
    rfl

theorem written_of_isPlain (hk : Kind.ofText? token.text = some k) (hp : isPlain k) :
    k.written = k ∧ k ≠ .minus ∧ k ≠ .literal ∧ k ≠ .identifier := by
  have hmem := mem_of_ofText? hk
  revert hmem hp
  cases k <;> decide

theorem written_of_bracket
    (hb : k = .openBrace ∨ k = .openParen ∨ k = .closeBrace ∨ k = .closeParen) :
    k.written = k ∧ k ≠ .minus ∧ k ≠ .literal ∧ k ≠ .identifier := by
  rcases hb with rfl | rfl | rfl | rfl <;> decide

theorem leaves_unchanged {v : State} (hk : Kind.ofText? token.text = some k)
    (hkind : k.written = k ∧ k ≠ .minus ∧ k ≠ .literal ∧ k ≠ .identifier) (hv : SameTable s v) :
    Leaves token s (v.addLexeme ⟨k, token.line, none⟩) ⟨[], ⟨k, token.line, none⟩, []⟩ := by
  refine leaves_alone ?_ (fun h => absurd h hkind.2.1) hkind.2.2 hv
  rw [Token.kind?_of_ofText? hk, hkind.1]

/-- Every accepted token leaves a piece. -/
theorem Step.leaves (h : Step token called s t) (hs : s.program.symbols.Indexed) :
    ∃ b, Leaves token s t b := by
  cases h with
  | @datatype k type hk ht room =>
    have hdatatype : k.written = .datatype := by
      rcases datatype?_eq_some ht with ⟨rfl, -⟩ | ⟨rfl, -⟩ <;> rfl
    refine ⟨_, leaves_alone (s := s) (v := { s with pendingType := some type }) ?_ (by simp)
      (by decide) ⟨rfl, rfl, rfl⟩⟩
    rw [Token.kind?_of_ofText? hk, hdatatype]
  | refer hr hw => exact hw.leaves hr
  | @sign index u hk he room hi =>
    have hsame := hi.sameTable
    obtain ⟨x, hx, hkey⟩ : ∃ x, u.program.symbols.get? index = some x ∧
        x.literalKey? = some (.i32, "0") := by
      cases hi with
      | reused hl => exact hs.get?_of_lookupLiteral hl
      | added hl hr => exact ⟨_, Symbol.Table.get?_add_self, rfl⟩
    refine ⟨_, .sign he rfl ?_ hx hkey, ?_, Token.kind?_of_ofText? hk, rfl⟩
    · exact congrArg (· + 1) hsame.unaryGroups
    · show ((u.addLexeme _).addLexeme _).program.lexemes.toList = _
      rw [toList_addLexeme, toList_addLexeme, hsame.lexemes, toList_addLexeme, List.append_assoc,
        List.append_assoc]
      rfl
  | minus hk he room =>
    exact ⟨_, leaves_alone (Token.kind?_of_ofText? hk) (fun _ => he) (by decide)
      ⟨rfl, rfl, rfl⟩⟩
  | @enter k scopes hk hb hscopes room =>
    exact ⟨_, leaves_unchanged (s := s) (v := { s with scopes }.tell _ _) hk
      (written_of_bracket (hb.imp_right Or.inl)) ⟨rfl, rfl, rfl⟩⟩
  | @leave k scopes hk hb hscopes room =>
    exact ⟨_, leaves_unchanged (s := s) (v := { s with scopes }.tell _ _) hk
      (written_of_bracket (Or.inr (Or.inr hb))) ⟨rfl, rfl, rfl⟩⟩
  | plain hk hp room =>
    exact ⟨_, leaves_unchanged hk (written_of_isPlain hk hp) ⟨rfl, rfl, rfl⟩⟩

end Program.Scan
end Ttm
