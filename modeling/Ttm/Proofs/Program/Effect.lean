import Ttm.Proofs.Lexeme.Word
import Ttm.Proofs.Program.Piece
import Ttm.Proofs.Scope

/-! Which tokens are brackets, and what an accepted token does to the scopes and to the declared
names of a scan. -/
namespace Ttm

open Lexeme (Kind)
open Source (Token)

namespace Source.Token

/-- The token is the text that lexemes of a fixed kind have. -/
def spells (k : Kind) (token : Token) : Bool := token.text == k.text

def opens (token : Token) : Bool := token.spells .openBrace || token.spells .openParen

def closes (token : Token) : Bool := token.spells .closeBrace || token.spells .closeParen

variable {limits : Limits} {token : Token} {k k' l : Kind}

theorem spells_iff (hk : k ∈ Kind.fixed) : token.spells k ↔ Kind.ofText? token.text = some k := by
  rw [spells, beq_iff_eq, Lexeme.ofText?_eq_fixed hk]

theorem spells_or_iff (hk : k ∈ Kind.fixed) (hk' : k' ∈ Kind.fixed) :
    (token.spells k || token.spells k') ↔
      ∃ l, Kind.ofText? token.text = some l ∧ (l = k ∨ l = k') := by
  rw [Bool.or_eq_true, spells_iff hk, spells_iff hk']
  constructor
  · rintro (h | h)
    · exact ⟨_, h, Or.inl rfl⟩
    · exact ⟨_, h, Or.inr rfl⟩
  · rintro ⟨_, h, rfl | rfl⟩
    · exact Or.inl h
    · exact Or.inr h

theorem spells_or_eq_false (hk : k ∈ Kind.fixed) (hk' : k' ∈ Kind.fixed)
    (hl : Kind.ofText? token.text = some l) (hne : l ≠ k ∧ l ≠ k') :
    (token.spells k || token.spells k') = false := by
  refine Bool.eq_false_iff.mpr fun h => ?_
  obtain ⟨l', hl', heq⟩ := (spells_or_iff hk hk').mp h
  obtain rfl : l = l' := Option.some.inj (hl.symm.trans hl')
  rcases heq with rfl | rfl
  · exact hne.1 rfl
  · exact hne.2 rfl

theorem opens_iff : token.opens ↔
    ∃ k, Kind.ofText? token.text = some k ∧ (k = .openBrace ∨ k = .openParen) :=
  spells_or_iff (by decide) (by decide)

theorem closes_iff : token.closes ↔
    ∃ k, Kind.ofText? token.text = some k ∧ (k = .closeBrace ∨ k = .closeParen) :=
  spells_or_iff (by decide) (by decide)

end Source.Token

namespace Program

section
variable {limits : Limits} {token : Token} {k : Kind}

/-- A bracket becomes a lexeme of its own kind, and nothing else does. -/
theorem spells_bracket (hk : k ∈ [Kind.openParen, .closeParen, .openBrace, .closeBrace]) :
    token.spells k = (token.kind? == some k) := by
  have hfixed : k ∈ Kind.fixed := by
    revert hk
    cases k <;> decide
  have hwritten (k' : Kind) : k'.written = k ↔ k' = k := by
    revert hk
    cases k <;> cases k' <;> decide
  rw [Bool.eq_iff_iff, Token.spells_iff hfixed, beq_iff_eq, Token.kind?, Option.map_eq_some_iff]
  constructor
  · intro h
    exact ⟨k, h, (hwritten k).mpr rfl⟩
  · rintro ⟨k', h, hk'⟩
    rwa [← (hwritten k').mp hk']

theorem not_bracket (hk : token.kind? = some k) (hne : k ≠ .openBrace ∧ k ≠ .openParen ∧
    k ≠ .closeBrace ∧ k ≠ .closeParen) : token.opens = false ∧ token.closes = false := by
  simp [Token.opens, Token.closes, spells_bracket, hk, hne]

end

namespace Scan

/-- Brackets move the scopes, names behind keywords and datatypes are declared, and every other
token leaves both as they are; it may add a literal. -/
inductive Effect [Limits] (token : Token) (s t : State) : Prop
  | opening (ho : token.opens) (hc : token.closes = false)
    (hs : Scopes.Entered s.scopes s.function t.scopes) (hf : t.function = s.function)
    (hx : t.program.symbols = s.program.symbols)
  | closing (hc : token.closes) (ho : token.opens = false) (hs : Scopes.Left s.scopes t.scopes)
    (hf : t.function = s.function) (hx : t.program.symbols = s.program.symbols)
  | declaring {kind : SymbolKind} {type : DataType}
    (hk : token.kind? = some .identifier ∨ token.kind? = some .mainWord ∧ kind = .function)
    (hd : s.declarationKind? = some kind) (ht : s.pendingType = some type)
    (hs : t.scopes = (s.prepare kind token.text).scopes)
    (hf : t.function = (s.prepare kind token.text).function)
    (hx : t.program.symbols = s.program.symbols.add
      ((s.prepare kind token.text).declaration token.text kind type))
  | still (ho : token.opens = false) (hc : token.closes = false) (hs : t.scopes = s.scopes)
    (hf : t.function = s.function)
    (hd : token.kind? = some .identifier → s.declarationKind? = none)
    (hm : token.kind? = some .mainWord → s.declarationKind? ≠ some .function)
    (hx : t.program.symbols = s.program.symbols ∨
      ∃ x : Symbol, x.kind = .literal ∧ t.program.symbols = s.program.symbols.add x)

variable {limits : Limits} {s t u : State} {token : Token} {called : Bool} {index line : Nat}
  {k : Kind} {kind : SymbolKind} {type : DataType} {value : String}

theorem Interns.scopes (hi : Interns type value s index t) :
    t.scopes = s.scopes ∧ t.function = s.function ∧
      (t.program.symbols = s.program.symbols ∨
        ∃ x : Symbol, x.kind = .literal ∧ t.program.symbols = s.program.symbols.add x) := by
  cases hi with
  | reused => exact ⟨rfl, rfl, Or.inl rfl⟩
  | added => exact ⟨rfl, rfl, Or.inr ⟨s.newLiteral type value, rfl, rfl⟩⟩

theorem Refers.unchanged (hw : Refers line k index u t) : t.scopes = u.scopes ∧
    t.function = u.function ∧ t.program.symbols = u.program.symbols := by
  cases hw <;> exact ⟨rfl, rfl, rfl⟩

theorem declarationKind?_eq_function :
    s.declarationKind? = some .function ↔ s.program.lexemes.declaresFunction := by
  simp only [State.declarationKind?]
  split
  · next hfunction => simp [hfunction]
  · next hfunction =>
    simp only [hfunction, Bool.false_eq_true, iff_false]
    split
    · simp
    · split <;> simp

theorem not_opens (hk : Kind.ofText? token.text = some k) (h : k ≠ .openBrace ∧ k ≠ .openParen) :
    token.opens = false :=
  Token.spells_or_eq_false (by decide) (by decide) hk h

theorem not_closes (hk : Kind.ofText? token.text = some k)
    (h : k ≠ .closeBrace ∧ k ≠ .closeParen) : token.closes = false :=
  Token.spells_or_eq_false (by decide) (by decide) hk h

/-- A token without a name of its own leaves scopes and declarations, if it is no bracket. -/
theorem effect_still (hk : Kind.ofText? token.text = some k)
    (hb : k ≠ .openBrace ∧ k ≠ .openParen ∧ k ≠ .closeBrace ∧ k ≠ .closeParen)
    (hn : k ≠ .identifier ∧ k ≠ .mainWord) (hs : t.scopes = s.scopes)
    (hf : t.function = s.function) (hx : t.program.symbols = s.program.symbols ∨
      ∃ x : Symbol, x.kind = .literal ∧ t.program.symbols = s.program.symbols.add x) :
    Effect token s t := by
  have hkind (l : Kind) (hl : l = .identifier ∨ l = .mainWord) : token.kind? ≠ some l := by
    rw [Token.kind?_of_ofText? hk]
    intro h
    obtain rfl := Option.some.inj h
    cases k <;> simp_all [Kind.written]
  exact .still (not_opens hk ⟨hb.1, hb.2.1⟩) (not_closes hk hb.2.2) hs hf
    (fun h => absurd h (hkind _ (Or.inl rfl))) (fun h => absurd h (hkind _ (Or.inr rfl))) hx

theorem Resolves.effect (hr : Resolves token called s k index u)
    (hw : Refers line k index u t) : Effect token s t := by
  obtain ⟨hscopes, hfunction, hsymbols⟩ := hw.unchanged
  have hkind := hr.kind?
  have hcases := hr.kind
  cases hr with
  | found hk hself hl hd =>
    refine .still (not_opens hk (by decide)) (not_closes hk (by decide)) hscopes hfunction
      (fun _ => hd) ?_ (Or.inl hsymbols)
    rw [hd]
    exact fun _ => nofun
  | declared hk hself hl hd ht hr =>
    refine .declaring (Or.inl hkind) hd ht hscopes hfunction ?_
    rw [hsymbols, addDeclaration_prepare]
    rfl
  | main hk hl hd =>
    refine .still (not_opens hk (by decide)) (not_closes hk (by decide)) hscopes hfunction ?_ ?_
      (Or.inl hsymbols)
    · rw [hkind]
      exact nofun
    · rw [Ne, declarationKind?_eq_function, hd]
      exact fun _ => nofun
  | mainDeclared hk hl hd ht hr =>
    have htext : token.text = Kind.mainWord.text :=
      (Lexeme.ofText?_eq_fixed (by decide)).mp hk
    refine .declaring (Or.inr ⟨hkind, rfl⟩) (declarationKind?_eq_function.mpr hd) ht ?_ ?_ ?_
    · rw [hscopes]
      rfl
    · rw [hfunction, htext]
      rfl
    · rw [hsymbols, htext]
      rfl
  | literal hv hi =>
    obtain ⟨hscopes', hfunction', hsymbols'⟩ := hi.scopes
    rw [← hsymbols] at hsymbols'
    rcases hcases with ⟨-, h⟩ | ⟨-, h⟩ | ⟨hk | hk, -⟩
    · cases h
    · cases h
    all_goals
      exact effect_still hk (by decide) (by decide) (hscopes.trans hscopes')
        (hfunction.trans hfunction') hsymbols'

/-- Every accepted token has one of these effects. -/
theorem Step.effect (h : Step token called s t) : Effect token s t := by
  cases h with
  | datatype hk ht room =>
    rcases datatype?_eq_some ht with ⟨rfl, -⟩ | ⟨rfl, -⟩ <;>
      exact effect_still hk (by decide) (by decide) rfl rfl (Or.inl rfl)
  | refer hr hw => exact hr.effect hw
  | sign hk he room hi =>
    obtain ⟨hscopes, hfunction, hsymbols⟩ := hi.scopes
    exact effect_still hk (by decide) (by decide) hscopes hfunction hsymbols
  | minus hk he room => exact effect_still hk (by decide) (by decide) rfl rfl (Or.inl rfl)
  | @enter k scopes hk hb hs room =>
    have hclose : token.closes = false := by
      rcases hb with rfl | rfl <;> exact not_closes hk (by decide)
    exact .opening (Token.opens_iff.mpr ⟨_, hk, hb⟩) hclose (Scopes.entered hs) rfl rfl
  | @leave k scopes hk hb hs room =>
    have hopen : token.opens = false := by
      rcases hb with rfl | rfl <;> exact not_opens hk (by decide)
    exact .closing (Token.closes_iff.mpr ⟨_, hk, hb⟩) hopen (Scopes.left hs) rfl rfl
  | plain hk hp room =>
    refine effect_still hk ⟨?_, ?_, ?_, ?_⟩ ⟨?_, ?_⟩ rfl rfl (Or.inl rfl) <;>
      rintro rfl <;> cases hp

/-- The lexeme of an identifier refers to a symbol of its name. A call looks it up among the global
names, and a function is declared there; else it belongs to the current scope. -/
theorem Step.identifier (h : Step token called s t) (hs : s.program.symbols.Indexed)
    (hk : token.kind? = some .identifier) :
    ∃ index x, t.program.lexemes.get? s.program.lexemes.size =
        some ⟨.identifier, token.line, some index⟩ ∧
      t.program.symbols.get? index = some x ∧ x.name = token.text ∧
      (x.scope = s.scopes.current ∨ x.scope = Symbol.globalScope ∧
        (called ∨ s.declarationKind? = some .function)) := by
  have htext : Kind.ofText? token.text = some .identifier := by
    obtain ⟨k, htext, hwritten⟩ := Option.map_eq_some_iff.mp hk
    cases k <;> cases hwritten
    exact htext
  have hscan := h.scanToken_eq
  unfold scanToken at hscan
  rw [htext] at hscan
  obtain ⟨index, u, hr, hw⟩ := (scanIdentifier_eq_ok htext).mp hscan
  have hget : t.program.lexemes.get? s.program.lexemes.size =
      some ⟨.identifier, token.line, some index⟩ := by
    rw [← hr.sameTable.lexemes]
    cases hw with
    | plain hc room => exact Lexeme.Table.get?_add_self
    | closing hc room => exact Lexeme.Table.get?_add Lexeme.Table.get?_add_self
  have hsymbols := hw.unchanged.2.2
  cases hr with
  | found hk hself hl hd =>
    obtain ⟨x, hx, -, hscope, hname⟩ := hs.get?_of_lookup hl
    refine ⟨index, x, hget, by rw [hsymbols, hx], hname, ?_⟩
    unfold State.lookupScope at hscope
    cases called with
    | true => exact Or.inr ⟨hscope, Or.inl rfl⟩
    | false => exact Or.inl hscope
  | @declared kind type hk hself hl hd ht hr =>
    refine ⟨_, (s.prepare kind token.text).declaration token.text kind type, hget, ?_, rfl, ?_⟩
    · rw [hsymbols, addDeclaration_prepare]
      exact Symbol.Table.get?_add_self
    · show (s.prepare kind token.text).scopes.current = _ ∨ _
      unfold State.prepare
      split
      · next hfunction => exact Or.inr ⟨rfl, Or.inr (hfunction ▸ hd)⟩
      · exact Or.inl rfl

end Scan
end Program
end Ttm
