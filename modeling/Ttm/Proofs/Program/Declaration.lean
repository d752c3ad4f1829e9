import Mathlib
import Ttm.Proofs.Lexeme.Sign
import Ttm.Proofs.Program.FirstReference
import Ttm.Proofs.Program.History

/-! What stands in front of a declared name, and which names a keyword declares. -/
namespace Ttm

open Lexeme (Kind)
open Source (Token)

/-- What stands behind such a keyword and a datatype is declared as a symbol of this kind. -/
def Lexeme.Kind.declares? : Kind → Option SymbolKind
  | .fnWord => some .function
  | .letWord => some .var
  | _ => none

/-- Lexemes that can be declared as a symbol of a kind. -/
def Lexeme.Kind.names (k : Kind) (kind : SymbolKind) : Prop :=
  k = .identifier ∨ k = .mainWord ∧ kind = .function

namespace Program

/-- A name is declared where the lexeme `n` stands. -/
def Introduces (symbols : Symbol.Table) (n : Nat) : Prop :=
  ∃ i x, symbols.get? i = some x ∧ x.kind ≠ .literal ∧ x.position = some n

/-- A datatype stands before `n`, and no name between them takes it. -/
def TypedAt (p : Program) (n : Nat) : Prop :=
  ∃ d, d < n ∧ p.lexemes.kinds[d]? = some .datatype ∧
    ∀ m, d < m → m < n → ¬ Introduces p.symbols m

/-- Behind a keyword and a datatype, a name is declared as what the keyword says. -/
def KeywordsDeclare (p : Program) : Prop :=
  ∀ q k kind l, p.lexemes.kinds[q]? = some k → k.declares? = some kind →
    p.lexemes.kinds[q + 1]? = some .datatype → p.lexemes.get? (q + 2) = some l →
    l.kind.names kind → ∃ i x, l.symbol = some i ∧ p.symbols.get? i = some x ∧ x.kind = kind ∧
      x.position = some (q + 2)

/-- What is known of declarations while tokens are still to come. -/
structure Declaring (p : Program) (pending : Option DataType) : Prop where
  before : ∀ n, Introduces p.symbols n → n < p.lexemes.size
  pending : pending.isSome → TypedAt p p.lexemes.size
  declared : ∀ i x k n, p.symbols.get? i = some x → k.declares? = some x.kind →
    x.position = some n → ∃ q, n = q + 2 ∧ p.lexemes.kinds[q]? = some k ∧ TypedAt p n
  declares : KeywordsDeclare p
  functions : ∀ i x, p.symbols.get? i = some x → x.kind = .function →
    x.scope = Symbol.globalScope

section

variable {limits : Limits} {p u : Program} {pending : Option DataType} {l : Lexeme} {x : Symbol}
  {n q line : Nat} {k : Kind} {kind : SymbolKind} {symbols : Symbol.Table}

theorem ne_literal_of_declares? (h : k.declares? = some kind) : kind ≠ .literal := by
  cases k <;> cases h <;> decide

theorem ne_datatype_of_declares? (h : k.declares? = some kind) : k ≠ .datatype := by
  rintro rfl
  cases h

theorem not_names_literal {symbol : Option Nat} :
    ¬ (⟨.literal, line, symbol⟩ : Lexeme).kind.names kind := by
  simp [Kind.names]

theorem getElem?_kinds_addLexeme (h : p.lexemes.kinds[q]? = some k) :
    (p.addLexeme l).lexemes.kinds[q]? = some k := by
  rw [kinds_addLexeme]
  exact Lexeme.getElem?_concat.mpr (Or.inl h)

theorem introduces_add : Introduces (symbols.add x) n ↔
    Introduces symbols n ∨ x.kind ≠ .literal ∧ x.position = some n := by
  constructor
  · rintro ⟨i, y, hy, hkind, hn⟩
    rcases Symbol.Table.get?_add_eq_some hy with hy | ⟨-, rfl⟩
    · exact Or.inl ⟨i, y, hy, hkind, hn⟩
    · exact Or.inr ⟨hkind, hn⟩
  · rintro (⟨i, y, hy, hkind, hn⟩ | ⟨hkind, hn⟩)
    · exact ⟨i, y, Symbol.Table.get?_add hy, hkind, hn⟩
    · exact ⟨_, x, Symbol.Table.get?_add_self, hkind, hn⟩

theorem TypedAt.addLexeme (h : TypedAt p n) : TypedAt (p.addLexeme l) n := by
  obtain ⟨d, hd, hk, hnone⟩ := h
  exact ⟨d, hd, getElem?_kinds_addLexeme hk, hnone⟩

/-- A datatype before `n` is not taken by a name that is declared behind. -/
theorem TypedAt.addSymbol (h : TypedAt p n) (hx : x.kind ≠ .literal → ∃ m, n ≤ m ∧
    x.position = some m) : TypedAt (p.addSymbol x) n := by
  obtain ⟨d, hd, hk, hnone⟩ := h
  refine ⟨d, hd, hk, fun m hdm hmn hm => ?_⟩
  rcases introduces_add.mp hm with hm | ⟨hkind, hm⟩
  · exact hnone m hdm hmn hm
  · obtain ⟨m', hn, hm'⟩ := hx hkind
    obtain rfl : m' = m := Option.some.inj (hm'.symm.trans hm)
    omega

theorem KeywordsDeclare.addSymbol (h : KeywordsDeclare p) : KeywordsDeclare (p.addSymbol x) := by
  intro q k kind l hk hd ht hl hnames
  obtain ⟨i, y, hi, hy, hkind, hq⟩ := h q k kind l hk hd ht hl hnames
  exact ⟨i, y, hi, Symbol.Table.get?_add hy, hkind, hq⟩

theorem KeywordsDeclare.addLexeme (h : KeywordsDeclare p)
    (hl : ∀ q k kind, p.lexemes.size = q + 2 → p.lexemes.kinds[q]? = some k →
      k.declares? = some kind → l.kind.names kind → ∃ i x, l.symbol = some i ∧
        p.symbols.get? i = some x ∧ x.kind = kind ∧ x.position = some p.lexemes.size) :
    KeywordsDeclare (p.addLexeme l) := by
  intro q k kind m hk hd ht hm hnames
  have hlt := Lexeme.Table.get?_lt hm
  rw [size_addLexeme] at hlt
  have hold {r : Nat} {k' : Kind} (hr : r < p.lexemes.size)
      (h : (p.addLexeme l).lexemes.kinds[r]? = some k') : p.lexemes.kinds[r]? = some k' := by
    rw [kinds_addLexeme] at h
    rcases Lexeme.getElem?_concat.mp h with h | ⟨rfl, -⟩
    · exact h
    · rw [Lexeme.Table.length_kinds] at hr
      exact absurd hr (Nat.lt_irrefl _)
  have hk := hold (by omega) hk
  have ht := hold (by omega) ht
  rcases Nat.lt_or_ge (q + 2) p.lexemes.size with hq | hq
  · have hm : p.lexemes.get? (q + 2) = some m := (Lexeme.Table.get?_add_of_lt hq).symm.trans hm
    exact h q k kind m hk hd ht hm hnames
  · have hq : p.lexemes.size = q + 2 := by omega
    have hm : (p.lexemes.add l).get? (q + 2) = some m := hm
    rw [← hq, Lexeme.Table.get?_add_self] at hm
    obtain rfl : l = m := Option.some.inj hm
    rw [← hq]
    exact hl q k kind hq hk hd hnames

/-- A lexeme more declares nothing, if it is no name behind a keyword. -/
theorem Declaring.addLexeme (h : Declaring p pending)
    (hl : ∀ q k kind, p.lexemes.size = q + 2 → p.lexemes.kinds[q]? = some k →
      k.declares? = some kind → ¬ l.kind.names kind) : Declaring (p.addLexeme l) pending := by
  constructor
  · intro n hn
    have := h.before n hn
    rw [size_addLexeme]
    omega
  · intro hpending
    obtain ⟨d, hd, hk, hnone⟩ := h.pending hpending
    refine ⟨d, by rw [size_addLexeme]; omega, getElem?_kinds_addLexeme hk, fun m hdm _ hm => ?_⟩
    exact hnone m hdm (h.before m hm) hm
  · intro i x k n hx hk hn
    obtain ⟨q, hq, hkq, htyped⟩ := h.declared i x k n hx hk hn
    exact ⟨q, hq, getElem?_kinds_addLexeme hkq, htyped.addLexeme⟩
  · exact h.declares.addLexeme fun q k kind hq hk hd hnames => absurd hnames (hl q k kind hq hk hd)
  · exact h.functions

theorem Declaring.addDatatype {type : DataType} (h : Declaring p pending) :
    Declaring (p.addLexeme ⟨.datatype, line, none⟩) (some type) := by
  have hadd : Declaring (p.addLexeme ⟨.datatype, line, none⟩) pending :=
    h.addLexeme fun _ _ _ _ _ _ hnames => by simp [Kind.names] at hnames
  refine { hadd with pending := fun _ => ⟨p.lexemes.size, ?_, ?_, fun m hm _ hintroduces => ?_⟩ }
  · rw [size_addLexeme]
    omega
  · rw [kinds_addLexeme]
    exact Lexeme.getElem?_concat.mpr (Or.inr ⟨Lexeme.Table.length_kinds.symm, rfl⟩)
  · have := h.before m hintroduces
    omega

theorem Declaring.addLiteral (h : Declaring p pending) (hx : x.kind = .literal) :
    Declaring (p.addSymbol x) pending := by
  constructor
  · intro n hn
    rcases introduces_add.mp hn with hn | ⟨hne, -⟩
    · exact h.before n hn
    · exact absurd hx hne
  · exact fun hpending => (h.pending hpending).addSymbol fun hne => absurd hx hne
  · intro i y k n hy hk hn
    rcases Symbol.Table.get?_add_eq_some hy with hy | ⟨-, rfl⟩
    · obtain ⟨q, hq, hkq, htyped⟩ := h.declared i y k n hy hk hn
      exact ⟨q, hq, hkq, htyped.addSymbol fun hne => absurd hx hne⟩
    · exact absurd hx (ne_literal_of_declares? hk)
  · exact h.declares.addSymbol
  · intro i y hy hkind
    rcases Symbol.Table.get?_add_eq_some hy with hy | ⟨-, rfl⟩
    · exact h.functions i y hy hkind
    · rw [hx] at hkind
      cases hkind

/-- A symbol that the lexemes before the next one declare comes with that lexeme. -/
theorem Declaring.declare (h : Declaring p pending) (hpending : pending.isSome)
    (hx : x.position = some p.lexemes.size) (hglobal : x.kind = .function →
      x.scope = Symbol.globalScope)
    (hkeyword : ∀ k, k.declares? = some x.kind →
      ∃ q, p.lexemes.size = q + 2 ∧ p.lexemes.kinds[q]? = some k)
    (hkind : ∀ q k' kind, p.lexemes.size = q + 2 → p.lexemes.kinds[q]? = some k' →
      k'.declares? = some kind → k.names kind → x.kind = kind) :
    Declaring ((p.addSymbol x).addLexeme ⟨k, line, some p.symbols.size⟩) none := by
  have hlater {n : Nat} (hn : n ≤ p.lexemes.size) (htyped : TypedAt p n) :
      TypedAt ((p.addSymbol x).addLexeme ⟨k, line, some p.symbols.size⟩) n :=
    (htyped.addSymbol fun _ => ⟨_, hn, hx⟩).addLexeme
  constructor
  · intro n hn
    rw [size_addLexeme]
    rcases introduces_add.mp hn with hn | ⟨-, hn⟩
    · exact Nat.lt_succ_of_lt (h.before n hn)
    · rw [hx] at hn
      cases hn
      exact Nat.lt_succ_self _
  · exact fun h => absurd h Bool.false_ne_true
  · intro i y k' n hy hk hn
    rcases Symbol.Table.get?_add_eq_some hy with hy | ⟨-, rfl⟩
    · obtain ⟨q, hq, hkq, htyped⟩ := h.declared i y k' n hy hk hn
      have hlt := h.before n ⟨i, y, hy, ne_literal_of_declares? hk, hn⟩
      exact ⟨q, hq, getElem?_kinds_addLexeme hkq, hlater (Nat.le_of_lt hlt) htyped⟩
    · rw [hx] at hn
      cases hn
      obtain ⟨q, hq, hkq⟩ := hkeyword k' hk
      exact ⟨q, hq, getElem?_kinds_addLexeme hkq, hlater (Nat.le_refl _) (h.pending hpending)⟩
  · refine h.declares.addSymbol.addLexeme fun q k' kind hq hk hd hnames => ?_
    exact ⟨_, x, rfl, Symbol.Table.get?_add_self, hkind q k' kind hq hk hd hnames, hx⟩
  · intro i y hy hfunction
    rcases Symbol.Table.get?_add_eq_some hy with hy | ⟨-, rfl⟩
    · exact h.functions i y hy hfunction
    · exact hglobal hfunction

namespace Scan

variable {s t u : State} {token : Token} {called : Bool} {index : Nat}

theorem declarationKind?_of_keyword (hq : s.program.lexemes.size = q + 2)
    (hk : s.program.lexemes.kinds[q]? = some k) (hd : k.declares? = some kind) :
    s.declarationKind? = some kind := by
  have hend := Lexeme.Table.kindFromEnd?_eq_some.mpr ⟨q, hq, hk⟩
  cases k <;> cases hd <;>
    simp [State.declarationKind?, Lexeme.Table.declaresFunction, Lexeme.Table.declaresVariable,
      hend]

theorem keyword_of_declarationKind? (h : s.declarationKind? = some kind)
    (hd : k.declares? = some kind) :
    ∃ q, s.program.lexemes.size = q + 2 ∧ s.program.lexemes.kinds[q]? = some k := by
  refine Lexeme.Table.kindFromEnd?_eq_some.mp ?_
  simp only [State.declarationKind?] at h
  split at h
  · next hfunction =>
    cases h
    cases k <;> cases hd
    exact beq_iff_eq.mp hfunction
  · split at h
    · next hvariable =>
      cases h
      cases k <;> cases hd
      exact beq_iff_eq.mp hvariable
    · split at h <;> cases h
      cases k <;> cases hd

/-- A token that stands for a symbol leaves what is known of declarations. -/
theorem Resolves.declaring (hr : Resolves token called s k index u)
    (h : Declaring s.program s.pendingType) :
    Declaring (u.addLexeme ⟨k, token.line, some index⟩).program u.pendingType := by
  cases hr with
  | found hk hself hl hd =>
    -- a name that is known is accepted only where nothing is declared
    refine h.addLexeme fun q k kind hq hk hdeclares _ => ?_
    rw [declarationKind?_of_keyword hq hk hdeclares] at hd
    cases hd
  | @declared kind type hk hself hl hd ht hr =>
    show Declaring (Program.addLexeme _ ⟨.identifier, token.line, _⟩) none
    rw [addDeclaration_prepare]
    refine h.declare (by rw [ht]; rfl) position_declaration ?_ ?_ ?_
    · rintro ⟨⟩
      rfl
    · exact fun k hk => keyword_of_declarationKind? hd hk
    · intro q k' kind' hq hk' hdeclares _
      exact Option.some.inj (hd.symm.trans (declarationKind?_of_keyword hq hk' hdeclares))
  | main hk hl hd =>
    refine h.addLexeme fun q k kind hq hk hdeclares hnames => ?_
    obtain rfl : kind = .function := by simpa [Kind.names] using hnames
    cases k <;> cases hdeclares
    rw [Lexeme.Table.declaresFunction, Lexeme.Table.kindFromEnd?_eq_some.mpr ⟨q, hq, hk⟩] at hd
    cases hd
  | mainDeclared hk hl hd ht hr =>
    refine h.declare (by rw [ht]; rfl) rfl (fun _ => rfl) ?_ ?_
    · intro k hk
      cases k <;> cases hk
      exact Lexeme.Table.kindFromEnd?_eq_some.mp (beq_iff_eq.mp hd)
    · intro _ _ kind _ _ _ hnames
      obtain rfl : kind = .function := by simpa [Kind.names] using hnames
      rfl
  | literal hv hi =>
    cases hi with
    | reused hl => exact h.addLexeme fun _ _ _ _ _ _ => not_names_literal
    | added hl hr => exact (h.addLiteral rfl).addLexeme fun _ _ _ _ _ _ => not_names_literal

/-- Every accepted token leaves what is known of declarations. -/
theorem Step.declaring (hs : Step token called s t) (h : Declaring s.program s.pendingType) :
    Declaring t.program t.pendingType := by
  have hbare {p : Program} {pending : Option DataType} {k : Kind}
      (hp : Declaring p pending) (hk : k ≠ .identifier ∧ k ≠ .mainWord) :
      Declaring (p.addLexeme ⟨k, token.line, none⟩) pending :=
    hp.addLexeme fun _ _ _ _ _ _ hnames => by simp [Kind.names, hk] at hnames
  cases hs with
  | datatype hk ht room => exact h.addDatatype
  | refer hr hw =>
    have hr := hr.declaring h
    cases hw with
    | plain hc room => exact hr
    | closing hc room => exact hbare hr (by decide)
  | sign hk he room hi =>
    have hopen := hbare (k := .openParen) h (by decide)
    have hvalue : literal? "0" = some (.i32, "0") := rfl
    have hzero : Resolves ⟨"0", token.line⟩ called _ .literal _ _ := .literal hvalue hi
    exact hbare (hzero.declaring hopen) (by decide)
  | minus hk he room => exact hbare h (by decide)
  | enter hk hb hs room => rcases hb with rfl | rfl <;> exact hbare h (by decide)
  | leave hk hb hs room => rcases hb with rfl | rfl <;> exact hbare h (by decide)
  | plain hk hp room =>
    refine hbare h ⟨?_, ?_⟩ <;> rintro rfl <;> cases hp

end Scan

theorem declaring_library {maxSymbols maxLexemes : Nat}
    (h : (Symbol.Table.empty maxSymbols).registerLibrary = (.ok n, symbols)) :
    Declaring ⟨symbols, .empty maxLexemes⟩ none := by
  have hlibrary {i : Nat} {x : Symbol} (hx : symbols.get? i = some x) :
      x.position = none ∧ (x.kind = .function → x.scope = Symbol.globalScope) := by
    have hall : ∀ x ∈ Symbol.Signature.library,
        x.position = none ∧ (x.kind = .function → x.scope = Symbol.globalScope) := by decide
    exact hall x (Symbol.Table.mem_library h hx)
  constructor
  · rintro n ⟨i, x, hx, -, hn⟩
    rw [(hlibrary hx).1] at hn
    cases hn
  · exact fun h => absurd h Bool.false_ne_true
  · intro i x k n hx _ hn
    rw [(hlibrary hx).1] at hn
    cases hn
  · intro q k kind l hk
    cases hk
  · exact fun i x hx => (hlibrary hx).2

theorem Grows.found (hg : Grows p u) (h : p.symbols.Found) : u.symbols.Found := by
  induction hg with
  | refl => exact h
  | bare _ _ _ ih => exact ih
  | refer _ ha ih =>
    cases ha with
    | known => exact ih
    | added hr => exact ih.add hr

theorem found_library {maxSymbols : Nat}
    (h : (Symbol.Table.empty maxSymbols).registerLibrary = (.ok n, symbols)) : symbols.Found := by
  have hfound := Symbol.Table.registerLibrary_induction (P := Symbol.Table.Found)
    (fun _ _ _ ht hr => ht.add hr) (t := .empty maxSymbols) fun i x hx => by cases hx
  rwa [h] at hfound

/-- The definition at `q` is that of the function `x`. -/
def DefinesAt (p : Program) (q : Nat) (x : Symbol) : Prop :=
  p.lexemes.kinds[q]? = some .fnWord ∧ p.lexemes.kinds[q + 1]? = some .datatype ∧
    ∃ l i, p.lexemes.get? (q + 2) = some l ∧ (l.kind = .identifier ∨ l.kind = .mainWord) ∧
      l.symbol = some i ∧ p.symbols.get? i = some x

/-- Keywords and declared symbols correspond. A declared symbol is announced by its keyword two
lexemes before, and by a datatype in between unless there is a datatype before that no name took. -/
structure Corresponds (p : Program) : Prop where
  declares : KeywordsDeclare p
  declared : ∀ i x k, 5 ≤ i → p.symbols.get? i = some x → k.declares? = some x.kind →
    ∃ q l, x.position = some (q + 2) ∧ p.lexemes.get? (q + 2) = some l ∧ l.symbol = some i ∧
      p.lexemes.kinds[q]? = some k ∧
      ((∀ d, d < q → p.lexemes.kinds[d]? = some .datatype → Introduces p.symbols (d + 1)) →
        p.lexemes.kinds[q + 1]? = some .datatype)
  functions : ∀ i j x y, p.symbols.get? i = some x → p.symbols.get? j = some y →
    x.kind = .function → y.kind = .function → x.name = y.name → i = j
  once : ∀ q r x y, DefinesAt p q x → DefinesAt p r y → x.name = y.name → q = r

/-- The datatype that a name takes stands right in front of it if none before is left over. -/
theorem TypedAt.previous (h : TypedAt p (q + 2)) (hk : p.lexemes.kinds[q]? ≠ some .datatype)
    (htaken : ∀ d, d < q → p.lexemes.kinds[d]? = some .datatype →
      Introduces p.symbols (d + 1)) : p.lexemes.kinds[q + 1]? = some .datatype := by
  obtain ⟨d, hd, hkd, hnone⟩ := h
  have hcases : d < q ∨ d = q ∨ d = q + 1 := by omega
  rcases hcases with hlt | rfl | rfl
  · exact absurd (htaken d hlt hkd) (hnone (d + 1) (by omega) (by omega))
  · exact absurd hkd hk
  · exact hkd

theorem Declaring.functions_eq {i j : Nat} {y : Symbol} (h : Declaring p pending)
    (hfound : p.symbols.Found) (hx : p.symbols.get? i = some x)
    (hy : p.symbols.get? j = some y) (hxk : x.kind = .function) (hyk : y.kind = .function)
    (hname : x.name = y.name) : i = j := by
  have hkey {z : Symbol} (hz : z.kind = .function) : z.literalKey? = none := by
    simp [Symbol.literalKey?, Symbol.isLiteral, hz]
  refine hfound.eq hx hy (hkey hxk) (hkey hyk) ?_ hname
  rw [h.functions i x hx hxk, h.functions j y hy hyk]

theorem Declaring.definesAt (h : Declaring p pending) (hd : DefinesAt p q x) :
    x.kind = .function ∧ x.position = some (q + 2) ∧ ∃ i, p.symbols.get? i = some x := by
  obtain ⟨hk, ht, l, i, hl, hnames, hi, hx⟩ := hd
  obtain ⟨i', x', hi', hx', hkind, hposition⟩ := h.declares q .fnWord .function l hk rfl ht hl
    (hnames.imp_right fun hmain => ⟨hmain, rfl⟩)
  obtain rfl : i = i' := Option.some.inj (hi.symm.trans hi')
  obtain rfl : x = x' := Option.some.inj (hx.symm.trans hx')
  exact ⟨hkind, hposition, i, hx⟩

theorem Declaring.corresponds (h : Declaring p pending) (ht : Traced p)
    (hfound : p.symbols.Found) : Corresponds p := by
  refine ⟨h.declares, ?_, ?_, ?_⟩
  · intro i x k hi hx hk
    obtain ⟨n, hn, ⟨l, hl, hli⟩, -⟩ := ht.position i x hi hx
    obtain ⟨q, rfl, hkq, htyped⟩ := h.declared i x k n hx hk hn
    refine ⟨q, l, hn, hl, hli, hkq, fun htaken => htyped.previous ?_ htaken⟩
    rw [hkq]
    exact fun heq => ne_datatype_of_declares? hk (Option.some.inj heq)
  · exact fun i j x y => h.functions_eq hfound
  · intro q r x y hq hr hname
    obtain ⟨hxk, hxq, i, hx⟩ := h.definesAt hq
    obtain ⟨hyk, hyr, j, hy⟩ := h.definesAt hr
    obtain rfl : i = j := h.functions_eq hfound hx hy hxk hyk hname
    obtain rfl : x = y := Option.some.inj (hx.symm.trans hy)
    rw [hxq] at hyr
    cases hyr
    rfl

/-- Behind an accepted scan into empty tables, keywords and declared symbols correspond. -/
theorem scan_corresponds {settings : ScanSettings} {maxDepth maxSymbols maxLexemes : Nat}
    {tokens : List Token} {metrics : Metrics}
    (h : (scan settings maxDepth tokens (empty maxSymbols maxLexemes)).result = .ok metrics) :
    Corresponds (scan settings maxDepth tokens (empty maxSymbols maxLexemes)).program := by
  obtain ⟨n, symbols, t, hr, hs, -, hscan⟩ := steps_of_scan h
  rw [hscan]
  have hgrows := (ready_library hr).grows hs
  have hdeclaring := Scan.scanTokens_induction
    (P := fun u => Declaring u.program u.pendingType)
    (fun _ _ _ _ hu hstep => hstep.declaring hu) (declaring_library hr) hs
  exact hdeclaring.corresponds (hgrows.traced (traced_library hr)) (hgrows.found (found_library hr))

end

attribute [local instance] Limits.development

/-- A function with a variable, whose `main` is defined behind it. -/
def defined : List Token :=
  oneLine 1 ["fn", "i32", "f", "(", ")", "\x7b", "let", "i32", "x", ";", "\x7d"] ++
    oneLine 2 ["fn", "i32", "main"]

theorem corresponds_defined : Corresponds (scan {} 1 defined (empty 8 14)).program := by
  have hresult : (scan {} 1 defined (empty 8 14)).result = .ok
      { tokens := 14, lexemes := 14, symbols := 8, declarations := 3, maxScopeDepth := 1 } := by
    cbv
  exact scan_corresponds hresult

/-- Every keyword declares a name. -/
def KeywordsAlwaysDeclare (p : Program) : Prop :=
  ∀ q k kind, p.lexemes.kinds[q]? = some k → k.declares? = some kind →
    p.lexemes.kinds[q + 1]? = some .datatype ∧ ∃ l i x, p.lexemes.get? (q + 2) = some l ∧
      l.symbol = some i ∧ p.symbols.get? i = some x ∧ x.kind = kind ∧ x.position = some (q + 2)

/-- Every declared symbol stands behind a keyword and a datatype. -/
def AlwaysAnnounced (p : Program) : Prop :=
  ∀ i x k, 5 ≤ i → p.symbols.get? i = some x → k.declares? = some x.kind →
    ∃ q, x.position = some (q + 2) ∧ p.lexemes.kinds[q]? = some k ∧
      p.lexemes.kinds[q + 1]? = some .datatype

/-- Keywords in front of the entry point and of nothing, and a name behind a separator. -/
def stray : List Token :=
  oneLine 1 ["fn", "i32", "main", "let", "i32", "main", "fn", "i32", ";", "fn", ";", "f"]

/-- Keywords need not declare, and a name may take a type that was left over. -/
theorem not_alwaysDeclare_stray : (scan {} 1 stray (empty 7 12)).result.isOk = true ∧
    ¬ KeywordsAlwaysDeclare (scan {} 1 stray (empty 7 12)).program ∧
    ¬ AlwaysAnnounced (scan {} 1 stray (empty 7 12)).program := by
  have hkinds : (scan {} 1 stray (empty 7 12)).program.lexemes.kinds =
      [.fnWord, .datatype, .mainWord, .letWord, .datatype, .mainWord, .fnWord, .datatype,
        .semicolon, .fnWord, .semicolon, .identifier] := by cbv
  refine ⟨by cbv, fun h => ?_, fun h => ?_⟩
  · have hmain : (scan {} 1 stray (empty 7 12)).program.lexemes.get? 5 =
        some ⟨.mainWord, 1, some 5⟩ := by cbv
    have hsymbol : (scan {} 1 stray (empty 7 12)).program.symbols.get? 5 =
        some ⟨"main", "", some 2, .i32, .function, none⟩ := by cbv
    obtain ⟨-, l, i, x, hl, hi, hx, hkind, -⟩ := h 3 .letWord .var (by rw [hkinds]; rfl) rfl
    cases hmain.symm.trans hl
    cases hi
    cases hsymbol.symm.trans hx
    cases hkind
  · have hsymbol : (scan {} 1 stray (empty 7 12)).program.symbols.get? 6 =
        some ⟨"f", "", some 11, .i32, .function, none⟩ := by cbv
    obtain ⟨q, hq, -, hdatatype⟩ := h 6 _ .fnWord (by decide) hsymbol rfl
    obtain rfl : q = 9 := Nat.add_right_cancel (Option.some.inj hq).symm
    rw [hkinds] at hdatatype
    cases hdatatype

end Program
end Ttm
