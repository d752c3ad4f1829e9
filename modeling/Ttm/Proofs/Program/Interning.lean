import Ttm.Proofs.Lexeme.Word
import Ttm.Proofs.Program.FirstReference
import Ttm.Proofs.Program.Image
import Ttm.Proofs.Program.Recall

/-! The literals of a token list, the symbols that stand for them, and how they are counted. -/
namespace Ttm

open Lexeme (Kind)
open Source (Token)

/-- The value of a literal: a number, or a text. -/
inductive Literal
  | integer (n : Nat)
  | string (text : String)
  deriving DecidableEq, Repr

namespace Literal

def type : Literal → DataType
  | integer _ => .i32
  | string _ => .str

/-- The canonical decimal form of a number; a text as it is. -/
def text : Literal → String
  | integer n => Nat.repr n
  | string text => text

def key (v : Literal) : DataType × String := (v.type, v.text)

theorem key_injective : Function.Injective key := by
  intro v w h
  obtain ⟨htype, htext⟩ := Prod.mk.inj h
  cases v <;> cases w <;> cases htype
  · exact congrArg integer (Nat.repr_injective htext)
  · exact congrArg string htext

end Literal

/-- The number that the digits of a token stand for, or what stands between its quotes. -/
def Source.Token.literal? [Limits] (token : Token) : Option Literal :=
  match Kind.ofText? token.text with
  | some .integer => some (.integer (Nat.ofDigitChars 10 token.text.toList 0))
  | some .string => some (.string (String.ofList token.text.toList.tail.dropLast))
  | _ => none

namespace Program

/-- The literal that a token is written with. A minus that is a sign is written with a zero. -/
def literalOf? [Limits] (done : List Token) (token : Token) : Option Literal :=
  if token.kind? = some .minus then
    if (recent? done 0).any (·.takesSign) then some (.integer 0) else none
  else token.literal?

/-- The literals of a token list, the zeros of signs among them. -/
def literals [Limits] (tokens : List Token) : List Literal := gather literalOf? [] tokens

/-- The lexemes of a program that are literals. -/
def literalLexemes (p : Program) : List Lexeme := p.lexemes.toList.filter (·.kind == .literal)

/-- A lexeme refers to a literal of this value. -/
def HasValue (symbols : Symbol.Table) (l : Lexeme) (v : Literal) : Prop :=
  ∃ i x, l.symbol = some i ∧ symbols.get? i = some x ∧ x.kind = .literal ∧ x.type = v.type ∧
    x.value = some v.text

/-- Literals stand for values: the lexemes for those of the tokens one by one, and the symbols for
different ones. The counts are those of the literals, of their uses and of the other symbols that
are not in the library. -/
structure LiteralsInterned (p : Program) (metrics : Metrics) (values : List Literal) : Prop where
  lexemes : List.Forall₂ (HasValue p.symbols) (literalLexemes p) values
  same : ∀ (m n : Nat) (l l' : Lexeme) (v v' : Literal), (literalLexemes p)[m]? = some l →
    (literalLexemes p)[n]? = some l' → values[m]? = some v → values[n]? = some v' →
      (l.symbol = l'.symbol ↔ v = v')
  interned : metrics.literalsInterned = p.symbols.literalCount
  used : metrics.literalsInterned + metrics.literalReuses = p.lexemes.countKind .literal
  declared : ∃ own, p.symbols.toList = Symbol.Signature.library ++ own ∧
    metrics.declarations = own.countP (!·.isLiteral)

/-- Every literal is found by its value. The counts are right when there were `uses` of literals. -/
structure Counted (uses : Nat) (s : Scan.State) : Prop where
  found : ∀ i x key, s.program.symbols.get? i = some x → x.literalKey? = some key →
    s.program.symbols.lookupLiteral key.1 key.2 = some i
  interned : s.metrics.literalsInterned = s.program.symbols.toList.countP (·.isLiteral)
  used : s.metrics.literalsInterned + s.metrics.literalReuses = uses
  declared : s.metrics.declarations + 5 = s.program.symbols.toList.countP (!·.isLiteral)

/-- The literals of the tokens done are interned. -/
structure Interning [Limits] (done : List Token) (s : Scan.State) : Prop where
  counted : Counted (literals done).length s
  lexemes : List.Forall₂ (HasValue s.program.symbols) (literalLexemes s.program) (literals done)

section

variable {limits : Limits} {done : List Token} {token : Token} {called : Bool} {s t u : Scan.State}
  {v : Literal} {l : Lexeme} {x : Symbol} {symbols : Symbol.Table} {i n : Nat} {k : Kind}
  {type : DataType} {value : String}

theorem hasValue_iff : HasValue symbols l v ↔
    ∃ i x, l.symbol = some i ∧ symbols.get? i = some x ∧ x.literalKey? = some v.key := by
  have hkey (x : Symbol) : x.kind = .literal ∧ x.type = v.type ∧ x.value = some v.text ↔
      x.literalKey? = some v.key := by
    unfold Symbol.literalKey? Symbol.isLiteral
    by_cases hk : x.kind = .literal <;> simp [hk, Literal.key, and_comm]
  simp only [HasValue, hkey]

/-- Lexemes with one symbol have one value, and conversely where literals are found by value. -/
theorem Counted.symbol_eq_iff {uses : Nat} {l' : Lexeme} {v' : Literal} (h : Counted uses s)
    (hl : HasValue s.program.symbols l v) (hl' : HasValue s.program.symbols l' v') :
    l.symbol = l'.symbol ↔ v = v' := by
  obtain ⟨i, x, hi, hx, hkey⟩ := hasValue_iff.mp hl
  obtain ⟨j, y, hj, hy, hkey'⟩ := hasValue_iff.mp hl'
  rw [hi, hj, Option.some.injEq]
  constructor
  · rintro rfl
    obtain rfl : x = y := Option.some.inj (hx.symm.trans hy)
    exact Literal.key_injective (Option.some.inj (hkey.symm.trans hkey'))
  · rintro rfl
    exact Option.some.inj ((h.found i x _ hx hkey).symm.trans (h.found j y _ hy hkey'))

/-- A literal of a new value, and one symbol more that is no literal, are counted. -/
theorem Counted.addLiteral {uses : Nat} {key : DataType × String} (h : Counted uses s)
    (hx : x.literalKey? = some key)
    (hnew : s.program.symbols.lookupLiteral key.1 key.2 = none)
    (hsymbols : t.program.symbols = s.program.symbols.add x)
    (hmetrics : t.metrics = { s.metrics with literalsInterned := s.metrics.literalsInterned + 1 }) :
    Counted (uses + 1) t := by
  have hliteral : x.isLiteral = true := by
    unfold Symbol.literalKey? at hx
    split at hx
    · assumption
    · cases hx
  constructor
  · intro i y key' hy hkey
    rw [hsymbols] at hy ⊢
    rw [Symbol.Table.lookupLiteral_add hx]
    rcases Symbol.Table.get?_add_eq_some hy with hy | ⟨rfl, rfl⟩
    · rw [h.found i y key' hy hkey]
      rfl
    · obtain rfl : key = key' := Option.some.inj (hx.symm.trans hkey)
      rw [hnew, if_pos rfl]
      rfl
  · rw [hsymbols, hmetrics, Symbol.Table.toList_add, List.countP_append, ← h.interned]
    simp [hliteral]
  · have := h.used
    rw [hmetrics]
    show s.metrics.literalsInterned + 1 + s.metrics.literalReuses = _
    omega
  · rw [hsymbols, hmetrics, Symbol.Table.toList_add, List.countP_append, ← h.declared]
    simp [hliteral]

theorem Counted.addDeclared {uses : Nat} (h : Counted uses s) (hx : x.kind ≠ .literal)
    (hsymbols : t.program.symbols = s.program.symbols.add x)
    (hmetrics : t.metrics = { s.metrics with declarations := s.metrics.declarations + 1 }) :
    Counted uses t := by
  have hliteral : x.isLiteral = false := beq_eq_false_iff_ne.mpr hx
  have hkey : x.literalKey? = none := by simp [Symbol.literalKey?, hliteral]
  constructor
  · intro i y key hy hykey
    rw [hsymbols] at hy ⊢
    rw [Symbol.Table.lookupLiteral_add_of_none hkey]
    rcases Symbol.Table.get?_add_eq_some hy with hy | ⟨rfl, rfl⟩
    · exact h.found i y key hy hykey
    · rw [hkey] at hykey
      cases hykey
  · rw [hsymbols, hmetrics, Symbol.Table.toList_add, List.countP_append, ← h.interned]
    simp [hliteral]
  · rw [hmetrics]
    exact h.used
  · rw [hsymbols, hmetrics, Symbol.Table.toList_add, List.countP_append, ← h.declared]
    simp [hliteral, Nat.add_right_comm]

namespace Scan

theorem Interns.counted {index uses : Nat} (hi : Interns type value s index t)
    (h : Counted uses s) : Counted (uses + 1) t := by
  cases hi with
  | reused hl =>
    refine ⟨h.found, h.interned, ?_, h.declared⟩
    have := h.used
    show s.metrics.literalsInterned + (s.metrics.literalReuses + 1) = _
    omega
  | added hl hr => exact h.addLiteral (x := s.newLiteral type value) rfl hl rfl rfl

theorem Interns.symbol {index : Nat} (hi : Interns type value s index t)
    (hs : s.program.symbols.Indexed) :
    ∃ x, t.program.symbols.get? index = some x ∧ x.literalKey? = some (type, value) := by
  cases hi with
  | reused hl => exact hs.get?_of_lookupLiteral hl
  | added hl hr => exact ⟨_, Symbol.Table.get?_add_self, rfl⟩

/-- A name is counted when it is declared. -/
theorem Resolves.counted {index uses : Nat} (hr : Resolves token called s k index t)
    (hk : k ≠ .literal) (h : Counted uses s) : Counted uses t := by
  cases hr with
  | found | main => exact h
  | @declared kind type hk hself hl hd ht hr =>
    refine h.addDeclared (x := (s.prepare kind token.text).declaration token.text kind type)
      (ne_literal_of_declarationKind? hd) (congrArg Program.symbols addDeclaration_prepare) ?_
    unfold State.prepare
    split <;> rfl
  | mainDeclared hk hl hd ht hr =>
    exact h.addDeclared (x := (s.beginFunction Kind.mainWord.text).declaration
      Kind.mainWord.text .function .i32) SymbolKind.noConfusion rfl rfl
  | literal => exact absurd rfl hk

/-- The value of a literal token. -/
theorem literal?_eq_some (h : literal? token.text = some (type, value)) :
    ∃ v, token.literal? = some v ∧ v.key = (type, value) ∧ token.kind? ≠ some .minus := by
  unfold literal? at h
  unfold Token.literal? Token.kind?
  split at h
  · next hk =>
    rw [Lexeme.decimal?_eq] at h
    rw [hk]
    split at h
    · cases h
      exact ⟨_, rfl, rfl, by decide⟩
    · cases h
  · next hk =>
    rw [hk]
    split at h
    · cases h
    · cases h
      exact ⟨_, rfl, rfl, by decide⟩
  · cases h

end Scan

theorem literalOf?_eq_none (hk : token.kind? = some k) (hne : k ≠ .literal ∧ k ≠ .minus) :
    literalOf? done token = none := by
  have hminus : token.kind? ≠ some .minus := by
    rw [hk]
    exact fun h => hne.2 (Option.some.inj h)
  rw [literalOf?, if_neg hminus, Token.literal?]
  split
  · next h => simp [Token.kind?, h, Kind.written, hne.1.symm] at hk
  · next h => simp [Token.kind?, h, Kind.written, hne.1.symm] at hk
  · rfl

/-- A minus is a sign just where the tokens say so. -/
theorem Recalls.expectsOperand (h : Recalls done s) :
    s.expectsOperand = (recent? done 0).any (·.takesSign) := by
  have hlast (k : Kind) (hk : k.takesSign) :
      s.program.lexemes.kindFromEnd? 1 = some k ↔ recent? done 0 = some k := by
    refine h.last k ?_
    revert hk
    cases k <;> decide
  have hkind : s.program.lexemes.kindFromEnd? 1 =
      s.program.lexemes.toList.getLast?.map (·.kind) := by
    rw [Lexeme.Table.kindFromEnd?_eq, Lexeme.Table.kinds, ← List.map_reverse, List.getElem?_map,
      ← List.head?_eq_getElem?, List.head?_reverse]
  rw [Bool.eq_iff_iff, Scan.expectsOperand_iff, Option.any_eq_true]
  simp only [decide_eq_true_eq]
  constructor
  · rintro ⟨l, hl, hk⟩
    refine ⟨l.kind, (hlast l.kind hk).mp ?_, hk⟩
    rw [hkind, hl]
    rfl
  · rintro ⟨k, hk, htakes⟩
    have hend := (hlast k htakes).mpr hk
    rw [hkind] at hend
    obtain ⟨l, hl, rfl⟩ := Option.map_eq_some_iff.mp hend
    exact ⟨l, hl, htakes⟩

theorem literals_concat :
    literals (done ++ [token]) = literals done ++ (literalOf? done token).toList :=
  gather_concat

theorem HasValue.mono (hsymbols : ∀ i x, s.program.symbols.get? i = some x →
    t.program.symbols.get? i = some x) (h : HasValue s.program.symbols l v) :
    HasValue t.program.symbols l v := by
  obtain ⟨i, x, hi, hx, hrest⟩ := h
  exact ⟨i, x, hi, hsymbols i x hx, hrest⟩

/-- A token without a literal keeps them. -/
theorem Interning.keep (h : Interning done s) (hnone : literalOf? done token = none)
    (hsymbols : ∀ i x, s.program.symbols.get? i = some x → t.program.symbols.get? i = some x)
    (hlexemes : literalLexemes t.program = literalLexemes s.program)
    (hcounted : ∀ uses, Counted uses s → Counted uses t) : Interning (done ++ [token]) t := by
  have hliterals : literals (done ++ [token]) = literals done := by
    rw [literals_concat, hnone, Option.toList_none, List.append_nil]
  refine ⟨hliterals ▸ hcounted _ h.counted, ?_⟩
  rw [hliterals, hlexemes]
  exact h.lexemes.imp fun l v hv => hv.mono hsymbols

/-- A token with a literal adds a lexeme for its value. -/
theorem Interning.use (h : Interning done s) (hsome : literalOf? done token = some v)
    (hsymbols : ∀ i x, s.program.symbols.get? i = some x → t.program.symbols.get? i = some x)
    (hlexemes : literalLexemes t.program = literalLexemes s.program ++ [l])
    (hl : HasValue t.program.symbols l v)
    (hcounted : ∀ uses, Counted uses s → Counted (uses + 1) t) :
    Interning (done ++ [token]) t := by
  have hliterals : literals (done ++ [token]) = literals done ++ [v] := by
    rw [literals_concat, hsome, Option.toList_some]
  constructor
  · rw [hliterals, List.length_append]
    exact hcounted _ h.counted
  · rw [hliterals, hlexemes]
    exact List.rel_append (h.lexemes.imp fun l v hv => hv.mono hsymbols) (.cons hl .nil)

theorem Counted.congr {uses : Nat} (h : Counted uses s)
    (hsymbols : t.program.symbols = s.program.symbols)
    (hmetrics : t.metrics = { s.metrics with unaryGroups := t.metrics.unaryGroups }) :
    Counted uses t := by
  constructor
  · rw [hsymbols]
    exact h.found
  · rw [hsymbols, hmetrics]
    exact h.interned
  · rw [hmetrics]
    exact h.used
  · rw [hsymbols, hmetrics]
    exact h.declared

theorem literalLexemes_addLexeme {p : Program} : literalLexemes (p.addLexeme l) =
    literalLexemes p ++ if l.kind = .literal then [l] else [] := by
  show List.filter _ (p.lexemes.add l).toList = _
  rw [Lexeme.Table.toList_add, List.filter_append]
  by_cases hk : l.kind = .literal <;> simp [literalLexemes, hk]

theorem literalLexemes_of_ne {p : Program} {line : Nat} {symbol : Option Nat}
    (hk : k ≠ .literal) :
    literalLexemes (p.addLexeme ⟨k, line, symbol⟩) = literalLexemes p := by
  rw [literalLexemes_addLexeme, if_neg hk, List.append_nil]

theorem literalLexemes_of_refers {line index : Nat} (hw : Scan.Refers line k index u t)
    (hu : u.program.lexemes = s.program.lexemes) : literalLexemes t.program =
      literalLexemes s.program ++ if k = .literal then [⟨k, line, some index⟩] else [] := by
  have hs : literalLexemes u.program = literalLexemes s.program := by
    unfold literalLexemes
    rw [hu]
  rw [← hs]
  cases hw with
  | plain => exact literalLexemes_addLexeme
  | closing => exact (literalLexemes_of_ne (by decide)).trans literalLexemes_addLexeme

theorem hasValue_of_key {index : Nat} {line : Nat} (hx : symbols.get? index = some x)
    (hkey : x.literalKey? = some v.key) :
    HasValue symbols ⟨.literal, line, some index⟩ v :=
  hasValue_iff.mpr ⟨index, x, rfl, hx, hkey⟩

/-- A token that is written with one lexeme without a symbol keeps the literals. -/
theorem Interning.bare {line : Nat} (h : Interning done s)
    (hnone : literalOf? done token = none) (hk : k ≠ .literal)
    (hsymbols : t.program.symbols = s.program.symbols) (hmetrics : t.metrics = s.metrics)
    (hlexemes : t.program.lexemes = s.program.lexemes.add ⟨k, line, none⟩) :
    Interning (done ++ [token]) t := by
  refine h.keep hnone (fun i x hx => by rwa [hsymbols]) ?_ fun uses hc =>
    hc.congr hsymbols (by rw [hmetrics])
  unfold literalLexemes
  rw [hlexemes]
  exact literalLexemes_of_ne (p := s.program) hk

theorem Interning.unchanged (h : Interning done s) (hk : Kind.ofText? token.text = some k)
    (hkind : k.written = k ∧ k ≠ .minus ∧ k ≠ .literal ∧ k ≠ .identifier)
    (hsymbols : t.program.symbols = s.program.symbols) (hmetrics : t.metrics = s.metrics)
    (hlexemes : t.program.lexemes = s.program.lexemes.add ⟨k, token.line, none⟩) :
    Interning (done ++ [token]) t := by
  have hwritten : token.kind? = some k := by rw [Token.kind?_of_ofText? hk, hkind.1]
  exact h.bare (literalOf?_eq_none hwritten ⟨hkind.2.2.1, hkind.2.1⟩) hkind.2.2.1 hsymbols
    hmetrics hlexemes

theorem Interning.step (h : Interning done s) (hr : Recalls done s) (hready : Scan.Ready s)
    (hs : Scan.Step token called s t) : Interning (done ++ [token]) t := by
  have hgrows : ∀ i x, s.program.symbols.get? i = some x → t.program.symbols.get? i = some x :=
    fun i x => (hs.grows hready).1.get?
  cases hs with
  | @datatype k type hk ht room =>
    have htype : token.type? = some type := by
      rw [Token.type?, hk]
      exact ht
    exact h.bare (literalOf?_eq_none (kind?_of_type? htype) (by decide)) (by decide) rfl rfl rfl
  | @refer k index u t hresolves hw =>
    have hlexemes := literalLexemes_of_refers hw hresolves.sameTable.lexemes
    have hsymbols : t.program.symbols = u.program.symbols := by cases hw <;> rfl
    have hwritten (uses : Nat) (hc : Counted uses u) : Counted uses t := by
      cases hw <;> exact hc.congr rfl rfl
    by_cases hliteral : k = .literal
    · subst hliteral
      cases hresolves with
      | @literal type value _ _ hv hi =>
        obtain ⟨v, hsome, hkey, hminus⟩ := Scan.literal?_eq_some hv
        obtain ⟨x, hx, hxkey⟩ := hi.symbol hready.1.indexed
        refine h.use (v := v) ?_ hgrows hlexemes ?_ fun uses hc => hwritten _ (hi.counted hc)
        · rw [literalOf?, if_neg hminus, hsome]
        · rw [← hsymbols] at hx
          exact hasValue_of_key hx (hkey ▸ hxkey)
    · rw [if_neg hliteral, List.append_nil] at hlexemes
      refine h.keep ?_ hgrows hlexemes fun uses hc => hwritten _ (hresolves.counted hliteral hc)
      refine literalOf?_eq_none hresolves.kind? ⟨hliteral, ?_⟩
      rcases hresolves.kind with ⟨-, rfl⟩ | ⟨-, rfl⟩ | ⟨-, rfl⟩ <;> decide
  | @sign index u hk he room hi =>
    have hkind : token.kind? = some .minus := Token.kind?_of_ofText? hk
    obtain ⟨x, hx, hxkey⟩ := hi.symbol hready.1.indexed
    refine h.use (v := .integer 0) (l := ⟨.literal, token.line, some index⟩) ?_ hgrows ?_
      (hasValue_of_key hx hxkey) fun uses hc => ?_
    · rw [literalOf?, if_pos hkind, ← hr.expectsOperand, he]
      rfl
    · have hopen : literalLexemes u.program =
          literalLexemes (s.program.addLexeme ⟨.openParen, token.line, none⟩) := by
        unfold literalLexemes
        rw [hi.sameTable.lexemes]
        rfl
      show literalLexemes ((u.program.addLexeme ⟨.literal, token.line, some index⟩).addLexeme
        ⟨.minus, token.line, none⟩) = _
      rw [literalLexemes_of_ne (by decide), literalLexemes_addLexeme, if_pos rfl, hopen,
        literalLexemes_of_ne (by decide)]
    · exact (hi.counted (hc.congr rfl rfl)).congr rfl rfl
  | minus hk he room =>
    have hkind : token.kind? = some .minus := Token.kind?_of_ofText? hk
    refine h.bare (k := .minus) ?_ (by decide) rfl rfl rfl
    rw [literalOf?, if_pos hkind, ← hr.expectsOperand, he]
    rfl
  | enter hk hb hscopes room =>
    exact h.unchanged hk (Scan.written_of_bracket (hb.imp_right Or.inl)) rfl rfl rfl
  | leave hk hb hscopes room =>
    exact h.unchanged hk (Scan.written_of_bracket (Or.inr (Or.inr hb))) rfl rfl rfl
  | plain hk hp room => exact h.unchanged hk (Scan.written_of_isPlain hk hp) rfl rfl rfl

variable {settings : ScanSettings} {maxDepth maxSymbols maxLexemes : Nat} {tokens : List Token}
  {metrics : Metrics}

theorem interning_begin
    (h : (Symbol.Table.empty maxSymbols).registerLibrary = (.ok n, symbols)) :
    Interning [] (.begin settings maxDepth symbols (.empty maxLexemes)) := by
  have hlist := Symbol.Table.toList_of_registerLibrary h
  refine ⟨⟨?_, ?_, rfl, ?_⟩, .nil⟩
  · intro i x key hx hkey
    have hnone : ∀ x ∈ Symbol.Signature.library, x.literalKey? = none := by decide
    rw [hnone x (Symbol.Table.mem_library h hx)] at hkey
    cases hkey
  · show 0 = symbols.toList.countP _
    rw [hlist]
    rfl
  · show 5 = symbols.toList.countP _
    rw [hlist]
    rfl

theorem interning_of_scanTokens
    (hr : (Symbol.Table.empty maxSymbols).registerLibrary = (.ok n, symbols))
    (hs : Scan.scanTokens tokens (.begin settings maxDepth symbols (.empty maxLexemes)) =
      .ok () t) :
    Interning tokens t := by
  have hrun := Scan.scanTokens_history
    (P := fun done _ u => Scan.Ready u ∧ Recalls done u ∧ Interning done u) ?_
    ⟨ready_library hr, recalls_begin, interning_begin hr⟩ hs
  · exact hrun.2.2
  · rintro done token rest u v ⟨hready, hrecalls, hinterning⟩ hstep -
    exact ⟨hready.step hstep, hrecalls.step hstep hready.1.indexed,
      hinterning.step hrecalls hready hstep⟩

/-- In an accepted scan into empty tables, literals are interned: the literal lexemes stand for the
values of the literal tokens and for the zeros of signs, one symbol for each value. -/
theorem scan_literals
    (h : (scan settings maxDepth tokens (empty maxSymbols maxLexemes)).result = .ok metrics) :
    LiteralsInterned (scan settings maxDepth tokens (empty maxSymbols maxLexemes)).program metrics
      (literals tokens) := by
  obtain ⟨n, symbols, t, hr, hs, -, hscan⟩ := steps_of_scan h
  have hr : (Symbol.Table.empty maxSymbols).registerLibrary = (.ok n, symbols) := hr
  rw [hscan] at h ⊢
  obtain rfl : t.summary tokens = metrics := Except.ok.inj h
  obtain ⟨hcounted, hlexemes⟩ := interning_of_scanTokens hr hs
  have hgrows := (ready_library hr).grows hs
  have htraced := hgrows.traced (traced_library hr)
  constructor
  · exact hlexemes
  · intro m n l l' v v' hl hl' hv hv'
    obtain ⟨hm, rfl⟩ := List.getElem?_eq_some_iff.mp hl
    obtain ⟨hmv, rfl⟩ := List.getElem?_eq_some_iff.mp hv
    obtain ⟨hn, rfl⟩ := List.getElem?_eq_some_iff.mp hl'
    obtain ⟨hnv, rfl⟩ := List.getElem?_eq_some_iff.mp hv'
    exact hcounted.symbol_eq_iff (hlexemes.get hm hmv) (hlexemes.get hn hnv)
  · rw [Symbol.Table.literalCount, ← Array.countP_toList]
    exact hcounted.interned
  · rw [Lexeme.Table.countKind, ← Array.countP_toList, List.countP_eq_length_filter]
    exact hcounted.used.trans hlexemes.length_eq.symm
  · obtain ⟨own, hown⟩ := htraced.library
    refine ⟨own, hown.symm, ?_⟩
    have hdeclared := hcounted.declared
    have hlibrary : Symbol.Signature.library.countP (!·.isLiteral) = 5 := by decide
    rw [← hown, List.countP_append, hlibrary, Nat.add_comm 5] at hdeclared
    exact Nat.add_right_cancel hdeclared

end

attribute [local instance] Limits.development

/-- A sign and its operand stand for two values. -/
theorem literalsInterned_signedLiteral : ∃ metrics,
    LiteralsInterned (scan {} 0 signedLiteral (empty 8 9)).program metrics
      [.integer 0, .integer 1] := by
  obtain ⟨metrics, h, -⟩ := result_signedLiteral
  have hliterals : literals signedLiteral = [.integer 0, .integer 1] := by decide +kernel
  exact ⟨metrics, hliterals ▸ scan_literals h⟩

/-- One number written in two ways, beside the zero of a sign, and a text that reads the same. -/
example : literals (oneLine 1 ["=", "-", "007", ";", "7", "'7'"]) =
    [.integer 0, .integer 7, .integer 7, .string "7"] := by decide +kernel

end Program
end Ttm
